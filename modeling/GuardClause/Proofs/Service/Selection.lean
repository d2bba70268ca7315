import GuardClause.Proofs.Steps
import GuardClause.Service.Basic

/-!
# Picking a language

A service over the bundled languages picks one of them or none, whatever the hints say
(`exists_bundled_of_select`). Asked for the language that it picked, by name and nothing else, it
picks the same one (`select_name`). How a query ends is then told by three questions in
turn: whether the buffer is too large, whether a language was picked, and what the edits in that
language are.
-/

namespace GuardClause

/-! ## Bundled languages -/

namespace Registry

theorem entries_bundled :
    bundled.entries = Bundled.all.map fun b => (b.name, b.registration) := rfl

theorem exists_of_get?_bundled {name : String} {found : Registration Grammar}
    (h : bundled.entries.get? name = some found) : ∃ b : Bundled, found = b.registration := by
  have hmem := Table.mem_of_get? h
  rw [entries_bundled] at hmem
  obtain ⟨b, -, hb⟩ := List.mem_map.mp hmem
  exact ⟨b, (congrArg Prod.snd hb).symm⟩

theorem find?_bundled (b : Bundled) : bundled.find? b.name = some b.registration := by
  cases b <;> rfl

end Registry

theorem Service.hint_name (b : Bundled) : Service.hint (some b.name) = some b.name := by
  cases b <;> rfl

namespace Service

variable {s : Service} {q : Query} {parsed : Parsed} {language file : Option String}
  {found : Registration Grammar} {u : Unsupported}

/-! ## What is picked -/

theorem byName_eq_ok {name : String} :
    s.byName name = .ok found ↔ s.registry.find? name = some found := by
  unfold byName
  cases s.registry.find? name with
  | none => simp
  | some other => simp

/-- What is picked is registered, found by its name or by the name that owns a suffix. -/
theorem exists_get?_of_select (h : s.select language file = .ok found) :
    ∃ name, s.registry.entries.get? name = some found := by
  unfold select at h
  split at h
  · exact ⟨_, byName_eq_ok.mp h⟩
  · rename_i path _ _
    cases hfile : s.registry.ofFile? path with
    | none =>
        rw [hfile] at h
        cases h
    | some other =>
        rw [hfile] at h
        obtain rfl := Except.ok.inj h
        obtain ⟨name, -, hname⟩ := Option.bind_eq_some_iff.mp hfile
        exact ⟨name, hname⟩
  · exact ⟨_, byName_eq_ok.mp h⟩

theorem exists_bundled_of_select (hs : s.registry = Registry.bundled)
    (h : s.select language file = .ok found) : ∃ b : Bundled, found = b.registration := by
  obtain ⟨name, hname⟩ := exists_get?_of_select h
  rw [hs] at hname
  exact Registry.exists_of_get?_bundled hname

/-- The name of a language that was picked leads to that language again. -/
theorem select_name (hs : s.registry = Registry.bundled)
    (h : s.select language file = .ok found) : s.select (some found.name) none = .ok found := by
  obtain ⟨b, rfl⟩ := exists_bundled_of_select hs h
  have hname : b.registration.name = b.name := rfl
  rw [select, hname, hint_name]
  dsimp only
  rw [byName_eq_ok, hs]
  exact Registry.find?_bundled b

/-! ## How a query ends -/

theorem propose_of_tooLarge (h : s.maxSourceChars < q.content.length) (parsed : Parsed) :
    s.propose q parsed = .error (.tooLarge q.content.length s.maxSourceChars) := by
  rw [propose, checkSize, if_pos h]
  rfl

theorem propose_of_unsupported (hsize : ¬ s.maxSourceChars < q.content.length)
    (h : s.select q.language q.file = .error u) (parsed : Parsed) :
    s.propose q parsed = .error (.unsupported u) := by
  rw [propose, checkSize, if_neg hsize, h]
  rfl

theorem propose_of_select (hsize : ¬ s.maxSourceChars < q.content.length)
    (h : s.select q.language q.file = .ok found) (parsed : Parsed) :
    s.propose q parsed = s.editsIn found.content q parsed := by
  rw [propose, checkSize, if_neg hsize, h]
  rfl

/-- Once a language is picked, the buffer is too large, or the service answers, or it fails at
parsing or at a refactoring. -/
theorem propose_cases (h : s.select q.language q.file = .ok found) (parsed : Parsed) :
    (s.maxSourceChars < q.content.length ∧
        s.propose q parsed = .error (.tooLarge q.content.length s.maxSourceChars)) ∨
      (¬ s.maxSourceChars < q.content.length ∧
        ((∃ es, s.propose q parsed = .ok es) ∨ (∃ e, s.propose q parsed = .error (.unparsed e)) ∨
          ∃ f, s.propose q parsed = .error (.failed f))) := by
  by_cases hsize : s.maxSourceChars < q.content.length
  · exact Or.inl ⟨hsize, propose_of_tooLarge hsize parsed⟩
  · refine Or.inr ⟨hsize, ?_⟩
    rw [propose_of_select hsize h, editsIn]
    cases found.content.parse q.content parsed with
    | error e => exact Or.inr (Or.inl ⟨e, rfl⟩)
    | ok a =>
        dsimp only
        cases a.propose (a.buffer.offsetOf q.line q.column) s.indentWidth with
        | error f => exact Or.inr (Or.inr ⟨f, rfl⟩)
        | ok es => exact Or.inl ⟨es, rfl⟩

end Service

end GuardClause
