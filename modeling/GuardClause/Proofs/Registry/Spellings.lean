import GuardClause.Http.Answer
import GuardClause.Proofs.Registry.Ownership
import GuardClause.Proofs.Steps
import GuardClause.Proofs.Text.Casing

/-!
# Spellings of a name

A language is registered under its name as it is spelled, but the name is looked up in lower case.
So a language that is listed can be looked up, under any spelling of its name, exactly if the lower
case of its name is listed too. The response that lists the languages looks each of them up, and a
language that was told by a file is looked up by its name, so both depend on the same thing
(`findable_iff_lowerCase_listed`). All is well when languages are registered under names in lower
case only.
-/

namespace GuardClause

namespace Registry

variable {α : Type} {r : Registry α} {history : List (Change α)} {name path : String}
  {d : Registration α}

/-- Every spelling of a name leads to a language that is registered under a spelling of it. -/
def Findable (r : Registry α) (name : String) : Prop :=
  ∀ s, Text.lowerCase s = Text.lowerCase name →
    ∃ d, r.find? s = some d ∧ d.name ∈ r.names ∧ Text.lowerCase d.name = Text.lowerCase name

/-- Every name that is listed is listed in lower case too. -/
def ListsLowerCase (r : Registry α) : Prop := ∀ name ∈ r.names, Text.lowerCase name ∈ r.names

theorem mem_names_iff : name ∈ r.names ↔ ∃ d, r.entries.get? name = some d := Table.mem_keys_iff

theorem mem_names_lowerCase_iff :
    Text.lowerCase name ∈ r.names ↔ ∃ d, r.find? name = some d := mem_names_iff

theorem findable_iff :
    (run history).Findable name ↔ Text.lowerCase name ∈ (run history).names := by
  constructor
  · intro h
    obtain ⟨d, hd, -⟩ := h name rfl
    exact mem_names_lowerCase_iff.mpr ⟨d, hd⟩
  · intro h s hs
    obtain ⟨d, hd⟩ := mem_names_iff.mp h
    have hname := name_of_get?_run hd
    refine ⟨d, ?_, hname ▸ h, ?_⟩
    · rw [find?, hs, hd]
    · rw [hname, Text.lowerCase_lowerCase]

/-- A language that was told by a file is found again by its name if its name is in lower case. -/
theorem find?_name_iff (h : (run history).ofFile? path = some d) :
    (run history).find? d.name = some d ↔ Text.lowerCase d.name = d.name := by
  obtain ⟨name, -, hd⟩ := Option.bind_eq_some_iff.mp h
  obtain rfl := name_of_get?_run hd
  constructor
  · intro hfind
    exact (name_of_get?_run hfind).symm
  · intro hlower
    rw [find?, hlower, hd]

/-- A name that is listed was registered. -/
theorem exists_register_of_mem_names (h : name ∈ (run history).names) :
    ∃ e, .register e ∈ history ∧ e.name = name := by
  obtain ⟨d, hd⟩ := mem_names_iff.mp h
  obtain ⟨hname, past, later, rfl, -⟩ := get?_run_iff.mp hd
  exact ⟨d, by simp, hname⟩

/-- Where languages are registered under names in lower case only, all names are in lower case. -/
theorem lowerCase_of_mem_names (h : ∀ e, .register e ∈ history → Text.lowerCase e.name = e.name)
    (hname : name ∈ (run history).names) : Text.lowerCase name = name := by
  obtain ⟨e, he, rfl⟩ := exists_register_of_mem_names hname
  exact h e he

theorem mem_names_of_ofFile? (h : (run history).ofFile? path = some d) :
    d.name ∈ (run history).names := by
  obtain ⟨name, -, hd⟩ := Option.bind_eq_some_iff.mp h
  obtain rfl := name_of_get?_run hd
  exact mem_names_iff.mpr ⟨d, hd⟩

end Registry

namespace Http

open Registry

variable {s : Service} {r : Request}

/-- The languages can be listed exactly if each name that is listed is found by its lower case. -/
theorem exists_languages?_iff :
    (∃ listed, languages? s = some listed) ↔ s.registry.ListsLowerCase := by
  rw [languages?, exists_mapM_eq_some_iff]
  refine forall₂_congr fun name _ => ?_
  rw [mem_names_lowerCase_iff]
  cases s.registry.find? name <;> simp

/-- A request for the languages is answered, or fails inside. -/
theorem answer_languages (hmethod : r.method = "GET")
    (hresource : resource? r.path = some .languages) :
    (s.registry.ListsLowerCase ∧ ∃ listed, languages? s = some listed ∧
        answer s r = ⟨200, .list listed⟩) ∨
      (¬ s.registry.ListsLowerCase ∧ answer s r = ⟨500, .text "Internal Server Error"⟩) := by
  have hserve : answer s r = serve s r .languages := by
    rw [answer, hresource]
    exact if_pos hmethod
  rw [hserve, serve, ← exists_languages?_iff]
  cases languages? s with
  | some listed => exact Or.inl ⟨⟨listed, rfl⟩, listed, rfl, rfl⟩
  | none => exact Or.inr ⟨by simp, rfl⟩

end Http

namespace Registry

/-- After every history, the spellings of a name lead to a language of that name exactly if the
lower case of the name is listed. Listing the languages succeeds exactly if this holds of every
name that is listed, and fails inside otherwise. A language that was told by a file is found again
by its name exactly if the name is in lower case. Nothing fails where languages are registered
under names in lower case only. -/
theorem findable_iff_lowerCase_listed (history : List (Change Grammar)) :
    (∀ name, (run history).Findable name ↔ Text.lowerCase name ∈ (run history).names) ∧
    (∀ s : Service, s.registry = run history → ∀ r : Http.Request, r.method = "GET" →
      Http.resource? r.path = some .languages →
        ((Http.answer s r).status = 200 ↔ (run history).ListsLowerCase) ∧
        ((Http.answer s r).status = 500 ↔ ¬ (run history).ListsLowerCase)) ∧
    (∀ path d, (run history).ofFile? path = some d →
      ((run history).find? d.name = some d ↔ Text.lowerCase d.name = d.name)) ∧
    ((∀ e, .register e ∈ history → Text.lowerCase e.name = e.name) →
      (run history).ListsLowerCase ∧
        ∀ path d, (run history).ofFile? path = some d → (run history).find? d.name = some d) := by
  refine ⟨fun _ => findable_iff, ?_, fun _ _ => find?_name_iff, ?_⟩
  · rintro s hs r hmethod hresource
    rw [← hs]
    rcases Http.answer_languages (s := s) hmethod hresource with
      ⟨hlists, listed, -, hanswer⟩ | ⟨hlists, hanswer⟩
    · rw [hanswer]
      exact ⟨iff_of_true rfl hlists, iff_of_false (by simp) (not_not_intro hlists)⟩
    · rw [hanswer]
      exact ⟨iff_of_false (by simp) hlists, iff_of_true rfl hlists⟩
  · intro h
    constructor
    · intro name hname
      rwa [lowerCase_of_mem_names h hname]
    · intro path d hd
      exact (find?_name_iff hd).mpr (lowerCase_of_mem_names h (mem_names_of_ofFile? hd))

/-- One language, registered under a name with a capital letter. -/
def capital : List (Change Grammar) :=
  [.register ⟨"Python", [".py"], ⟨some "Python", [".py"], [], [], {}⟩⟩]

/-- A language whose name has a capital letter is listed and told by its files, but no spelling of
its name leads to it, and the languages cannot be listed. -/
theorem not_findable_capital :
    (run capital).names = ["Python"] ∧ ¬ (run capital).Findable "Python" ∧
      (run capital).find? "Python" = none ∧
      ((run capital).ofFile? "a.py").map Registration.name = some "Python" ∧
      (Http.answer ⟨run capital, 4, 100, "Python"⟩
        ⟨"GET", "/api/refactorings/languages", .null, ⟨none, false⟩⟩).status = 500 := by
  have hlower : Text.lowerCase "Python" = "python" := rfl
  refine ⟨rfl, ?_, rfl, rfl, rfl⟩
  rw [capital, findable_iff, hlower, mem_names_iff]
  rintro ⟨d, hd⟩
  cases hd

end Registry

end GuardClause
