import GuardClause.Proofs.Registry.Histories

/-!
# Owners that are registered

An extension should be owned by a language that is registered and lists it (`Registry.Live`). A
removal keeps this true, because it takes away all that the removed language lists. A registration
under a name that is registered already replaces the language but not what the name owned before,
so the extensions that only the replaced language listed stay behind. These are the only ones that
ever do: the owners are live throughout a history exactly when every registration lists what its
name owns (`live_throughout_iff`).
-/

namespace GuardClause.Registry

variable {α : Type} {r : Registry α}

/-- Every extension is owned by a name under which a language is registered that lists it. -/
def Live (r : Registry α) : Prop :=
  ∀ x ∈ r.extensions, ∃ name e, r.owner? x = some name ∧ r.entries.get? name = some e ∧
    x ∈ e.extensions

/-- A registration lists all extensions that its name owns. A removal has nothing to list. -/
def Keeps (r : Registry α) : Change α → Prop
  | .register e => ∀ x, r.owner? x = some e.name → x ∈ e.extensions
  | .unregister _ => True

theorem live_iff :
    r.Live ↔ ∀ x name, r.owner? x = some name →
      ∃ e, r.entries.get? name = some e ∧ x ∈ e.extensions := by
  constructor
  · intro h x name howner
    obtain ⟨other, e, hother, he, hx⟩ := h x (Table.mem_keys_iff.mpr ⟨name, howner⟩)
    obtain rfl := Option.some.inj (howner.symm.trans hother)
    exact ⟨e, he, hx⟩
  · intro h x hx
    obtain ⟨name, howner⟩ := Table.mem_keys_iff.mp hx
    obtain ⟨e, he, hxe⟩ := h x name howner
    exact ⟨name, e, howner, he, hxe⟩

theorem live_empty : (empty : Registry α).Live := by
  intro x hx
  exact absurd hx List.not_mem_nil

/-! ## One change -/

/-- A registration leaves live owners behind exactly when it lists what its name owned. -/
theorem live_register_iff (h : r.Live) (e : Registration α) :
    (r.register e).Live ↔ r.Keeps (.register e) := by
  rw [live_iff] at h ⊢
  simp only [owner?_register, get?_register]
  constructor
  · intro hlive x howner
    by_contra hx
    -- The name still owns the extension, and its new language does not list it.
    obtain ⟨d, hd, hxd⟩ := hlive x e.name (by rw [if_neg hx, howner])
    rw [if_pos rfl] at hd
    obtain rfl := Option.some.inj hd
    exact hx hxd
  · intro hkeeps x name howner
    by_cases hx : x ∈ e.extensions
    · rw [if_pos hx] at howner
      obtain rfl := Option.some.inj howner
      exact ⟨e, if_pos rfl, hx⟩
    · rw [if_neg hx] at howner
      have hne : e.name ≠ name := by
        rintro rfl
        exact hx (hkeeps x howner)
      rw [if_neg hne]
      exact h x name howner

/-- A removal takes all extensions of the removed name away. -/
theorem Live.unregister (h : r.Live) (name : String) : (r.unregister name).Live := by
  cases hentry : r.entries.get? name with
  | none => rwa [unregister_of_absent hentry]
  | some e =>
      rw [live_iff] at h ⊢
      intro x other howner
      rw [owner?_unregister hentry] at howner
      by_cases htaken : x ∈ e.extensions ∧ r.owner? x = some name
      · rw [if_pos htaken] at howner
        cases howner
      · rw [if_neg htaken] at howner
        obtain ⟨d, hd, hx⟩ := h x other howner
        have hne : name ≠ other := by
          rintro rfl
          obtain rfl := Option.some.inj (hentry.symm.trans hd)
          exact htaken ⟨hx, howner⟩
        refine ⟨d, ?_, hx⟩
        rw [get?_unregister, if_neg hne, hd]

theorem live_step_iff (h : r.Live) (c : Change α) : (r.step c).Live ↔ r.Keeps c := by
  cases c with
  | register e => exact live_register_iff h e
  | unregister name => exact ⟨fun _ => trivial, fun _ => h.unregister name⟩

/-! ## Histories -/

/-- The owners are live at every moment of a history exactly when every registration in it lists all
extensions that its name owns at that moment. -/
theorem live_throughout_iff (history : List (Change α)) :
    (∀ past, past <+: history → (run past).Live) ↔
      ∀ past c, past ++ [c] <+: history → (run past).Keeps c := by
  constructor
  · intro h past c hpast
    have hbefore := h past ((List.prefix_append past [c]).trans hpast)
    have hafter := h (past ++ [c]) hpast
    rw [run_append_singleton] at hafter
    exact (live_step_iff hbefore c).mp hafter
  · intro h past
    induction past using List.reverseRecOn with
    | nil => exact fun _ => live_empty
    | append_singleton past c ih =>
        intro hpast
        have hbefore := ih ((List.prefix_append past [c]).trans hpast)
        rw [run_append_singleton]
        exact (live_step_iff hbefore c).mpr (h past c hpast)

/-- A language that is registered again without an extension that it listed before keeps that
extension, even when it has been removed. -/
theorem not_live_of_narrowed :
    ¬ (run [.register ⟨"a", [".x"], ()⟩, .register ⟨"a", [".y"], ()⟩, .unregister "a"]).Live := by
  intro h
  obtain ⟨e, he, -⟩ := live_iff.mp h ".x" "a" rfl
  cases he

end GuardClause.Registry
