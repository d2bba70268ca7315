import GuardClause.Language.Registry
import GuardClause.Proofs.Tables

/-!
# Histories of a registry

A registry is what a history of registrations and removals leaves behind (`Registry.run`). One
equation for each kind of change says what the change does to the owner of an extension and to the
language under a name. What holds after every history follows from these by induction from the end
of the history.
-/

namespace GuardClause

namespace Registry

variable {α : Type}

/-- A change of a registry. -/
inductive Change (α : Type) where
  | register (e : Registration α)
  | unregister (name : String)

def step (r : Registry α) : Change α → Registry α
  | .register e => r.register e
  | .unregister name => r.unregister name

/-- What a history of changes leaves behind. -/
def run (history : List (Change α)) : Registry α := history.foldl step empty

theorem run_append_singleton (history : List (Change α)) (c : Change α) :
    run (history ++ [c]) = (run history).step c := by
  unfold run
  rw [List.foldl_append]
  rfl

/-! ## Owners -/

theorem get?_assign (owners : Table String) (name : String) (extensions : List String)
    (x : String) :
    (assign owners name extensions).get? x =
      if x ∈ extensions then some name else owners.get? x := by
  induction extensions generalizing owners with
  | nil => simp [assign]
  | cons e rest ih =>
      have hstep : assign owners name (e :: rest) = assign (owners.put e name) name rest := rfl
      rw [hstep, ih, Table.get?_put]
      by_cases hrest : x ∈ rest
      · simp [hrest]
      · by_cases he : e = x
        · simp [he]
        · simp [hrest, he, Ne.symm he]

theorem get?_withdraw (owners : Table String) (name : String) (extensions : List String)
    (x : String) :
    (withdraw owners name extensions).get? x =
      if x ∈ extensions ∧ owners.get? x = some name then none else owners.get? x := by
  induction extensions generalizing owners with
  | nil => simp [withdraw]
  | cons e rest ih =>
      have hstep : withdraw owners name (e :: rest) =
          withdraw (if owners.get? e = some name then owners.erase e else owners) name rest := rfl
      rw [hstep, ih]
      by_cases howned : owners.get? e = some name
      · rw [if_pos howned, Table.get?_erase]
        by_cases he : e = x
        · subst he
          simp [howned]
        · simp [he, Ne.symm he]
      · rw [if_neg howned]
        by_cases he : e = x
        · subst he
          simp [howned]
        · simp [Ne.symm he]

/-- A registration gives the extensions that it lists to its name, and no others. -/
theorem owner?_register (r : Registry α) (e : Registration α) (x : String) :
    (r.register e).owner? x = if x ∈ e.extensions then some e.name else r.owner? x :=
  get?_assign r.owners e.name e.extensions x

/-- A removal takes from a name the extensions that its language lists. -/
theorem owner?_unregister {r : Registry α} {name : String} {e : Registration α}
    (h : r.entries.get? name = some e) (x : String) :
    (r.unregister name).owner? x =
      if x ∈ e.extensions ∧ r.owner? x = some name then none else r.owner? x := by
  rw [unregister, remove, h]
  exact get?_withdraw r.owners name e.extensions x

/-! ## Names -/

theorem get?_register (r : Registry α) (e : Registration α) (name : String) :
    (r.register e).entries.get? name = if e.name = name then some e else r.entries.get? name :=
  Table.get?_put r.entries e.name name e

theorem unregister_of_absent {r : Registry α} {name : String} (h : r.entries.get? name = none) :
    r.unregister name = r := by
  rw [unregister, remove, h]

/-- A removal answers whether the name was registered. -/
theorem fst_remove (r : Registry α) (name : String) : (r.remove name).1 = r.has name := by
  rw [remove, has, Table.has]
  cases r.entries.get? name <;> rfl

theorem get?_unregister (r : Registry α) (name other : String) :
    (r.unregister name).entries.get? other =
      if name = other then none else r.entries.get? other := by
  cases h : r.entries.get? name with
  | none =>
      rw [unregister_of_absent h]
      by_cases hname : name = other
      · rw [if_pos hname, ← hname, h]
      · rw [if_neg hname]
  | some e =>
      rw [unregister, remove, h]
      exact Table.get?_erase r.entries name other

end Registry

end GuardClause
