/-!
# Tables in order of insertion

A table maps names to values and remembers the order in which names first came in. Putting a
value under a present name keeps the name's place; a name that is erased and put again moves to
the end.
-/

namespace GuardClause

/-- A list of names with their values. The operations below keep the names distinct. -/
abbrev Table (β : Type) := List (String × β)

namespace Table

variable {β : Type}

def get? (name : String) : Table β → Option β
  | [] => none
  | (k, v) :: rest => if k = name then some v else get? name rest

def has (name : String) (t : Table β) : Bool := (t.get? name).isSome

/-- The table with `value` under `name`. -/
def put (name : String) (value : β) : Table β → Table β
  | [] => [(name, value)]
  | (k, v) :: rest => if k = name then (k, value) :: rest else (k, v) :: put name value rest

/-- The table without a name. -/
def erase (name : String) (t : Table β) : Table β := t.filter (·.1 ≠ name)

/-- The entries of `later` put into `base` one after another. -/
def merge (base later : Table β) : Table β := later.foldl (fun t e => t.put e.1 e.2) base

def keys (t : Table β) : List String := t.map (·.1)

@[simp] theorem get?_nil (name : String) : get? name ([] : Table β) = none := rfl

theorem get?_put (t : Table β) (name other : String) (value : β) :
    (t.put name value).get? other = if name = other then some value else t.get? other := by
  induction t with
  | nil => simp [put, get?]
  | cons e rest ih =>
      obtain ⟨k, v⟩ := e
      unfold put
      split
      · rename_i hk
        subst hk
        by_cases h : k = other <;> simp [get?, h]
      · rename_i hk
        simp only [get?, ih]
        by_cases h : k = other
        · subst h
          simp [Ne.symm hk]
        · simp [h]

theorem get?_erase (t : Table β) (name other : String) :
    (t.erase name).get? other = if name = other then none else t.get? other := by
  induction t with
  | nil => simp [erase]
  | cons e rest ih =>
      obtain ⟨k, v⟩ := e
      unfold erase at ih ⊢
      by_cases hk : k = name
      · subst hk
        rw [List.filter_cons_of_neg (by simp)]
        rw [ih]
        by_cases h : k = other <;> simp [get?, h]
      · rw [List.filter_cons_of_pos (by simpa using hk)]
        simp only [get?, ih]
        by_cases h : k = other
        · subst h
          simp [Ne.symm hk]
        · simp [h]

end Table

end GuardClause
