import GuardClause.Table
import Mathlib

/-!
# What tables hold

A table is read through `Table.get?`. Each way of putting tables together has one equation that says
what is read from the result, and one lemma that says that its names stay distinct. Where names are
distinct, a name that a later table has is read from the later one (`get?_merge`).
-/

namespace GuardClause.Table

variable {β : Type} {t base later : Table β} {name other : String} {value : β}

theorem mem_keys_iff : name ∈ t.keys ↔ ∃ v, t.get? name = some v := by
  induction t with
  | nil => simp [keys]
  | cons e t ih =>
      obtain ⟨k, v⟩ := e
      have hkeys : keys ((k, v) :: t) = k :: keys t := rfl
      rw [hkeys, List.mem_cons, get?, ih]
      by_cases h : k = name
      · simp [h]
      · simp [h, Ne.symm h]

theorem get?_eq_none_iff : t.get? name = none ↔ name ∉ t.keys := by
  rw [mem_keys_iff, Option.eq_none_iff_forall_ne_some, not_exists]

theorem get?_append (s t : Table β) (name : String) :
    get? name (s ++ t) = (s.get? name).or (t.get? name) := by
  induction s with
  | nil => rfl
  | cons e s ih =>
      obtain ⟨k, v⟩ := e
      rw [List.cons_append, get?, get?, ih]
      split <;> rfl

/-- Some names are left out of a table. -/
theorem get?_filter (t : Table β) (p : String → Bool) (name : String) :
    get? name (t.filter fun e => p e.1) = if p name then t.get? name else none := by
  induction t with
  | nil => simp
  | cons e t ih =>
      obtain ⟨k, v⟩ := e
      rw [List.filter_cons]
      by_cases hk : k = name
      · subst hk
        by_cases hp : p k = true <;> simp [hp, get?, ih]
      · by_cases hp : p k = true <;> simp [hp, hk, get?, ih]

/-- Some names of a table are listed in a given order. -/
theorem get?_filterMap (t : Table β) (names : List String) (name : String) :
    get? name (names.filterMap fun n => (t.get? n).map fun v => (n, v)) =
      if name ∈ names then t.get? name else none := by
  induction names with
  | nil => simp
  | cons n names ih =>
      rw [List.filterMap_cons]
      cases hn : t.get? n with
      | none =>
          rw [Option.map_none, ih]
          by_cases hname : name = n
          · subst hname
            simp [hn]
          · simp [hname]
      | some v =>
          rw [Option.map_some, get?, ih]
          by_cases hname : n = name
          · subst hname
            simp [hn]
          · simp [hname, Ne.symm hname]

/-! ## Distinct names -/

theorem mem_keys_put : other ∈ (t.put name value).keys ↔ other = name ∨ other ∈ t.keys := by
  simp only [mem_keys_iff, get?_put]
  by_cases h : name = other
  · simp [h]
  · simp [h, Ne.symm h]

theorem nodup_put (h : t.keys.Nodup) : (t.put name value).keys.Nodup := by
  induction t with
  | nil => simp [put, keys]
  | cons e t ih =>
      obtain ⟨k, v⟩ := e
      obtain ⟨hk, ht⟩ := List.nodup_cons.mp h
      unfold put
      split
      · exact List.nodup_cons.mpr ⟨hk, ht⟩
      · rename_i hne
        refine List.nodup_cons.mpr ⟨?_, ih ht⟩
        intro hmem
        rcases mem_keys_put.mp hmem with heq | hmem
        · exact hne heq
        · exact hk hmem

theorem nodup_merge (h : base.keys.Nodup) (later : Table β) : (base.merge later).keys.Nodup := by
  induction later generalizing base with
  | nil => exact h
  | cons e later ih => exact ih (nodup_put h)

theorem get?_merge (h : later.keys.Nodup) (base : Table β) (name : String) :
    (base.merge later).get? name = (later.get? name).or (base.get? name) := by
  induction later generalizing base with
  | nil => rfl
  | cons e later ih =>
      obtain ⟨k, v⟩ := e
      obtain ⟨hk, hlater⟩ := List.nodup_cons.mp h
      have hstep : base.merge ((k, v) :: later) = (base.put k v).merge later := rfl
      rw [hstep, ih hlater, get?_put, get?]
      by_cases hname : k = name
      · -- No later entry has the name.
        subst hname
        rw [if_pos rfl, if_pos rfl, get?_eq_none_iff.mpr hk]
        rfl
      · rw [if_neg hname, if_neg hname]

end GuardClause.Table
