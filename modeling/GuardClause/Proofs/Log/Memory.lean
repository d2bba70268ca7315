import GuardClause.Log.Memory
import GuardClause.Proofs.Tables

/-!
# What happens in memory

A state is the memory together with the dictionaries that a program holds. One section for each
thing that a program may do says that it keeps states valid (`State.Valid`), that memory only grows
(`State.Extends`), what it does to dictionaries that were there, and what becomes of the adapters.
Only a call writes to a dictionary that was there, and only to the one that it is given.
-/

namespace GuardClause.Log

/-! ## Memory -/

namespace Memory

variable {m m' : Memory} {t : Table Value} {a b i j : Nat} {h : Handle}

theorem read_make (m : Memory) (t : Table Value) (a : Nat) :
    (m.make t).read a = if a = m.dicts.length then t else m.read a := by
  unfold read make
  dsimp only
  split_ifs with ha
  · simp [ha]
  · rcases Nat.lt_or_gt_of_ne ha with hlt | hgt
    · rw [List.getElem?_append_left hlt]
    · rw [List.getElem?_eq_none (by simp; omega), List.getElem?_eq_none (by omega)]

theorem read_make_of_lt (ha : a < m.dicts.length) : (m.make t).read a = m.read a := by
  rw [read_make, if_neg ha.ne]

theorem read_write (hb : b < m.dicts.length) :
    (m.write b t).read a = if b = a then t else m.read a := by
  unfold read write
  dsimp only
  rw [List.getElem?_set]
  split_ifs with hba
  · rfl
  · rfl

theorem getElem?_rebind :
    (m.rebind i b).handles[j]? =
      if i = j then (m.handles[j]?).map fun h => { h with context := b } else m.handles[j]? := by
  unfold rebind
  dsimp only
  rw [List.getElem?_modify]
  split_ifs <;> simp

theorem mem_handles_rebind (hh : h ∈ (m.rebind i b).handles) :
    ∃ k ∈ m.handles, h.logger = k.logger ∧ (h.context = b ∨ h = k) := by
  obtain ⟨j, hj⟩ := List.mem_iff_getElem?.mp hh
  rw [getElem?_rebind] at hj
  split_ifs at hj
  · obtain ⟨k, hk, rfl⟩ := Option.map_eq_some_iff.mp hj
    exact ⟨k, List.mem_of_getElem? hk, rfl, Or.inl rfl⟩
  · exact ⟨h, List.mem_of_getElem? hj, rfl, Or.inr rfl⟩

theorem adapter?_of_getElem? (hi : m.handles[i]? = some h) : m.adapter? i = some (m.adapter h) := by
  rw [adapter?, hi, Option.map_some]

theorem adapter?_eq_none (hi : m.handles[i]? = none) : m.adapter? i = none := by
  rw [adapter?, hi, Option.map_none]

/-- An adapter stays as it is when its dictionary stays so. -/
theorem adapter?_congr (hhandles : m'.handles[i]? = m.handles[i]?)
    (hread : ∀ h, m.handles[i]? = some h → m'.read h.context = m.read h.context) :
    m'.adapter? i = m.adapter? i := by
  unfold adapter?
  rw [hhandles]
  cases hi : m.handles[i]? with
  | none => rfl
  | some h =>
      show some (m'.adapter h) = some (m.adapter h)
      rw [adapter, adapter, hread h hi]

/-- A scope that is left brings back what its copy holds. -/
theorem adapter?_leave_self (hi : m.handles[i]? = some h) :
    (m.leave i b).adapter? i = some ((Scope.mk (m.read b)).leave (m.adapter h)) := by
  unfold adapter? leave
  rw [getElem?_rebind, if_pos rfl, hi]
  rfl

theorem adapter?_leave_of_ne (hij : i ≠ j) : (m.leave i b).adapter? j = m.adapter? j := by
  apply adapter?_congr
  · rw [leave, getElem?_rebind, if_neg hij]
  · exact fun _ _ => rfl

end Memory

/-! ## States of a program -/

/-- Fields under names that are all different. -/
structure Fields where
  table : Table Value
  distinct : table.keys.Nodup

/-- The memory, the addresses of the dictionaries that the program holds, and, for every adapter,
the context with which it was made. The last are noted and never looked at. -/
structure State where
  memory : Memory
  held : List Nat
  initials : List (Table Value)

namespace State

/-- All contexts and held dictionaries are there, names are distinct, and all adapters belong to one
logger. -/
structure Valid (logger : String) (s : State) : Prop where
  context_lt : ∀ h ∈ s.memory.handles, h.context < s.memory.dicts.length
  held_lt : ∀ a ∈ s.held, a < s.memory.dicts.length
  distinct : ∀ a, (s.memory.read a).keys.Nodup
  logger_eq : ∀ h ∈ s.memory.handles, h.logger = logger
  length_initials : s.initials.length = s.memory.handles.length

/-- Dictionaries and adapters are added behind those that were there. -/
structure Extends (s s' : State) : Prop where
  dicts_le : s.memory.dicts.length ≤ s'.memory.dicts.length
  handles_le : s.memory.handles.length ≤ s'.memory.handles.length
  initials : s.initials <+: s'.initials

variable {logger : String} {s s' s'' : State} {h : Handle} {i j a b : Nat} {fields : Table Value}

theorem Extends.refl (s : State) : Extends s s := ⟨Nat.le_refl _, Nat.le_refl _, List.prefix_rfl⟩

theorem Extends.trans (h : Extends s s') (h' : Extends s' s'') : Extends s s'' :=
  ⟨h.dicts_le.trans h'.dicts_le, h.handles_le.trans h'.handles_le, h.initials.trans h'.initials⟩

theorem Extends.initial (h : Extends s s') {t : Table Value} (ht : s.initials[i]? = some t) :
    s'.initials[i]? = some t := by
  obtain ⟨rest, hrest⟩ := h.initials
  rw [← hrest, List.getElem?_append_left (List.getElem?_eq_some_iff.mp ht).1, ht]

/-! ### Making and taking dictionaries -/

/-- The program makes a dictionary and holds it. -/
def make (s : State) (fields : Fields) : State :=
  { s with memory := s.memory.make fields.table, held := s.held ++ [s.memory.dicts.length] }

/-- The program takes a dictionary that is there. -/
def take (s : State) (a : Nat) : State := { s with held := s.held ++ [a] }

theorem length_make (s : State) (fields : Fields) :
    (s.make fields).memory.dicts.length = s.memory.dicts.length + 1 := by
  simp [make, Memory.make]

theorem read_make_of_lt (ha : a < s.memory.dicts.length) (fields : Fields) :
    (s.make fields).memory.read a = s.memory.read a :=
  Memory.read_make_of_lt ha

theorem adapter?_make (hv : s.Valid logger) (fields : Fields) (i : Nat) :
    (s.make fields).memory.adapter? i = s.memory.adapter? i := by
  apply Memory.adapter?_congr
  · rfl
  · intro h hi
    exact read_make_of_lt (hv.context_lt h (List.mem_of_getElem? hi)) fields

theorem Valid.make (hv : s.Valid logger) (fields : Fields) : (s.make fields).Valid logger := by
  constructor
  case context_lt =>
      intro h hh
      rw [length_make]
      exact Nat.lt_succ_of_lt (hv.context_lt h hh)
  case held_lt =>
      intro a ha
      rw [length_make]
      rcases List.mem_append.mp ha with ha | ha
      · exact Nat.lt_succ_of_lt (hv.held_lt a ha)
      · obtain rfl := List.mem_singleton.mp ha
        exact Nat.lt_succ_self _
  case distinct =>
      intro a
      show ((s.memory.make fields.table).read a).keys.Nodup
      rw [Memory.read_make]
      split_ifs
      · exact fields.distinct
      · exact hv.distinct a
  case logger_eq => exact hv.logger_eq
  case length_initials => exact hv.length_initials

theorem extends_make (s : State) (fields : Fields) : s.Extends (s.make fields) := by
  refine ⟨?_, Nat.le_refl _, List.prefix_rfl⟩
  rw [length_make]
  exact Nat.le_succ _

theorem Valid.take (hv : s.Valid logger) (ha : a < s.memory.dicts.length) :
    (s.take a).Valid logger := by
  refine ⟨hv.context_lt, ?_, hv.distinct, hv.logger_eq, hv.length_initials⟩
  intro b hb
  rcases List.mem_append.mp hb with hb | hb
  · exact hv.held_lt b hb
  · obtain rfl := List.mem_singleton.mp hb
    exact ha

theorem extends_take (s : State) (a : Nat) : s.Extends (s.take a) :=
  ⟨Nat.le_refl _, Nat.le_refl _, List.prefix_rfl⟩

/-! ### Calls -/

/-- The state when a call has brought the fields of its adapter into a dictionary. -/
def fill (s : State) (h : Handle) (a : Nat) : State :=
  { s with memory := s.memory.write a ((s.memory.adapter h).process (s.memory.read a)) }

theorem read_fill (ha : a < s.memory.dicts.length) (b : Nat) :
    (s.fill h a).memory.read b =
      if a = b then (s.memory.adapter h).process (s.memory.read a) else s.memory.read b :=
  Memory.read_write ha

theorem length_fill (s : State) (h : Handle) (a : Nat) :
    (s.fill h a).memory.dicts.length = s.memory.dicts.length := by
  simp [fill, Memory.write]

theorem Valid.fill (hv : s.Valid logger) (ha : a < s.memory.dicts.length) :
    (s.fill h a).Valid logger := by
  constructor
  case context_lt =>
      rw [length_fill]
      exact hv.context_lt
  case held_lt =>
      rw [length_fill]
      exact hv.held_lt
  case distinct =>
      intro b
      rw [read_fill ha]
      split_ifs
      · exact Table.nodup_merge (hv.distinct a) _
      · exact hv.distinct b
  case logger_eq => exact hv.logger_eq
  case length_initials => exact hv.length_initials

theorem extends_fill (s : State) (h : Handle) (a : Nat) : s.Extends (s.fill h a) :=
  ⟨(length_fill s h a).ge, Nat.le_refl _, List.prefix_rfl⟩

/-- An adapter whose context a call was given has the fields of the calling adapter in it. -/
theorem adapter?_fill (ha : a < s.memory.dicts.length) {k : Handle}
    (hj : s.memory.handles[j]? = some k) :
    (s.fill h a).memory.adapter? j =
      some (if a = k.context
        then ⟨k.logger, (s.memory.adapter h).process (s.memory.read k.context)⟩
        else s.memory.adapter k) := by
  have hhandles : (s.fill h a).memory.handles[j]? = some k := hj
  rw [Memory.adapter?_of_getElem? hhandles, Memory.adapter, read_fill ha]
  split_ifs with hk
  · rw [hk]
  · rfl

/-! ### Deriving adapters -/

/-- A new adapter, derived from another one. -/
def derive (s : State) (h : Handle) (fields : Table Value) : State :=
  let made := (s.memory.adapter h).withContext fields
  { s with memory := s.memory.add made, initials := s.initials ++ [made.context] }

theorem length_derive (s : State) (h : Handle) (fields : Table Value) :
    (s.derive h fields).memory.dicts.length = s.memory.dicts.length + 1 := by
  simp [derive, Memory.add]

theorem read_derive (s : State) (h : Handle) (fields : Table Value) (a : Nat) :
    (s.derive h fields).memory.read a =
      if a = s.memory.dicts.length then (s.memory.adapter h).context.merge fields
      else s.memory.read a :=
  s.memory.read_make _ a

theorem read_derive_of_lt (ha : a < s.memory.dicts.length) :
    (s.derive h fields).memory.read a = s.memory.read a := by
  rw [read_derive, if_neg ha.ne]

theorem handles_derive (s : State) (h : Handle) (fields : Table Value) :
    (s.derive h fields).memory.handles =
      s.memory.handles ++ [⟨h.logger, s.memory.dicts.length⟩] := rfl

theorem Valid.derive (hv : s.Valid logger) (hh : h ∈ s.memory.handles) (fields : Table Value) :
    (s.derive h fields).Valid logger := by
  constructor
  case context_lt =>
      intro k hk
      rw [length_derive]
      rw [handles_derive] at hk
      rcases List.mem_append.mp hk with hk | hk
      · exact Nat.lt_succ_of_lt (hv.context_lt k hk)
      · obtain rfl := List.mem_singleton.mp hk
        exact Nat.lt_succ_self _
  case held_lt =>
      intro a ha
      rw [length_derive]
      exact Nat.lt_succ_of_lt (hv.held_lt a ha)
  case distinct =>
      intro a
      rw [read_derive]
      split_ifs
      · exact Table.nodup_merge (hv.distinct h.context) fields
      · exact hv.distinct a
  case logger_eq =>
      intro k hk
      rw [handles_derive] at hk
      rcases List.mem_append.mp hk with hk | hk
      · exact hv.logger_eq k hk
      · obtain rfl := List.mem_singleton.mp hk
        exact hv.logger_eq h hh
  case length_initials =>
      simp [State.derive, Memory.add, hv.length_initials]

theorem extends_derive (s : State) (h : Handle) (fields : Table Value) :
    s.Extends (s.derive h fields) := by
  refine ⟨?_, ?_, List.prefix_append _ _⟩
  · rw [length_derive]
    exact Nat.le_succ _
  · simp [handles_derive]

/-- The adapters that were there stay as they are. -/
theorem adapter?_derive (hv : s.Valid logger) (hj : j < s.memory.handles.length) :
    (s.derive h fields).memory.adapter? j = s.memory.adapter? j := by
  apply Memory.adapter?_congr
  · rw [handles_derive, List.getElem?_append_left hj]
  · intro k hk
    exact read_derive_of_lt (hv.context_lt k (List.mem_of_getElem? hk))

theorem adapter?_derive_self (s : State) (h : Handle) (fields : Table Value) :
    (s.derive h fields).memory.adapter? s.memory.handles.length =
      some ((s.memory.adapter h).withContext fields) := by
  have hself : (s.derive h fields).memory.handles[s.memory.handles.length]? =
      some ⟨h.logger, s.memory.dicts.length⟩ := by simp [handles_derive]
  rw [Memory.adapter?_of_getElem? hself, Memory.adapter, read_derive, if_pos rfl]
  rfl

/-- The context with which it was made is noted. -/
theorem initial_derive (hv : s.Valid logger) :
    (s.derive h fields).initials[s.memory.handles.length]? =
      some ((s.memory.adapter h).context.merge fields) := by
  rw [← hv.length_initials]
  exact List.getElem?_concat_length

/-! ### Scopes -/

/-- A scope is entered on an adapter. -/
def enter (s : State) (i : Nat) (h : Handle) (fields : Table Value) : State :=
  { s with memory := s.memory.enter i h fields }

/-- A scope is left, whose copy lies at an address. -/
def leave (s : State) (i a : Nat) : State := { s with memory := s.memory.leave i a }

theorem length_enter (s : State) (i : Nat) (h : Handle) (fields : Table Value) :
    (s.enter i h fields).memory.dicts.length = s.memory.dicts.length + 2 := by
  simp [enter, Memory.enter, Memory.rebind, Memory.make]

theorem lt_length_enter (s : State) (i : Nat) (h : Handle) (fields : Table Value) :
    s.memory.dicts.length < (s.enter i h fields).memory.dicts.length := by
  rw [length_enter]
  exact Nat.lt_add_of_pos_right (by decide)

theorem read_enter (s : State) (i : Nat) (h : Handle) (fields : Table Value) (a : Nat) :
    (s.enter i h fields).memory.read a =
      if a = s.memory.dicts.length + 1 then (s.memory.adapter h).context.merge fields
      else if a = s.memory.dicts.length then (s.memory.adapter h).context
      else s.memory.read a := by
  have hread : (s.enter i h fields).memory.read a =
      ((s.memory.make (s.memory.adapter h).context).make
        ((s.memory.adapter h).context.merge fields)).read a := rfl
  rw [hread, Memory.read_make, Memory.read_make]
  simp [Memory.make]

theorem read_enter_of_lt (ha : a < s.memory.dicts.length) :
    (s.enter i h fields).memory.read a = s.memory.read a := by
  rw [read_enter, if_neg (by omega), if_neg (by omega)]

/-- The context of the adapter is kept at the address that was free before. -/
theorem read_enter_copy (s : State) (i : Nat) (h : Handle) (fields : Table Value) :
    (s.enter i h fields).memory.read s.memory.dicts.length = (s.memory.adapter h).context := by
  rw [read_enter, if_neg (by omega), if_pos rfl]

theorem Valid.enter (hv : s.Valid logger) (fields : Table Value) :
    (s.enter i h fields).Valid logger := by
  constructor
  case context_lt =>
      intro k hk
      rw [length_enter]
      obtain ⟨k', hk', -, hcontext | rfl⟩ := Memory.mem_handles_rebind hk
      · omega
      · exact Nat.lt_add_right 2 (hv.context_lt k hk')
  case held_lt =>
      intro a ha
      rw [length_enter]
      exact Nat.lt_add_right 2 (hv.held_lt a ha)
  case distinct =>
      intro a
      rw [read_enter]
      split_ifs
      · exact Table.nodup_merge (hv.distinct h.context) fields
      · exact hv.distinct h.context
      · exact hv.distinct a
  case logger_eq =>
      intro k hk
      obtain ⟨k', hk', hlogger, -⟩ := Memory.mem_handles_rebind hk
      exact hlogger.trans (hv.logger_eq k' hk')
  case length_initials =>
      simp [State.enter, Memory.enter, Memory.rebind, Memory.make, hv.length_initials]

theorem extends_enter (s : State) (i : Nat) (h : Handle) (fields : Table Value) :
    s.Extends (s.enter i h fields) := by
  refine ⟨?_, ?_, List.prefix_rfl⟩
  · rw [length_enter]
    exact Nat.le_add_right _ 2
  · simp [enter, Memory.enter, Memory.rebind, Memory.make]

theorem adapter?_enter_self (hi : s.memory.handles[i]? = some h) (fields : Table Value) :
    (s.enter i h fields).memory.adapter? i =
      some ((s.memory.adapter h).withContext fields) := by
  have hi' : (s.enter i h fields).memory.handles[i]? =
      some { h with context := s.memory.dicts.length + 1 } := by
    refine Memory.getElem?_rebind.trans ?_
    rw [if_pos rfl]
    show (s.memory.handles[i]?).map _ = _
    rw [hi]
    rfl
  rw [Memory.adapter?_of_getElem? hi', Memory.adapter, read_enter, if_pos rfl]
  rfl

theorem adapter?_enter_of_ne (hv : s.Valid logger) (hij : i ≠ j) :
    (s.enter i h fields).memory.adapter? j = s.memory.adapter? j := by
  apply Memory.adapter?_congr
  · exact Memory.getElem?_rebind.trans (if_neg hij)
  · intro k hk
    exact read_enter_of_lt (hv.context_lt k (List.mem_of_getElem? hk))

theorem Valid.leave (hv : s.Valid logger) (ha : a < s.memory.dicts.length) :
    (s.leave i a).Valid logger := by
  constructor
  case context_lt =>
      intro k hk
      obtain ⟨k', hk', -, hcontext | rfl⟩ := Memory.mem_handles_rebind hk
      · exact hcontext ▸ ha
      · exact hv.context_lt k hk'
  case held_lt => exact hv.held_lt
  case distinct => exact hv.distinct
  case logger_eq =>
      intro k hk
      obtain ⟨k', hk', hlogger, -⟩ := Memory.mem_handles_rebind hk
      exact hlogger.trans (hv.logger_eq k' hk')
  case length_initials =>
      simp [State.leave, Memory.leave, Memory.rebind, hv.length_initials]

theorem extends_leave (s : State) (i a : Nat) : s.Extends (s.leave i a) := by
  refine ⟨Nat.le_refl _, ?_, List.prefix_rfl⟩
  simp [leave, Memory.leave, Memory.rebind]

/-- When a scope is left, its adapter has the context that the copy holds. -/
theorem adapter?_leave_self (hv : s.Valid logger) (hi : i < s.memory.handles.length) (a : Nat) :
    (s.leave i a).memory.adapter? i = some ⟨logger, s.memory.read a⟩ := by
  refine (Memory.adapter?_leave_self (List.getElem?_eq_getElem hi)).trans ?_
  rw [Scope.leave, Memory.adapter, hv.logger_eq _ (List.getElem_mem hi)]

theorem adapter?_leave_of_ne (hij : i ≠ j) :
    (s.leave i a).memory.adapter? j = s.memory.adapter? j :=
  Memory.adapter?_leave_of_ne hij

end State

end GuardClause.Log
