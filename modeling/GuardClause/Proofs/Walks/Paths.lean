import GuardClause.Proofs.Cursor.Innermost
import GuardClause.Proofs.Meaning.Ternary

/-!
# Loops through an arena

A loop goes from a node to the next one until there is none. `Walk` says which nodes it meets and
where it stops, for a loop that counts nothing: whether it stops at all depends on where its steps
lead. Steps that always lead to later nodes of the arena, or always to earlier ones, come to an end
before they run out of nodes (`WellLinked.exists_rising`, `WellLinked.exists_falling`). The steps
down to children, into operands and up to parents are of these kinds in a well-linked arena.

The searches themselves count their steps and give up when there were too many. They find what the
walk without a count finds, provided that they are allowed as many steps as the walk has nodes.
-/

namespace GuardClause

/-- From a node a loop meets the nodes of a path and stops at the last of them. -/
inductive Walk (next : Node → Except Fault (Option Node)) : Node → List Node → Node → Prop where
  | stop {n : Node} (h : next n = .ok none) : Walk next n [n] n
  | step {n m last : Node} {path : List Node} (h : next n = .ok (some m))
      (rest : Walk next m path last) : Walk next n (n :: path) last

namespace Walk

variable {next : Node → Except Fault (Option Node)} {n last : Node} {path : List Node}

theorem path_ne_nil (h : Walk next n path last) : path ≠ [] := by
  cases h <;> simp

theorem next_last (h : Walk next n path last) : next last = .ok none := by
  induction h with
  | stop h => exact h
  | step _ _ ih => exact ih

/-- A loop that comes back to the node it is at goes on forever. -/
theorem not_of_self (hself : next n = .ok (some n)) : ¬ Walk next n path last := by
  intro h
  generalize hm : n = m at h
  induction h with
  | stop hstop =>
      subst hm
      cases hself.symm.trans hstop
  | step hstep _ ih =>
      subst hm
      exact ih (Option.some.inj (Except.ok.inj (hself.symm.trans hstep)))

end Walk

/-- A loop ends when each of its steps leads to a node of smaller rank. -/
theorem exists_walk {a : Arena} {next : Node → Except Fault (Option Node)} (rank : Node → Nat)
    (hnext : ∀ n ∈ a.nodes, next n = .ok none ∨
      ∃ m ∈ a.nodes, next n = .ok (some m) ∧ rank m < rank n) {n : Node} (hn : n ∈ a.nodes) :
    ∃ path last, Walk next n path last ∧ (∀ m ∈ path, m ∈ a.nodes ∧ rank m ≤ rank n) ∧
      path.Pairwise fun m k => rank k < rank m := by
  induction hd : rank n using Nat.strong_induction_on generalizing n with
  | _ d ih =>
      subst hd
      rcases hnext n hn with hstop | ⟨m, hm, hstep, hlt⟩
      · refine ⟨[n], n, .stop hstop, ?_, List.pairwise_singleton _ n⟩
        intro k hk
        obtain rfl := List.mem_singleton.mp hk
        exact ⟨hn, Nat.le_refl _⟩
      · obtain ⟨path, last, hwalk, hpath, hpairs⟩ := ih (rank m) hlt hm rfl
        refine ⟨n :: path, last, .step hstep hwalk, ?_, List.pairwise_cons.mpr ⟨?_, hpairs⟩⟩
        · intro k hk
          rcases List.mem_cons.mp hk with rfl | hk
          · exact ⟨hn, Nat.le_refl _⟩
          · obtain ⟨hmem, hle⟩ := hpath k hk
            exact ⟨hmem, by omega⟩
        · intro k hk
          have hle := (hpath k hk).2
          omega

namespace Arena

/-- A loop stays in the arena, goes in one direction, and ends within as many rounds as the arena
has nodes. -/
structure Ends (a : Arena) (next : Node → Except Fault (Option Node)) (before : Nat → Nat → Prop)
    (n : Node) (path : List Node) (last : Node) : Prop where
  walk : Walk next n path last
  inside : ∀ m ∈ path, m ∈ a.nodes
  ordered : path.Pairwise fun m k => before m.index k.index
  length_le : path.length ≤ a.bound

variable {a : Arena} {next : Node → Except Fault (Option Node)} {n : Node} {path : List Node}

/-- Different nodes are at most as many as the arena has. -/
theorem WellLinked.length_le_bound (hw : a.WellLinked) (hpath : ∀ m ∈ path, m ∈ a.nodes)
    (hne : path.Pairwise fun m k => m.index ≠ k.index) : path.length ≤ a.bound := by
  have hnodup : (path.map Node.index).Nodup := List.pairwise_map.mpr hne
  have hsubset : path.map Node.index ⊆ List.range a.bound := by
    intro i hi
    obtain ⟨m, hm, rfl⟩ := List.mem_map.mp hi
    exact List.mem_range.mpr (hw.index_lt_bound (hpath m hm))
  simpa using (List.subperm_of_subset hnodup hsubset).length_le

/-- Steps to later nodes come to an end. -/
theorem WellLinked.exists_rising (hw : a.WellLinked)
    (hnext : ∀ n ∈ a.nodes, next n = .ok none ∨
      ∃ m ∈ a.nodes, next n = .ok (some m) ∧ n.index < m.index) (hn : n ∈ a.nodes) :
    ∃ path last, a.Ends next (· < ·) n path last := by
  -- What counts down is how much of the arena lies behind a node.
  have hrank : ∀ n ∈ a.nodes, next n = .ok none ∨
      ∃ m ∈ a.nodes, next n = .ok (some m) ∧ a.bound - m.index < a.bound - n.index := by
    intro n hn
    rcases hnext n hn with hstop | ⟨m, hm, hstep, hlt⟩
    · exact Or.inl hstop
    · have hbound := hw.index_lt_bound hm
      exact Or.inr ⟨m, hm, hstep, by omega⟩
  obtain ⟨path, last, hwalk, hpath, hpairs⟩ := exists_walk (fun m => a.bound - m.index) hrank hn
  have hordered : path.Pairwise fun m k => m.index < k.index :=
    hpairs.imp fun hlt => by omega
  have hinside : ∀ m ∈ path, m ∈ a.nodes := fun m hm => (hpath m hm).1
  exact ⟨path, last, hwalk, hinside, hordered,
    hw.length_le_bound hinside (hordered.imp Nat.ne_of_lt)⟩

/-- Steps to earlier nodes come to an end. -/
theorem WellLinked.exists_falling (hw : a.WellLinked)
    (hnext : ∀ n ∈ a.nodes, next n = .ok none ∨
      ∃ m ∈ a.nodes, next n = .ok (some m) ∧ m.index < n.index) (hn : n ∈ a.nodes) :
    ∃ path last, a.Ends next (· > ·) n path last := by
  obtain ⟨path, last, hwalk, hpath, hpairs⟩ := exists_walk Node.index hnext hn
  have hinside : ∀ m ∈ path, m ∈ a.nodes := fun m hm => (hpath m hm).1
  exact ⟨path, last, hwalk, hinside, hpairs,
    hw.length_le_bound hinside (hpairs.imp Nat.ne_of_gt)⟩

/-! ## The steps -/

/-- The first child that covers an offset. -/
def into (a : Arena) (o : Int) (n : Node) : Except Fault (Option Node) := do
  let children ← a.childrenOf n
  pure (children.find? (·.covers o))

/-- The operand of a node of some kind. -/
def under (a : Arena) (kind : Kind) (n : Node) : Except Fault (Option Node) :=
  if n.kind = kind then a.inRole n .operand else .ok none

variable {m last : Node} {kind : Kind} {o : Int}

theorem into_eq_ok {found : Option Node} :
    a.into o n = .ok found ↔ ∃ ms, a.childrenOf n = .ok ms ∧ ms.find? (·.covers o) = found := by
  unfold into
  rw [bind_eq_ok]
  refine exists_congr fun ms => and_congr_right fun _ => ?_
  exact ⟨Except.ok.inj, congrArg Except.ok⟩

theorem under_eq_some_iff : a.under kind n = .ok (some m) ↔ a.Operand kind n m := by
  unfold under Operand
  by_cases hkind : n.kind = kind <;> simp [hkind]

theorem under_eq_none_iff :
    a.under kind n = .ok none ↔ (n.kind = kind → a.inRole n .operand = .ok none) := by
  unfold under
  by_cases hkind : n.kind = kind <;> simp [hkind]

theorem parentOf_eq_none_iff : a.parentOf n = .ok none ↔ n.parent = none := by
  unfold parentOf
  cases n.parent with
  | none => simp
  | some link => cases hfetch : a.fetch link <;> simp [hfetch]

theorem parentOf_eq_some_iff :
    a.parentOf n = .ok (some m) ↔ ∃ link, n.parent = some link ∧ a.fetch link = .ok m := by
  unfold parentOf
  cases n.parent with
  | none => simp
  | some link => cases hfetch : a.fetch link <;> simp [hfetch]

namespace WellLinked

theorem into_cases (hw : a.WellLinked) (o : Int) (n : Node) (hn : n ∈ a.nodes) :
    a.into o n = .ok none ∨ ∃ m ∈ a.nodes, a.into o n = .ok (some m) ∧ n.index < m.index := by
  obtain ⟨ms, hms, hlater⟩ := hw.exists_childrenOf hn
  cases hfind : ms.find? (·.covers o) with
  | none => exact Or.inl (into_eq_ok.mpr ⟨ms, hms, hfind⟩)
  | some m =>
      obtain ⟨hm, hlt⟩ := hlater m (List.mem_of_find?_eq_some hfind)
      exact Or.inr ⟨m, hm, into_eq_ok.mpr ⟨ms, hms, hfind⟩, hlt⟩

theorem under_cases (hw : a.WellLinked) (kind : Kind) (n : Node) (hn : n ∈ a.nodes) :
    a.under kind n = .ok none ∨
      ∃ m ∈ a.nodes, a.under kind n = .ok (some m) ∧ n.index < m.index := by
  rcases hw.operand_cases hn kind with ⟨m, hm, hop, hlt⟩ | hnone
  · exact Or.inr ⟨m, hm, under_eq_some_iff.mpr hop, hlt⟩
  · exact Or.inl (under_eq_none_iff.mpr hnone)

theorem parentOf_cases (hw : a.WellLinked) (n : Node) (hn : n ∈ a.nodes) :
    a.parentOf n = .ok none ∨
      ∃ m ∈ a.nodes, a.parentOf n = .ok (some m) ∧ m.index < n.index := by
  rcases hw.parent_cases hn with ⟨hnone, -⟩ | ⟨p, hp, hparent, hfetch, hlt⟩
  · exact Or.inl (parentOf_eq_none_iff.mpr hnone)
  · exact Or.inr ⟨p, hp, parentOf_eq_some_iff.mpr ⟨_, hparent, hfetch⟩, hlt⟩

end WellLinked

/-! ## Searches that count -/

theorem descend_of_walk (h : Walk (a.into o) n path last) {fuel : Nat}
    (hfuel : path.length ≤ fuel) : a.descend o fuel n = .ok last := by
  induction h generalizing fuel with
  | stop hstop =>
      obtain ⟨fuel, rfl⟩ := Nat.exists_eq_add_of_le' hfuel
      obtain ⟨ms, hms, hfind⟩ := into_eq_ok.mp hstop
      exact descend_here hms hfind
  | step hstep _ ih =>
      obtain ⟨fuel, rfl⟩ := Nat.exists_eq_add_of_le' (Nat.le_trans (by simp) hfuel : 1 ≤ fuel)
      obtain ⟨ms, hms, hfind⟩ := into_eq_ok.mp hstep
      exact descend_child hms hfind (ih (Nat.le_of_succ_le_succ hfuel))

theorem unwrapFuel_of_walk (h : Walk (a.under .parenthesized) n path last) {fuel : Nat}
    (hfuel : path.length ≤ fuel) : a.unwrapFuel fuel n = .ok last := by
  induction h generalizing fuel with
  | stop hstop =>
      obtain ⟨fuel, rfl⟩ := Nat.exists_eq_add_of_le' hfuel
      exact unwrapFuel_self (under_eq_none_iff.mp hstop) fuel
  | step hstep _ ih =>
      obtain ⟨fuel, rfl⟩ := Nat.exists_eq_add_of_le' (Nat.le_trans (by simp) hfuel : 1 ≤ fuel)
      rw [unwrapFuel_operand (under_eq_some_iff.mp hstep)]
      exact ih (Nat.le_of_succ_le_succ hfuel)

/-- Every step of the walk is a negation, up to the node where it stops. -/
theorem negated_of_walk (h : Walk (a.under .negation) n path last) :
    a.Negated n (path.length - 1) (a.fragmentOf last) := by
  induction h with
  | stop hstop => exact .fragment (under_eq_none_iff.mp hstop)
  | @step n m last path hstep hrest ih =>
      have hlen : path.length = path.length - 1 + 1 := by
        have := List.length_pos_of_ne_nil hrest.path_ne_nil
        omega
      rw [List.length_cons, Nat.add_sub_cancel, hlen]
      exact .operand (under_eq_some_iff.mp hstep) ih

theorem expressionFuel_of_walk (h : Walk (a.under .negation) n path last) {fuel : Nat}
    (hfuel : path.length ≤ fuel) :
    a.expressionFuel fuel n = .ok (Expr.negations (path.length - 1) (a.fragmentOf last)) := by
  have := List.length_pos_of_ne_nil h.path_ne_nil
  exact expressionFuel_of_negated (negated_of_walk h) (by omega)

/-- The search upwards tests the nodes of the walk one after another, but for the last one. -/
theorem climb_of_walk (h : Walk a.parentOf n path last) (p : Node → Bool) {fuel : Nat}
    (hfuel : path.length ≤ fuel) : a.climb p fuel n = .ok (path.dropLast.find? p) := by
  induction h generalizing fuel with
  | stop hstop =>
      obtain ⟨fuel, rfl⟩ := Nat.exists_eq_add_of_le' hfuel
      exact climb_root (parentOf_eq_none_iff.mp hstop)
  | @step n m last path hstep hrest ih =>
      obtain ⟨fuel, rfl⟩ := Nat.exists_eq_add_of_le' (Nat.le_trans (by simp) hfuel : 1 ≤ fuel)
      obtain ⟨link, hlink, hfetch⟩ := parentOf_eq_some_iff.mp hstep
      rw [List.dropLast_cons_of_ne_nil hrest.path_ne_nil, List.find?_cons]
      cases hp : p n with
      | true => exact climb_here hlink hp
      | false =>
          rw [climb_parent hlink hp hfetch]
          exact ih (Nat.le_of_succ_le_succ hfuel)

end Arena

end GuardClause
