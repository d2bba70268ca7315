import GuardClause.Proofs.Cursor.Innermost

/-!
# The nearest node with a property

In a parsed arena the descent from the root always ends at a node, and so does the climb from
there, whether or not the stretches of the nodes are nested. What the climb finds is told by the
links alone: the nearest node with a property among a node and those above it, the root left out
(`WellLinked.around_cases`).
-/

namespace GuardClause.Arena

/-- Node `m` is the nearest node with a property among node `n` and those above it, the root left
out: all others that have the property are above `m`. -/
structure Nearest (a : Arena) (p : Node → Bool) (n m : Node) : Prop where
  mem : m ∈ a.nodes
  not_root : m.parent ≠ none
  holds : p m = true
  dominates : a.Dominates m n
  above : ∀ k ∈ a.nodes, k.parent ≠ none → p k = true → a.Dominates k n → a.Dominates k m

variable {a : Arena} {n m k v : Node} {o : Int} {p : Node → Bool} {fuel : Nat}

theorem Dominates.antisymm (hw : a.WellLinked) (hm : m ∈ a.nodes) (hn : n ∈ a.nodes)
    (h : a.Dominates m n) (h' : a.Dominates n m) : m = n := by
  by_contra hne
  have hlt := hw.index_lt_of_isAbove (hw.isAbove_of_dominates hm hn h hne)
  have hgt := hw.index_lt_of_isAbove (hw.isAbove_of_dominates hn hm h' (Ne.symm hne))
  omega

/-- There is at most one nearest node. -/
theorem Nearest.unique (hw : a.WellLinked) (h : a.Nearest p n m) (h' : a.Nearest p n k) : m = k :=
  Dominates.antisymm hw h.mem h'.mem (h'.above m h.mem h.not_root h.holds h.dominates)
    (h.above k h'.mem h'.not_root h'.holds h'.dominates)

namespace WellLinked

/-- The descent takes a later node at every step, so that it ends. -/
theorem exists_descend (hw : a.WellLinked) (hv : v ∈ a.nodes) (o : Int)
    (hfuel : a.bound - v.index ≤ fuel) : ∃ n ∈ a.nodes, a.descend o fuel v = .ok n := by
  induction fuel generalizing v with
  | zero =>
      have := hw.index_lt_bound hv
      omega
  | succ fuel ih =>
      obtain ⟨ms, hms, hlater⟩ := hw.exists_childrenOf hv
      cases hfind : ms.find? (·.covers o) with
      | none => exact ⟨v, hv, descend_here hms hfind⟩
      | some c =>
          obtain ⟨hc, hlt⟩ := hlater c (List.mem_of_find?_eq_some hfind)
          have hbound := hw.index_lt_bound hc
          obtain ⟨n, hn, hdescend⟩ := ih hc (by omega)
          exact ⟨n, hn, descend_child hms hfind hdescend⟩

theorem exists_resolve (hw : a.WellLinked) (o : Int) : ∃ n ∈ a.nodes, a.resolve o = .ok n := by
  obtain ⟨r, hr, hfetch, -⟩ := hw.exists_root
  obtain ⟨n, hn, hdescend⟩ := hw.exists_descend hr o (Nat.sub_le _ _)
  exact ⟨n, hn, bind_eq_ok.mpr ⟨r, hfetch, hdescend⟩⟩

/-- The search around a place finds the nearest node with a property, seen from the node to which
the place is resolved, unless there is none. -/
theorem around_cases (hw : a.WellLinked) (p : Node → Bool) (hn : n ∈ a.nodes)
    (h : a.resolve o = .ok n) :
    (∃ m, a.around p o = .ok (some m) ∧ a.Nearest p n m) ∨
      (a.around p o = .ok none ∧ ∀ m, ¬ a.Nearest p n m) := by
  have hbound := hw.index_lt_bound hn
  rcases hw.climb_cases p hn (Nat.lt_succ_of_lt hbound) with
    ⟨m, hm, hclimb, hmroot, hpm, hmn, hnear⟩ | ⟨hclimb, hnone⟩
  · exact Or.inl ⟨m, bind_eq_ok.mpr ⟨n, h, hclimb⟩, hm, hmroot, hpm, hmn, hnear⟩
  · refine Or.inr ⟨bind_eq_ok.mpr ⟨n, h, hclimb⟩, ?_⟩
    intro m hm
    exact hnone m hm.mem hm.not_root hm.holds hm.dominates

end WellLinked

end GuardClause.Arena
