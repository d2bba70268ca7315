import GuardClause.Proofs.Layout.Follow

/-!
# Parents and ancestors

In a well-linked arena the links between parents and children are mutual, so that the nodes above a
node can be reached one parent at a time. The root is above every node, and no node is above itself.
-/

namespace GuardClause.Arena

/-- Node `m` is node `n` or one of its ancestors. -/
def Dominates (a : Arena) (m n : Node) : Prop := a.Descends m.index n.index

/-- Node `m` is an ancestor of node `n`, and not the node itself. -/
def IsAbove (a : Arena) (m n : Node) : Prop := Relation.TransGen a.Begets m.index n.index

variable {a : Arena} {m n p q : Node} {ms : List Node}

theorem Dominates.refl (a : Arena) (n : Node) : a.Dominates n n := Relation.ReflTransGen.refl

theorem Dominates.trans (h : a.Dominates m n) (h' : a.Dominates n p) : a.Dominates m p :=
  Relation.ReflTransGen.trans h h'

namespace WellLinked

theorem eq_of_index_eq (hw : a.WellLinked) (hm : m ∈ a.nodes) (hn : n ∈ a.nodes)
    (h : m.index = n.index) : m = n := by
  have hget := hw.getElem?_index hm
  rw [h, hw.getElem?_index hn] at hget
  exact (Option.some.inj hget).symm

theorem begets_iff (hw : a.WellLinked) (hn : n ∈ a.nodes) (j : Nat) :
    a.Begets j n.index ↔ n.parent = some (j : Int) := by
  constructor
  · rintro ⟨k, hk, hparent⟩
    rw [hw.getElem?_index hn] at hk
    obtain rfl := Option.some.inj hk
    exact hparent
  · intro hparent
    exact ⟨n, hw.getElem?_index hn, hparent⟩

/-- A node is the root, or its parent is an earlier node. -/
theorem parent_cases (hw : a.WellLinked) (hn : n ∈ a.nodes) :
    n.parent = none ∧ n.index = 0 ∨
      ∃ p ∈ a.nodes, n.parent = some (p.index : Int) ∧ a.fetch p.index = .ok p ∧
        p.index < n.index := by
  have hget := hw.getElem?_index hn
  cases hparent : n.parent with
  | none => exact Or.inl ⟨rfl, (hw.parent_eq_none_iff hget).mp hparent⟩
  | some link =>
      obtain ⟨j, rfl, hlt⟩ := hw.parent_lt hget hparent
      have hj : j < a.nodes.size := Nat.lt_trans hlt (Array.getElem?_eq_some_iff.mp hget).1
      have hgetj : a.nodes[j]? = some a.nodes[j] := Array.getElem?_eq_getElem hj
      have hindex : a.nodes[j].index = j := hw.index_eq hgetj
      refine Or.inr ⟨a.nodes[j], Array.getElem_mem hj, ?_, ?_, ?_⟩
      · rw [hindex]
      · rw [hindex]
        exact fetch_natCast hgetj
      · rwa [hindex]

/-- The children of a node are the nodes whose parent it is. -/
theorem mem_childrenOf_iff (hw : a.WellLinked) (hn : n ∈ a.nodes) (h : a.childrenOf n = .ok ms) :
    m ∈ ms ↔ m ∈ a.nodes ∧ m.parent = some (n.index : Int) := by
  have hget := hw.getElem?_index hn
  constructor
  · intro hm
    obtain ⟨link, hlink, hfetch⟩ := exists_of_mapM_eq_ok h hm
    obtain ⟨k, hk, hfetchk, -⟩ := hw.fetch_child hn hlink
    obtain rfl := Except.ok.inj (hfetchk.symm.trans hfetch)
    -- The link is the node's index, and links are mutual.
    obtain rfl := hw.eq_index_of_fetch hn hlink hfetch
    exact ⟨hk, (hw.mem_children_iff hget (hw.getElem?_index hk)).mp hlink⟩
  · rintro ⟨hm, hparent⟩
    have hgetm := hw.getElem?_index hm
    exact mem_of_mapM_eq_ok h ((hw.mem_children_iff hget hgetm).mpr hparent) (fetch_natCast hgetm)

theorem dominates_of_parent (hw : a.WellLinked) (hn : n ∈ a.nodes)
    (h : n.parent = some (p.index : Int)) : a.Dominates p n :=
  Relation.ReflTransGen.single ((hw.begets_iff hn p.index).mpr h)

/-- What is above a node is the node or above its parent. -/
theorem dominates_cases (hw : a.WellLinked) (hm : m ∈ a.nodes) (hn : n ∈ a.nodes)
    (h : a.Dominates m n) :
    m = n ∨ ∃ p ∈ a.nodes, n.parent = some (p.index : Int) ∧ a.Dominates m p := by
  rcases Relation.ReflTransGen.cases_tail h with heq | ⟨j, hmj, hj⟩
  · exact Or.inl (hw.eq_of_index_eq hm hn heq.symm)
  · have hparent := (hw.begets_iff hn j).mp hj
    rcases hw.parent_cases hn with ⟨hnone, -⟩ | ⟨p, hp, hsome, -, -⟩
    · cases hnone.symm.trans hparent
    · have hindex : p.index = j := by
        rw [hsome] at hparent
        exact Int.ofNat.inj (Option.some.inj hparent)
      refine Or.inr ⟨p, hp, hsome, ?_⟩
      rw [Dominates, hindex]
      exact hmj

/-- What is below a node is the node or below one of its children. -/
theorem dominates_cases_head (hw : a.WellLinked) (hm : m ∈ a.nodes) (hn : n ∈ a.nodes)
    (h : a.Dominates m n) :
    m = n ∨ ∃ c ∈ a.nodes, c.parent = some (m.index : Int) ∧ a.Dominates c n := by
  rcases Relation.ReflTransGen.cases_head h with heq | ⟨j, hj, hjn⟩
  · exact Or.inl (hw.eq_of_index_eq hm hn heq)
  · obtain ⟨c, hc, hparent⟩ := hj
    have hcm := Array.mem_of_getElem? hc
    refine Or.inr ⟨c, hcm, hparent, ?_⟩
    rw [Dominates, hw.index_eq hc]
    exact hjn

/-- The root is above every node. -/
theorem dominates_root (hw : a.WellLinked) (hm : m ∈ a.nodes) (hroot : m.parent = none)
    (hn : n ∈ a.nodes) : a.Dominates m n := by
  have hzero := (hw.parent_eq_none_iff (hw.getElem?_index hm)).mp hroot
  -- One parent after another, down to index zero.
  induction hd : n.index using Nat.strong_induction_on generalizing n with
  | _ d ih =>
      rcases hw.parent_cases hn with ⟨-, hindex⟩ | ⟨p, hp, hparent, -, hlt⟩
      · rw [hw.eq_of_index_eq hm hn (hzero.trans hindex.symm)]
        exact Dominates.refl a n
      · exact (ih p.index (by omega) hp rfl).trans (hw.dominates_of_parent hn hparent)

theorem isAbove_of_dominates (hw : a.WellLinked) (hm : m ∈ a.nodes) (hn : n ∈ a.nodes)
    (h : a.Dominates m n) (hne : m ≠ n) : a.IsAbove m n := by
  rcases Relation.reflTransGen_iff_eq_or_transGen.mp h with heq | habove
  · exact absurd (hw.eq_of_index_eq hm hn heq.symm) hne
  · exact habove

theorem begets_lt (hw : a.WellLinked) {j k : Nat} (h : a.Begets j k) : j < k := by
  obtain ⟨n, hn, hparent⟩ := h
  obtain ⟨i, hi, hlt⟩ := hw.parent_lt hn hparent
  rwa [Int.ofNat.inj hi]

theorem index_lt_of_isAbove (hw : a.WellLinked) (h : a.IsAbove m n) : m.index < n.index := by
  have hlt : ∀ {j k : Nat}, Relation.TransGen a.Begets j k → j < k := by
    intro j k hjk
    induction hjk with
    | single hj => exact hw.begets_lt hj
    | tail _ hj ih => exact Nat.lt_trans ih (hw.begets_lt hj)
  exact hlt h

theorem index_le_of_dominates (hw : a.WellLinked) (h : a.Dominates m n) : m.index ≤ n.index := by
  rcases Relation.reflTransGen_iff_eq_or_transGen.mp h with heq | habove
  · exact Nat.le_of_eq heq.symm
  · exact Nat.le_of_lt (hw.index_lt_of_isAbove habove)

/-! ## Siblings -/

/-- No node dominates a later sibling. -/
theorem not_dominates_sibling (hw : a.WellLinked) (hm : m ∈ a.nodes) (hn : n ∈ a.nodes)
    (hmp : m.parent = some (p.index : Int)) (hnp : n.parent = some (p.index : Int))
    (hlt : m.index < n.index) : ¬ a.Dominates m n := by
  intro h
  rcases hw.dominates_cases hm hn h with rfl | ⟨q, -, hq, hmq⟩
  · exact Nat.lt_irrefl _ hlt
  · have hindex : q.index = p.index := Int.ofNat.inj (Option.some.inj (hq.symm.trans hnp))
    have hle := hw.index_le_of_dominates hmq
    have hpm := hw.begets_lt ((hw.begets_iff hm p.index).mpr hmp)
    omega

/-- What is below a node comes before all that is below a later sibling. -/
theorem index_lt_of_siblings (hw : a.WellLinked) (hm : m ∈ a.nodes) (hn : n ∈ a.nodes)
    (hmp : m.parent = some (p.index : Int)) (hnp : n.parent = some (p.index : Int))
    (hlt : m.index < n.index) {x y : Node} (hx : a.Dominates m x) (hy : a.Dominates n y) :
    x.index < y.index := by
  obtain ⟨stop, -, -, hstretch⟩ := hw.descends_iff (hw.getElem?_index hm)
  have hxstop := ((hstretch x.index).mp hx).2
  -- The stretch of the first sibling ends before the second one.
  have hstop : stop ≤ n.index := by
    by_contra hno
    have hinside := (hstretch n.index).mpr ⟨Nat.le_of_lt hlt, by omega⟩
    exact hw.not_dominates_sibling hm hn hmp hnp hlt hinside
  have hle := hw.index_le_of_dominates hy
  omega

end WellLinked

end GuardClause.Arena
