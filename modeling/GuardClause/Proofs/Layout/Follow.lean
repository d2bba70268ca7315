import GuardClause.Proofs.Layout.Links
import GuardClause.Syntax.Walk

/-!
# Following links

In a well-linked arena a link from a node never leads nowhere, and the links to children and to
roles lead to later nodes. Recursions that follow such links therefore end, and `index` is what
they count down.
-/

namespace GuardClause.Arena

variable {a : Arena} {n m m' : Node} {link : Int} {role : Role}

theorem inRole_unique (h : a.inRole n role = .ok (some m)) (h' : a.inRole n role = .ok (some m')) :
    m = m' :=
  Option.some.inj (Except.ok.inj (h.symm.trans h'))

namespace WellLinked

theorem getElem?_index (hw : a.WellLinked) (hn : n ∈ a.nodes) : a.nodes[n.index]? = some n := by
  obtain ⟨k, hk⟩ := Array.mem_iff_getElem?.mp hn
  rwa [hw.index_eq hk]

theorem index_lt_bound (hw : a.WellLinked) (hn : n ∈ a.nodes) : n.index < a.bound :=
  (Array.getElem?_eq_some_iff.mp (hw.getElem?_index hn)).1

theorem fetch_child (hw : a.WellLinked) (hn : n ∈ a.nodes) (hlink : link ∈ n.children) :
    ∃ m ∈ a.nodes, a.fetch link = .ok m ∧ n.index < m.index := by
  obtain ⟨c, rfl, hlt, hc⟩ := hw.child_lt (hw.getElem?_index hn) hlink
  have hget : a.nodes[c]? = some a.nodes[c] := Array.getElem?_eq_getElem hc
  exact ⟨a.nodes[c], Array.getElem_mem hc, fetch_natCast hget, by rwa [hw.index_eq hget]⟩

/-- A link to a child is the index of the child. -/
theorem eq_index_of_fetch (hw : a.WellLinked) (hn : n ∈ a.nodes) (hlink : link ∈ n.children)
    (h : a.fetch link = .ok m) : link = m.index := by
  obtain ⟨c, rfl, -, hc⟩ := hw.child_lt (hw.getElem?_index hn) hlink
  have hget : a.nodes[c]? = some a.nodes[c] := Array.getElem?_eq_getElem hc
  obtain rfl := Except.ok.inj ((fetch_natCast hget).symm.trans h)
  rw [hw.index_eq hget]

/-- The children of a node are later nodes. -/
theorem exists_childrenOf (hw : a.WellLinked) (hn : n ∈ a.nodes) :
    ∃ ms, a.childrenOf n = .ok ms ∧ ∀ m ∈ ms, m ∈ a.nodes ∧ n.index < m.index := by
  have hfetch : ∀ link ∈ n.children, ∃ m, a.fetch link = .ok m := by
    intro link hlink
    obtain ⟨m, -, hm, -⟩ := hw.fetch_child hn hlink
    exact ⟨m, hm⟩
  obtain ⟨ms, hms⟩ := exists_mapM_eq_ok hfetch
  refine ⟨ms, hms, ?_⟩
  intro m hm
  obtain ⟨link, hlink, hlm⟩ := exists_of_mapM_eq_ok hms hm
  obtain ⟨k, hk, hlk, hlt⟩ := hw.fetch_child hn hlink
  obtain rfl := Except.ok.inj (hlk.symm.trans hlm)
  exact ⟨hk, hlt⟩

/-- A role is empty or played by a later node. -/
theorem inRole_cases (hw : a.WellLinked) (hn : n ∈ a.nodes) (role : Role) :
    a.inRole n role = .ok none ∨
      ∃ m ∈ a.nodes, a.inRole n role = .ok (some m) ∧ n.index < m.index := by
  unfold inRole named
  cases hrole : n.roles.get? role.name with
  | none => exact Or.inl rfl
  | some link =>
      -- Roles are played by children, and links to children lead to nodes.
      have hchild := hw.mem_children_of_mem_roles (hw.getElem?_index hn) (Table.mem_of_get? hrole)
      obtain ⟨m, hm, hfetch, hlt⟩ := hw.fetch_child hn hchild
      exact Or.inr ⟨m, hm, map_eq_ok.mpr ⟨m, hfetch, rfl⟩, hlt⟩

/-- Looking for a role never fails. -/
theorem exists_inRole (hw : a.WellLinked) (hn : n ∈ a.nodes) (role : Role) :
    ∃ found, a.inRole n role = .ok found := by
  rcases hw.inRole_cases hn role with hnone | ⟨m, -, hsome, -⟩
  · exact ⟨none, hnone⟩
  · exact ⟨some m, hsome⟩

theorem of_inRole (hw : a.WellLinked) (hn : n ∈ a.nodes) (h : a.inRole n role = .ok (some m)) :
    m ∈ a.nodes ∧ n.index < m.index := by
  rcases hw.inRole_cases hn role with hnone | ⟨k, hk, hsome, hlt⟩
  · cases hnone.symm.trans h
  · obtain rfl := inRole_unique hsome h
    exact ⟨hk, hlt⟩

/-- The link of a role is the index of the node that plays it. -/
theorem get?_of_inRole (hw : a.WellLinked) (hn : n ∈ a.nodes)
    (h : a.inRole n role = .ok (some m)) : n.roles.get? role.name = some (m.index : Int) := by
  unfold inRole named at h
  split at h
  · cases h
  · rename_i link hrole
    have hchild : link ∈ n.children :=
      hw.mem_children_of_mem_roles (hw.getElem?_index hn) (Table.mem_of_get? hrole)
    obtain ⟨k, hfetch, hk⟩ := map_eq_ok.mp h
    obtain rfl := Option.some.inj hk
    rw [hrole, hw.eq_index_of_fetch hn hchild hfetch]

theorem parent_of_inRole (hw : a.WellLinked) (hn : n ∈ a.nodes)
    (h : a.inRole n role = .ok (some m)) : m.parent = some (n.index : Int) := by
  have hlink := Table.mem_of_get? (hw.get?_of_inRole hn h)
  have hget := hw.getElem?_index hn
  have hgetm := hw.getElem?_index (hw.of_inRole hn h).1
  exact (hw.mem_children_iff hget hgetm).mp (hw.mem_children_of_mem_roles hget hlink)

end WellLinked

end GuardClause.Arena
