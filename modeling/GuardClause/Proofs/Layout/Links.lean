import GuardClause.Language.Parse
import GuardClause.Proofs.Layout.Numbering
import GuardClause.Proofs.Steps

/-!
# The links of a parsed arena

`Arena.WellLinked` collects what is known of the links of an arena that was read from a concrete
syntax tree: they are mutual, they lead forward from parents to children, the descendants of a node
take up a stretch of the arena, and roles are played by children. Nothing in an arena enforces any
of this. It holds because nodes are numbered in the order in which they are visited
(`wellLinked_of_parse`).
-/

namespace GuardClause

/-- What the node of an arena says about the numbered node that it was read from. -/
structure Grammar.Reads (g : Grammar) (map : ByteMap) (p : Placed) (n : Node) : Prop where
  index_eq : n.index = p.index
  kind_eq : g.kindOf p.tree = .ok n.kind
  type_eq : n.type = p.tree.label.type
  roles_eq : g.rolesAt p n.kind = .ok n.roles
  start_eq : Grammar.offsetAt map p.tree.label.startByte = .ok n.start
  stop_eq : Grammar.offsetAt map p.tree.label.stopByte = .ok n.stop
  parent_eq : n.parent = p.parent.map Int.ofNat
  children_eq : n.children = p.children.map Int.ofNat

namespace Grammar

theorem nodeAt_eq_ok {g : Grammar} {map : ByteMap} {p : Placed} {n : Node} :
    g.nodeAt map p = .ok n ↔ g.Reads map p n := by
  simp only [nodeAt, bind_eq_ok]
  constructor
  · rintro ⟨kind, hk, roles, hr, start, hs, stop, he, hn⟩
    obtain rfl := Except.ok.inj hn
    exact ⟨rfl, hk, rfl, hr, hs, he, rfl, rfl⟩
  · intro h
    refine ⟨n.kind, h.kind_eq, n.roles, h.roles_eq, n.start, h.start_eq, n.stop, h.stop_eq, ?_⟩
    rw [← h.index_eq, ← h.type_eq, ← h.parent_eq, ← h.children_eq]
    rfl

/-- The number that is found for a field is that of a named child which fills it. -/
theorem field_of_childInField? {p : Placed} {field : String} {i : Nat}
    (h : childInField? p field = some i) :
    ∃ t, (t, i) ∈ p.tree.namedChildren.zip p.children ∧ t.label.field = some field := by
  unfold childInField? at h
  dsimp only at h
  split at h
  · split at h
    · obtain ⟨⟨t, j⟩, he, rfl⟩ := Option.map_eq_some_iff.mp h
      exact ⟨t, List.mem_of_find?_eq_some he, by simpa using List.find?_some he⟩
    · cases h
  · cases h

theorem mem_of_childInField? {p : Placed} {field : String} {i : Nat}
    (h : childInField? p field = some i) : i ∈ p.children := by
  obtain ⟨t, ht, -⟩ := field_of_childInField? h
  exact (List.of_mem_zip ht).2

theorem rolesOf_eq_filterMap (p : Placed) (fields : Table String) :
    rolesOf p fields =
      fields.filterMap fun f => (childInField? p f.2).map fun i => (f.1, Int.ofNat i) := by
  unfold rolesOf
  congr 1
  funext f
  cases childInField? p f.2 <;> rfl

theorem mem_rolesOf {p : Placed} {fields : Table String} {r : String × Int}
    (h : r ∈ rolesOf p fields) : ∃ i ∈ p.children, r.2 = (i : Int) := by
  rw [rolesOf_eq_filterMap] at h
  obtain ⟨f, -, hf⟩ := List.mem_filterMap.mp h
  obtain ⟨i, hi, rfl⟩ := Option.map_eq_some_iff.mp hf
  exact ⟨i, mem_of_childInField? hi, rfl⟩

theorem mem_of_wrappedChild {g : Grammar} {p : Placed} {i : Nat}
    (h : g.wrappedChild p = .ok (some i)) : i ∈ p.children := by
  obtain ⟨kinds, -, hi⟩ := bind_eq_ok.mp h
  obtain ⟨e, he, rfl⟩ := Option.map_eq_some_iff.mp (Except.ok.inj hi)
  exact (List.of_mem_zip (List.mem_of_find?_eq_some he)).2

/-- Roles are played by children. -/
theorem mem_rolesAt {g : Grammar} {p : Placed} {kind : Kind} {roles : Table Int}
    (h : g.rolesAt p kind = .ok roles) {r : String × Int} (hr : r ∈ roles) :
    ∃ i ∈ p.children, r.2 = (i : Int) := by
  simp only [rolesAt, bind_eq_ok] at h
  obtain ⟨fields, -, h⟩ := h
  split at h
  · obtain ⟨w, hw, h⟩ := bind_eq_ok.mp h
    cases w with
    | none =>
        obtain rfl := Except.ok.inj h
        exact mem_rolesOf hr
    | some i =>
        obtain rfl := Except.ok.inj h
        rcases Table.mem_put hr with hr | rfl
        · exact mem_rolesOf hr
        · exact ⟨i, mem_of_wrappedChild hw, rfl⟩
  · obtain rfl := Except.ok.inj h
    exact mem_rolesOf hr

theorem parse_eq_ok {g : Grammar} {text : Text} {parsed : Parsed} {a : Arena} :
    g.parse text parsed = .ok a ↔
      ∃ language root nodes, g.name = some language ∧ parsed.root = some root ∧
        g.nodesOf text root = .ok nodes ∧ a = ⟨language, ⟨text⟩, nodes.toArray, 0⟩ := by
  unfold parse
  constructor
  · intro h
    split at h
    · cases h
    · rename_i language hg
      split at h
      · cases h
      · rename_i root hroot
        split at h
        · cases h
        · rename_i nodes hn
          exact ⟨language, root, nodes, hg, hroot, hn, (Except.ok.inj h).symm⟩
  · rintro ⟨language, root, nodes, hg, hroot, hn, rfl⟩
    simp only [hg, hroot, hn]

/-- The nodes read from a tree are those of its visits, in order. -/
theorem nodesOf_eq_ok {g : Grammar} {text : Text} {root : Concrete} {nodes : List Node} :
    g.nodesOf text root = .ok nodes ↔
      List.Forall₂ (g.Reads (ByteMap.ofText text))
        ((Rose.walk Label.named root.rose).mapIdx Concrete.placedAt) nodes := by
  rw [nodesOf, Concrete.placed_eq_walk, mapM_eq_ok]
  simp only [nodeAt_eq_ok]

variable {g : Grammar} {text : Text} {root : Concrete} {nodes : List Node}

theorem exists_visit (h : g.nodesOf text root = .ok nodes) {k : Nat} {n : Node}
    (hn : nodes[k]? = some n) :
    ∃ v, (Rose.walk Label.named root.rose)[k]? = some v ∧
      g.Reads (ByteMap.ofText text) (Concrete.placedAt k v) n := by
  obtain ⟨hlen, hget⟩ := List.forall₂_iff_get.mp (nodesOf_eq_ok.mp h)
  obtain ⟨hk, rfl⟩ := List.getElem?_eq_some_iff.mp hn
  have hr := hget k (hlen ▸ hk) hk
  rw [List.length_mapIdx] at hlen
  refine ⟨_, List.getElem?_eq_getElem (hlen ▸ hk), ?_⟩
  simpa only [List.get_eq_getElem, List.getElem_mapIdx] using hr

theorem exists_node (h : g.nodesOf text root = .ok nodes) {k : Nat} {v : Visit Label}
    (hv : (Rose.walk Label.named root.rose)[k]? = some v) :
    ∃ n, nodes[k]? = some n ∧ g.Reads (ByteMap.ofText text) (Concrete.placedAt k v) n := by
  have hlen := (nodesOf_eq_ok.mp h).length_eq
  rw [List.length_mapIdx] at hlen
  have hk := (List.getElem?_eq_some_iff.mp hv).1
  obtain ⟨n, hn⟩ : ∃ n, nodes[k]? = some n := ⟨_, List.getElem?_eq_getElem (hlen ▸ hk)⟩
  obtain ⟨u, hu, hr⟩ := exists_visit h hn
  obtain rfl := Option.some.inj (hv.symm.trans hu)
  exact ⟨n, hn, hr⟩

end Grammar

/-! ## Well-linked arenas -/

namespace Arena

theorem fetch_natCast {a : Arena} {k : Nat} {n : Node} (h : a.nodes[k]? = some n) :
    a.fetch (k : Int) = .ok n := by
  have hk : k < a.nodes.size := (Array.getElem?_eq_some_iff.mp h).1
  unfold fetch node?
  rw [place?_natCast hk]
  simp only [Option.bind_eq_bind, Option.bind_some, h]

/-- Node `j` is the parent of node `k`. -/
def Begets (a : Arena) (j k : Nat) : Prop :=
  ∃ n, a.nodes[k]? = some n ∧ n.parent = some (j : Int)

/-- Node `k` is node `j` or one of its descendants. -/
def Descends (a : Arena) : Nat → Nat → Prop := Relation.ReflTransGen a.Begets

/-- What is known of the links of an arena that was read from a concrete syntax tree. -/
structure WellLinked (a : Arena) : Prop where
  root_eq : a.root = 0
  nonempty : 0 < a.nodes.size
  index_eq : ∀ {k : Nat} {n : Node}, a.nodes[k]? = some n → n.index = k
  parent_eq_none_iff : ∀ {k : Nat} {n : Node}, a.nodes[k]? = some n → (n.parent = none ↔ k = 0)
  parent_lt : ∀ {k : Nat} {n : Node} {link : Int}, a.nodes[k]? = some n →
    n.parent = some link → ∃ j : Nat, link = j ∧ j < k
  child_lt : ∀ {k : Nat} {n : Node} {link : Int}, a.nodes[k]? = some n →
    link ∈ n.children → ∃ c : Nat, link = c ∧ k < c ∧ c < a.nodes.size
  mem_children_iff : ∀ {j k : Nat} {n m : Node}, a.nodes[j]? = some n → a.nodes[k]? = some m →
    ((k : Int) ∈ n.children ↔ m.parent = some (j : Int))
  children_pairwise : ∀ {k : Nat} {n : Node}, a.nodes[k]? = some n →
    n.children.Pairwise (· < ·)
  descends_iff : ∀ {k : Nat} {n : Node}, a.nodes[k]? = some n →
    ∃ stop, k < stop ∧ stop ≤ a.nodes.size ∧ ∀ c, a.Descends k c ↔ k ≤ c ∧ c < stop
  mem_children_of_mem_roles : ∀ {k : Nat} {n : Node} {r : String × Int}, a.nodes[k]? = some n →
    r ∈ n.roles → r.2 ∈ n.children

end Arena

namespace Grammar.Reads

variable {g : Grammar} {map : ByteMap} {p : Placed} {n : Node}

theorem parent_eq_some_iff (h : g.Reads map p n) (j : Nat) :
    n.parent = some (j : Int) ↔ p.parent = some j := by
  rw [h.parent_eq, Option.map_eq_some_iff]
  constructor
  · rintro ⟨i, hi, hij⟩
    obtain rfl := Int.ofNat.inj hij
    exact hi
  · intro hj
    exact ⟨j, hj, rfl⟩

theorem mem_children_iff (h : g.Reads map p n) (c : Nat) :
    (c : Int) ∈ n.children ↔ c ∈ p.children := by
  rw [h.children_eq, List.mem_map]
  constructor
  · rintro ⟨i, hi, hic⟩
    obtain rfl := Int.ofNat.inj hic
    exact hi
  · intro hc
    exact ⟨c, hc, rfl⟩

end Grammar.Reads

section

variable {g : Grammar} {text : Text} {root : Concrete} {nodes : List Node}

theorem begets_iff (h : g.nodesOf text root = .ok nodes) {language : String} (j k : Nat) :
    Arena.Begets ⟨language, ⟨text⟩, nodes.toArray, 0⟩ j k ↔
      Rose.Begets (Rose.walk Label.named root.rose) j k := by
  simp only [Arena.Begets, Rose.Begets, List.getElem?_toArray]
  constructor
  · rintro ⟨n, hn, hp⟩
    obtain ⟨v, hv, hr⟩ := Grammar.exists_visit h hn
    exact ⟨v, hv, (hr.parent_eq_some_iff j).mp hp⟩
  · rintro ⟨v, hv, hp⟩
    obtain ⟨n, hn, hr⟩ := Grammar.exists_node h hv
    exact ⟨n, hn, (hr.parent_eq_some_iff j).mpr hp⟩

namespace Grammar

variable {k : Nat} {n : Node} {link : Int}

theorem length_walk_of_nodesOf (h : g.nodesOf text root = .ok nodes) :
    (Rose.walk Label.named root.rose).length = nodes.length := by
  have hlen := (nodesOf_eq_ok.mp h).length_eq
  rwa [List.length_mapIdx] at hlen

theorem size_of_nodesOf (h : g.nodesOf text root = .ok nodes) :
    (root.rose.pruned Label.named).size = nodes.length :=
  (Rose.length_walk root.rose).symm.trans (length_walk_of_nodesOf h)

/-- A parent was visited before. -/
theorem parent_lt_of_nodesOf (h : g.nodesOf text root = .ok nodes) (hn : nodes[k]? = some n)
    (hlink : n.parent = some link) : ∃ j : Nat, link = j ∧ j < k := by
  obtain ⟨v, hv, hr⟩ := exists_visit h hn
  rw [hr.parent_eq] at hlink
  obtain ⟨i, hi, rfl⟩ := Option.map_eq_some_iff.mp hlink
  rcases Rose.walk_parent_cases hv with ⟨-, hnone⟩ | ⟨j, u, hj, -, hvp, -⟩
  · -- Only the first visit has no parent.
    exact absurd (hi.symm.trans hnone) (by simp)
  · obtain rfl := Option.some.inj (hvp.symm.trans hi)
    exact ⟨j, rfl, hj⟩

/-- The children are numbered inside the stretch of their parent, which ends in the arena. -/
theorem child_lt_of_nodesOf (h : g.nodesOf text root = .ok nodes) (hn : nodes[k]? = some n)
    (hlink : link ∈ n.children) : ∃ c : Nat, link = c ∧ k < c ∧ c < nodes.length := by
  obtain ⟨v, hv, hr⟩ := exists_visit h hn
  rw [hr.children_eq] at hlink
  obtain ⟨c, hc, rfl⟩ := List.mem_map.mp hlink
  have hrange := Rose.mem_numbers hc
  have hle := Rose.le_of_visits_singleton hv
  rw [Rose.size_pruned_eq v.tree, size_of_nodesOf h] at hle
  exact ⟨c, rfl, by omega, by omega⟩

/-- Links between parents and children are mutual. -/
theorem mem_children_iff_of_nodesOf (h : g.nodesOf text root = .ok nodes) {j : Nat} {m : Node}
    (hn : nodes[j]? = some n) (hm : nodes[k]? = some m) :
    (k : Int) ∈ n.children ↔ m.parent = some (j : Int) := by
  obtain ⟨u, hu, hrn⟩ := exists_visit h hn
  obtain ⟨v, hv, hrm⟩ := exists_visit h hm
  rw [hrn.mem_children_iff, hrm.parent_eq_some_iff]
  exact (Rose.walk_parent_eq_some_iff hu hv).symm

theorem children_pairwise_of_nodesOf (h : g.nodesOf text root = .ok nodes)
    (hn : nodes[k]? = some n) : n.children.Pairwise (· < ·) := by
  obtain ⟨v, -, hr⟩ := exists_visit h hn
  rw [hr.children_eq, List.pairwise_map]
  exact (Rose.numbers_pairwise _ _).imp fun hlt => Int.ofNat_lt.mpr hlt

/-- A node and its descendants take up as many places as the subtree has nodes. -/
theorem descends_of_nodesOf (h : g.nodesOf text root = .ok nodes) (language : String)
    (hn : nodes[k]? = some n) :
    ∃ stop, k < stop ∧ stop ≤ nodes.length ∧
      ∀ c, Arena.Descends ⟨language, ⟨text⟩, nodes.toArray, 0⟩ k c ↔ k ≤ c ∧ c < stop := by
  obtain ⟨v, hv, -⟩ := exists_visit h hn
  have hle := Rose.le_of_visits_singleton hv
  have hpos := (v.tree.pruned Label.named).size_pos
  rw [size_of_nodesOf h] at hle
  refine ⟨k + (v.tree.pruned Label.named).size, by omega, hle, fun c => ?_⟩
  have hrel : Arena.Begets ⟨language, ⟨text⟩, nodes.toArray, 0⟩ =
      Rose.Begets (Rose.walk Label.named root.rose) := by
    funext i j
    exact propext (begets_iff h i j)
  rw [Arena.Descends, hrel]
  exact Rose.descends_iff hv c

theorem mem_children_of_mem_roles_of_nodesOf (h : g.nodesOf text root = .ok nodes)
    (hn : nodes[k]? = some n) {r : String × Int} (hrole : r ∈ n.roles) : r.2 ∈ n.children := by
  obtain ⟨v, -, hr⟩ := exists_visit h hn
  obtain ⟨i, hi, hri⟩ := mem_rolesAt hr.roles_eq hrole
  rw [hri]
  exact (hr.mem_children_iff i).mpr hi

end Grammar

theorem wellLinked_of_nodesOf (h : g.nodesOf text root = .ok nodes) (language : String) :
    Arena.WellLinked ⟨language, ⟨text⟩, nodes.toArray, 0⟩ := by
  constructor
  case root_eq => rfl
  case nonempty =>
      rw [List.size_toArray, ← Grammar.size_of_nodesOf h]
      exact Rose.size_pos _
  case index_eq =>
      intro k n hn
      rw [List.getElem?_toArray] at hn
      obtain ⟨v, -, hr⟩ := Grammar.exists_visit h hn
      exact hr.index_eq
  case parent_eq_none_iff =>
      intro k n hn
      rw [List.getElem?_toArray] at hn
      obtain ⟨v, hv, hr⟩ := Grammar.exists_visit h hn
      rw [hr.parent_eq, Option.map_eq_none_iff]
      exact Rose.walk_parent_eq_none_iff hv
  case parent_lt =>
      intro k n link hn hlink
      rw [List.getElem?_toArray] at hn
      exact Grammar.parent_lt_of_nodesOf h hn hlink
  case child_lt =>
      intro k n link hn hlink
      rw [List.getElem?_toArray] at hn
      exact Grammar.child_lt_of_nodesOf h hn hlink
  case mem_children_iff =>
      intro j k n m hn hm
      rw [List.getElem?_toArray] at hn hm
      exact Grammar.mem_children_iff_of_nodesOf h hn hm
  case children_pairwise =>
      intro k n hn
      rw [List.getElem?_toArray] at hn
      exact Grammar.children_pairwise_of_nodesOf h hn
  case descends_iff =>
      intro k n hn
      rw [List.getElem?_toArray] at hn
      exact Grammar.descends_of_nodesOf h language hn
  case mem_children_of_mem_roles =>
      intro k n r hn hrole
      rw [List.getElem?_toArray] at hn
      exact Grammar.mem_children_of_mem_roles_of_nodesOf h hn hrole

end

theorem wellLinked_of_parse {g : Grammar} {text : Text} {parsed : Parsed} {a : Arena}
    (h : g.parse text parsed = .ok a) : a.WellLinked := by
  obtain ⟨language, root, nodes, -, -, hnodes, rfl⟩ := Grammar.parse_eq_ok.mp h
  exact wellLinked_of_nodesOf hnodes language

end GuardClause
