import GuardClause.Proofs.Layout.Links

/-!
# Spelling an arena out as a tree

`Arena.decode` follows the links from a node to its children and gives back the tree that the arena
spells out. For an arena read from a concrete syntax tree that is the tree itself, without what lies
below unnamed nodes, and its nodes in pre-order are the nodes of the arena.
-/

namespace GuardClause

namespace Arena

/-- The tree below a link, at most `fuel` levels deep. -/
def decodeFuel (a : Arena) : Nat → Int → Except Fault (Rose Node)
  | 0, _ => .error .circularLinks
  | fuel + 1, link => do
      let n ← a.fetch link
      let ts ← n.children.mapM (decodeFuel a fuel)
      pure (.node n ts)

/-- The tree that an arena spells out. -/
def decode (a : Arena) : Except Fault (Rose Node) := a.decodeFuel a.bound a.root

end Arena

/-- A node was read from a label. -/
def Grammar.ReadFrom (g : Grammar) (map : ByteMap) (n : Node) (l : Label) : Prop :=
  ∃ p : Placed, p.tree.label = l ∧ g.Reads map p n

section

variable {g : Grammar} {text : Text} {root : Concrete} {nodes : List Node}

/-- Sibling trees that are visited one after another are decoded one after another. -/
theorem decode_siblings {a : Arena} {w : List (Visit Label)} {R : Node → Label → Prop}
    {fuel i : Nat} {p : Option Nat} {ts : List (Rose Label)}
    (ih : ∀ t ∈ ts, ∀ k : Nat, w[k]? = some ⟨t, p⟩ → ∃ d, a.decodeFuel fuel k = .ok d ∧
      Rose.Matches R d (t.pruned Label.named) ∧
      d.preorder = (a.nodes.toList.drop k).take (t.pruned Label.named).size)
    (hw : List.Forall₂ (fun c t => w[c]? = some ⟨t, p⟩) (Rose.numbers Label.named i ts) ts) :
    ∃ ds, ((Rose.numbers Label.named i ts).map Int.ofNat).mapM (a.decodeFuel fuel) = .ok ds ∧
      List.Forall₂ (Rose.Matches R) ds (ts.map (Rose.pruned Label.named)) ∧
      ds.flatMap Rose.preorder = (a.nodes.toList.drop i).take (Rose.reach Label.named ts) := by
  induction ts generalizing i with
  | nil => exact ⟨[], rfl, List.Forall₂.nil, by simp [Rose.reach]⟩
  | cons t ts ihs =>
      rw [Rose.numbers] at hw
      obtain ⟨ht, hts⟩ := List.forall₂_cons.mp hw
      obtain ⟨d, hd, hm, hp⟩ := ih t List.mem_cons_self i ht
      obtain ⟨ds, hds, hms, hps⟩ := ihs (fun u hu => ih u (List.mem_cons_of_mem t hu)) hts
      refine ⟨d :: ds, ?_, List.Forall₂.cons hm hms, ?_⟩
      · exact mapM_eq_ok.mpr (List.Forall₂.cons hd (mapM_eq_ok.mp hds))
      · rw [List.flatMap_cons, hp, hps, Rose.reach_cons, List.take_add, List.drop_drop]

/-- The tree below a visited node is decoded as it was read. -/
theorem decode_visit (h : g.nodesOf text root = .ok nodes) (language : String)
    (t : Rose Label) (p : Option Nat) (k : Nat)
    (hk : (Rose.walk Label.named root.rose)[k]? = some ⟨t, p⟩) (fuel : Nat)
    (hfuel : (t.pruned Label.named).size ≤ fuel) :
    ∃ d, Arena.decodeFuel ⟨language, ⟨text⟩, nodes.toArray, 0⟩ fuel k = .ok d ∧
      Rose.Matches (g.ReadFrom (ByteMap.ofText text)) d (t.pruned Label.named) ∧
      d.preorder = (nodes.drop k).take (t.pruned Label.named).size := by
  induction t using Rose.induct generalizing p k fuel with
  | step l ts ih =>
      obtain ⟨n, hn, hr⟩ := Grammar.exists_node h hk
      have hpos := ((Rose.node l ts).pruned Label.named).size_pos
      obtain ⟨fuel, rfl⟩ : ∃ f, fuel = f + 1 := ⟨fuel - 1, by omega⟩
      rw [Rose.size_pruned_eq] at hfuel
      -- Every subtree is smaller than the tree, so one step less is enough for it.
      have hsize : ∀ u ∈ (Rose.node l ts).kept Label.named,
          (u.pruned Label.named).size ≤ fuel := by
        intro u hu
        have := List.single_le_sum (fun _ _ => Nat.zero_le _) _
          (List.mem_map.mpr ⟨u, hu, rfl⟩ : (u.pruned Label.named).size ∈
            ((Rose.node l ts).kept Label.named).map fun u => (u.pruned Label.named).size)
        rw [Rose.reach] at hfuel
        omega
      have hkids := decode_siblings (a := ⟨language, ⟨text⟩, nodes.toArray, 0⟩)
        (fun u hu c hc => ih u (List.mem_of_mem_filter hu) (some k) c hc fuel (hsize u hu))
        (Rose.walk_children hk)
      obtain ⟨ds, hds, hms, hps⟩ := hkids
      refine ⟨.node n ds, ?_, ?_, ?_⟩
      · refine bind_eq_ok.mpr ⟨n, Arena.fetch_natCast (by rwa [List.getElem?_toArray]), ?_⟩
        exact bind_eq_ok.mpr ⟨ds, by rw [hr.children_eq]; exact hds, rfl⟩
      · rw [Rose.pruned_eq_node]
        refine Rose.Matches.node ⟨_, ?_, hr⟩ hms
        exact Concrete.label_ofRose _
      · obtain ⟨hlt, rfl⟩ := List.getElem?_eq_some_iff.mp hn
        rw [Rose.preorder_node, hps, Rose.size_pruned_eq, List.drop_eq_getElem_cons hlt,
          List.take_succ_cons]
        rfl

/-- An arena spells out the tree that it was read from, and in pre-order its nodes. -/
theorem decode_of_nodesOf (h : g.nodesOf text root = .ok nodes) (language : String) :
    ∃ d, Arena.decode ⟨language, ⟨text⟩, nodes.toArray, 0⟩ = .ok d ∧
      Rose.Matches (g.ReadFrom (ByteMap.ofText text)) d (root.rose.pruned Label.named) ∧
      d.preorder = nodes := by
  have hlen : (root.rose.pruned Label.named).size = nodes.length := by
    have := (Grammar.nodesOf_eq_ok.mp h).length_eq
    rwa [List.length_mapIdx, Rose.length_walk] at this
  have hbound : (Arena.bound ⟨language, ⟨text⟩, nodes.toArray, 0⟩) = nodes.length := rfl
  obtain ⟨d, hd, hm, hp⟩ := decode_visit h language root.rose none 0 (Rose.walk_zero root.rose)
    (Arena.bound ⟨language, ⟨text⟩, nodes.toArray, 0⟩) (by rw [hbound, hlen])
  refine ⟨d, hd, hm, ?_⟩
  rw [hp, List.drop_zero, hlen, List.take_length]

end

end GuardClause
