import GuardClause.Conditional.Refactoring
import GuardClause.Proofs.Edits.Offers
import GuardClause.Proofs.Layout.Follow
import GuardClause.Proofs.Placement.Alike
import GuardClause.Proofs.Placement.Buffers
import GuardClause.Proofs.Position.Ranges

/-!
# The same tree in a larger buffer

When a text is put between whole lines, its arena keeps its nodes, further on by as many characters
as were put before it (`Arena.Moved`). Every walk through the one arena has a walk through the other
beside it, and what is taken over from the buffer is the same. The stretch of the root is never
looked at: a walk down begins below it, a walk up ends before it, and no link to a child or to a
role leads to it.
-/

namespace GuardClause

/-- Node `n'` is node `n`, so many characters further on. The stretch of the root is left open. -/
structure Node.Moved (distance : Nat) (n n' : Node) : Prop where
  index_eq : n'.index = n.index
  kind_eq : n'.kind = n.kind
  type_eq : n'.type = n.type
  parent_eq : n'.parent = n.parent
  children_eq : n'.children = n.children
  roles_eq : n'.roles = n.roles
  start_eq : n.parent ≠ none → n'.start = n.start + distance
  stop_eq : n.parent ≠ none → n'.stop = n.stop + distance

/-- Arena `a'` has the nodes of arena `a` and a larger buffer. -/
structure Arena.Moved (before after : Text) (a a' : Arena) : Prop where
  buffer : a.buffer.Within before after a'.buffer
  root_eq : a'.root = a.root
  nodes : List.Forall₂ (Node.Moved before.length) a.nodes.toList a'.nodes.toList

namespace Arena

/-- What is known of an arena that was moved: the original is well linked, and its nodes lie in its
buffer. -/
structure Twins (before after : Text) (a a' : Arena) : Prop extends
    Moved before after a a' where
  wellLinked : a.WellLinked
  inside : ∀ n ∈ a.nodes, a.Inside n

/-- Node `n'` is a node of an arena, moved. -/
structure Pairs (a : Arena) (distance : Nat) (n n' : Node) : Prop where
  mem : n ∈ a.nodes
  moved : n.Moved distance n'

/-- Node `n'` is a node of an arena below the root, moved. -/
structure PairsBelow (a : Arena) (distance : Nat) (n n' : Node) : Prop extends
    Pairs a distance n n' where
  not_root : n.parent ≠ none

/-- Two replacements of one node by the same statements. -/
structure PairsReplacement (a : Arena) (distance : Nat) (r r' : Replacement) : Prop where
  target : a.PairsBelow distance r.target r'.target
  statements_eq : r'.statements = r.statements

variable {before after : Text} {a a' : Arena} {n n' : Node} {distance : Nat}

/-! ## Following links -/

theorem Moved.size_eq (h : a.Moved before after a') : a'.nodes.size = a.nodes.size := by
  have hlength := h.nodes.length_eq
  rw [Array.length_toList, Array.length_toList] at hlength
  exact hlength.symm

theorem Moved.bound_eq (h : a.Moved before after a') : a'.bound = a.bound := h.size_eq

theorem Moved.rel_getElem? (h : a.Moved before after a') (i : Nat) :
    Option.Rel (a.Pairs before.length) a.nodes[i]? a'.nodes[i]? := by
  have hsize := h.size_eq
  by_cases hi : i < a.nodes.size
  · have hi' : i < a'.nodes.size := by omega
    rw [Array.getElem?_eq_getElem hi, Array.getElem?_eq_getElem hi']
    exact .some ⟨Array.getElem_mem hi, (List.forall₂_iff_get.mp h.nodes).2 i hi hi'⟩
  · rw [Array.getElem?_eq_none (by omega), Array.getElem?_eq_none (by omega)]
    exact .none

theorem Moved.fetch (h : a.Moved before after a') (link : Int) :
    Alike (a.Pairs before.length) (a.fetch link) (a'.fetch link) := by
  unfold Arena.fetch node?
  rw [h.size_eq]
  cases place? a.nodes.size link with
  | none => exact .error _ _
  | some i =>
      simp only [Option.bind_eq_bind, Option.bind_some]
      rcases rel_cases (h.rel_getElem? i) with ⟨hi, hi'⟩ | ⟨n, n', hi, hi', hn⟩
      · rw [hi, hi']
        exact .error _ _
      · rw [hi, hi']
        exact .ok hn

namespace PairsBelow

variable {m m' : Node}

theorem start_eq (h : a.PairsBelow distance n n') : n'.start = n.start + distance :=
  h.moved.start_eq h.not_root

theorem stop_eq (h : a.PairsBelow distance n n') : n'.stop = n.stop + distance :=
  h.moved.stop_eq h.not_root

theorem covers_eq (h : a.PairsBelow distance n n') (offset : Int) :
    n.covers offset = n'.covers (offset + distance) := by
  rw [Node.covers, Node.covers, h.start_eq, h.stop_eq]
  simp

end PairsBelow

namespace Twins

variable {link offset : Int} {role : Role} {p : Node → Bool}

theorem fetch_child (h : a.Twins before after a') (hn : a.Pairs before.length n n')
    (hlink : link ∈ n.children) :
    Alike (a.PairsBelow before.length) (a.fetch link) (a'.fetch link) := by
  refine (h.fetch link).imp ?_
  intro m m' hm hpair
  refine ⟨hpair, ?_⟩
  -- A child comes after its parent, so it is not the root.
  obtain ⟨k, -, hk, hlt⟩ := h.wellLinked.fetch_child hn.mem hlink
  obtain rfl := Except.ok.inj (hk.symm.trans hm)
  intro hnone
  have hzero :=
    (h.wellLinked.parent_eq_none_iff (h.wellLinked.getElem?_index hpair.mem)).mp hnone
  omega

theorem childrenOf (h : a.Twins before after a') (hn : a.Pairs before.length n n') :
    Alike (List.Forall₂ (a.PairsBelow before.length)) (a.childrenOf n) (a'.childrenOf n') := by
  rw [Arena.childrenOf, Arena.childrenOf, hn.moved.children_eq]
  exact .mapM fun link hlink => h.fetch_child hn hlink

theorem inRole (h : a.Twins before after a') (hn : a.Pairs before.length n n') (role : Role) :
    Alike (Option.Rel (a.PairsBelow before.length)) (a.inRole n role) (a'.inRole n' role) := by
  rw [Arena.inRole, Arena.inRole, named, named, hn.moved.roles_eq]
  cases hlink : n.roles.get? role.name with
  | none => exact .ok .none
  | some link =>
      have hchild := h.wellLinked.mem_children_of_mem_roles
        (h.wellLinked.getElem?_index hn.mem) (Table.mem_of_get? hlink)
      exact (h.fetch_child hn hchild).map fun _ _ hm => .some hm

theorem parentOf (h : a.Twins before after a') (hn : a.Pairs before.length n n') :
    Alike (Option.Rel (a.Pairs before.length)) (a.parentOf n) (a'.parentOf n') := by
  rw [Arena.parentOf, Arena.parentOf, hn.moved.parent_eq]
  cases n.parent with
  | none => exact .ok .none
  | some link => exact (h.fetch link).map fun _ _ hm => .some hm

/-! ## Walks -/

theorem descend (h : a.Twins before after a') (hn : a.Pairs before.length n n') (offset : Int)
    (fuel : Nat) :
    Alike (a.Pairs before.length) (a.descend offset fuel n)
      (a'.descend (offset + before.length) fuel n') := by
  induction fuel generalizing n n' with
  | zero => exact .error _ _
  | succ fuel ih =>
      rw [Arena.descend, Arena.descend]
      refine (h.childrenOf hn).bind ?_
      intro ms ms' hms
      have hfind := rel_find? hms fun _ _ hm => hm.covers_eq offset
      rcases rel_cases hfind with ⟨hnone, hnone'⟩ | ⟨c, c', hc, hc', hpair⟩
      · rw [hnone, hnone']
        exact .pure hn
      · rw [hc, hc']
        exact ih hpair.toPairs

theorem resolve (h : a.Twins before after a') (offset : Int) :
    Alike (a.Pairs before.length) (a.resolve offset)
      (a'.resolve (offset + before.length)) := by
  rw [Arena.resolve, Arena.resolve, h.root_eq, h.bound_eq]
  exact (h.fetch a.root).bind fun _ _ hroot => h.descend hroot offset _

theorem climb (h : a.Twins before after a') (hn : a.Pairs before.length n n')
    (hp : ∀ m m', Node.Moved before.length m m' → p m' = p m) (fuel : Nat) :
    Alike (Option.Rel (a.PairsBelow before.length)) (a.climb p fuel n) (a'.climb p fuel n') := by
  induction fuel generalizing n n' with
  | zero => exact .error _ _
  | succ fuel ih =>
      rw [Arena.climb, Arena.climb, hn.moved.parent_eq, hp n n' hn.moved]
      cases hparent : n.parent with
      | none => exact .ok .none
      | some link =>
          dsimp only
          split
          · exact .ok (.some ⟨hn, by simp [hparent]⟩)
          · exact (h.fetch link).bind fun _ _ hq => ih hq

theorem around (h : a.Twins before after a')
    (hp : ∀ m m', Node.Moved before.length m m' → p m' = p m) (offset : Int) :
    Alike (Option.Rel (a.PairsBelow before.length)) (a.around p offset)
      (a'.around p (offset + before.length)) := by
  refine (h.resolve offset).bind ?_
  intro n n' hn
  rw [findEnclosing, findEnclosing, h.bound_eq]
  exact h.climb hn hp _

/-! ## Shapes -/

theorem elseBranch (h : a.Twins before after a') (hn : a.Pairs before.length n n') :
    Alike (Option.Rel (a.PairsBelow before.length)) (a.elseBranch n) (a'.elseBranch n') := by
  refine (h.inRole hn .alternative).bind ?_
  intro o o' ho
  cases ho with
  | none => exact .pure .none
  | some he =>
      dsimp only
      rw [he.moved.kind_eq]
      split
      · exact h.inRole he.toPairs .operand
      · exact .pure (.some he)

theorem isBlock_eq {o o' : Option Node} (h : Option.Rel (a.PairsBelow distance) o o') :
    isBlock o' = isBlock o := by
  cases h with
  | none => rfl
  | some hb => rw [isBlock, isBlock, hb.moved.kind_eq]

theorem isIfElse (h : a.Twins before after a') (hn : a.Pairs before.length n n') :
    Alike Eq (a.isIfElse n) (a'.isIfElse n') := by
  rw [Arena.isIfElse, Arena.isIfElse, hn.moved.kind_eq]
  split
  · refine (h.inRole hn .consequence).bind ?_
    intro t t' ht
    refine (h.elseBranch hn).bind ?_
    intro e e' he
    rw [isBlock_eq ht, isBlock_eq he]
    exact .pure rfl
  · exact .pure rfl

theorem isElseIf (h : a.Twins before after a') (hn : a.Pairs before.length n n') :
    Alike Eq (a.isElseIf n) (a'.isElseIf n') := by
  refine (h.parentOf hn).bind ?_
  intro o o' ho
  cases ho with
  | none => exact .pure rfl
  | some hp =>
      dsimp only
      rw [hp.moved.kind_eq, hp.moved.roles_eq, hn.moved.index_eq]
      exact .pure rfl

theorem inStatementList (h : a.Twins before after a') (hn : a.Pairs before.length n n') :
    Alike Eq (a.inStatementList n) (a'.inStatementList n') := by
  refine (h.parentOf hn).bind ?_
  intro o o' ho
  cases ho with
  | none => exact .pure rfl
  | some hp =>
      dsimp only
      rw [hp.moved.kind_eq]
      exact .pure rfl

theorem canFlatten (h : a.Twins before after a') (hn : a.Pairs before.length n n') :
    Alike Eq (a.canFlatten n) (a'.canFlatten n') := by
  refine (h.isIfElse hn).bind ?_
  rintro ifElse _ rfl
  cases ifElse with
  | false => exact .pure rfl
  | true =>
      refine (h.isElseIf hn).bind ?_
      rintro elseIf _ rfl
      cases elseIf with
      | true => exact .pure rfl
      | false => exact h.inStatementList hn

end Twins

end Arena

end GuardClause
