import GuardClause.Proofs.Layout.Decode

/-!
# Reading a tree in two passes

A parser's nodes know each other only by their marks. A reader that works with marks goes over the
tree twice. The first pass visits the named nodes with a stack and enters each mark in a ledger,
next to the number of the visit. The second pass looks the marks of children and fields up in the
ledger. A mark that is not in the ledger, or a number that is no visit's, would be a fault of its
own kind.

When no two nodes share a mark the second reader and the first one, which numbers nodes as it goes,
find the same nodes and the same faults (`twoPass_eq`). Marks that differ are needed: with equal
ones the ledger keeps the last.
-/

namespace GuardClause

/-- A concrete syntax tree whose nodes carry marks. -/
abbrev Marked := Rose (Nat × Label)

/-- What goes wrong when a tree is read in two passes. -/
inductive LinkFault where
  /-- A mark is not in the ledger. -/
  | noNumber (mark : Nat)
  /-- No visit has the number. -/
  | noVisit (number : Nat)
  /-- The tree cannot be read. -/
  | unread (fault : ReadFault)
deriving DecidableEq

/-- A visit of a marked tree. -/
abbrev MarkedVisit := Visit (Nat × Label)

namespace Rose

/-- The mark of the root. -/
def mark (t : Marked) : Nat := t.value.1

/-- The marks of all nodes, named or not. -/
def marks (t : Marked) : List Nat := t.preorder.map Prod.fst

/-- The tree without its marks. -/
def concrete (t : Marked) : Concrete := Concrete.ofRose (t.map Prod.snd)

/-- The first pass: the visits of the named nodes. -/
def namedVisits (t : Marked) : List MarkedVisit := t.walk fun e => e.2.named

/-- The subtrees below the root whose roots are named. -/
def named (t : Marked) : List Marked := t.kept fun e => e.2.named

end Rose

/-- The marks that were visited with the numbers of their visits, the last one first. -/
def ledger (vs : List MarkedVisit) : List (Nat × Nat) :=
  (vs.map (·.tree.mark)).zipIdx.reverse

namespace Grammar

/-- The number entered for a mark. -/
def numberOf (entries : List (Nat × Nat)) (mark : Nat) : Except LinkFault Nat :=
  match entries.lookup mark with
  | some i => .ok i
  | none => .error (.noNumber mark)

/-- The number of the first child that fills a field, unless it was not visited. -/
def fieldNumber (entries : List (Nat × Nat)) (t : Marked) (field : String) : Option Nat :=
  match t.children.find? fun c => decide (c.value.2.field = some field) with
  | some c => entries.lookup c.mark
  | none => none

/-- The kind of a visited node. -/
def kindOfVisit (g : Grammar) (vs : List (MarkedVisit)) (i : Nat) :
    Except LinkFault Kind :=
  match vs[i]? with
  | some v => (g.kindOf v.tree.concrete).mapError .unread
  | none => .error (.noVisit i)

/-- The roles of a visited node, in which the operand of a wrapper takes precedence. -/
def rolesOfVisit (g : Grammar) (vs : List (MarkedVisit)) (v : MarkedVisit)
    (kind : Kind) (children : List Nat) : Except LinkFault (Table Int) := do
  let fields ← (g.roleFields v.tree.concrete kind).mapError .unread
  let roles : Table Int := fields.filterMap fun f =>
    (fieldNumber (ledger vs) v.tree f.2).map fun i => (f.1, Int.ofNat i)
  if kind.isWrapper then do
    let kinds ← children.mapM (g.kindOfVisit vs)
    match (kinds.zip children).find? fun e => e.1 ≠ .comment with
    | some e => pure (roles.put "operand" e.2)
    | none => pure roles
  else pure roles

/-- The node that a visit becomes, found through the ledger. -/
def nodeOfVisit (g : Grammar) (map : ByteMap) (vs : List (MarkedVisit))
    (v : MarkedVisit) (i : Nat) : Except LinkFault Node := do
  let kind ← (g.kindOf v.tree.concrete).mapError .unread
  let children ← v.tree.named.mapM fun c =>
    numberOf (ledger vs) c.mark
  let roles ← g.rolesOfVisit vs v kind children
  let start ← (offsetAt map v.tree.value.2.startByte).mapError .unread
  let stop ← (offsetAt map v.tree.value.2.stopByte).mapError .unread
  pure {
    index := i, kind := kind, type := v.tree.value.2.type, start := start, stop := stop
    parent := v.parent.map Int.ofNat, children := children.map Int.ofNat, roles := roles }

/-- The nodes of a marked tree over a text, read in two passes. -/
def twoPass (g : Grammar) (text : Text) (t : Marked) : Except LinkFault (List Node) :=
  t.namedVisits.zipIdx.mapM fun e => g.nodeOfVisit (ByteMap.ofText text) t.namedVisits e.1 e.2

end Grammar

/-! ## The ledger -/

section

variable {t : Marked}

theorem nodup_map_of_subperm {α β : Type} {f : α → β} {l m : List α} (h : l.Subperm m)
    (hm : (m.map f).Nodup) : (l.map f).Nodup := by
  obtain ⟨k, hp, hs⟩ := h
  exact (hp.map f).nodup ((hs.map f).nodup hm)

theorem contents_singleton (t : Marked) (p : Option Nat) :
    Rose.contents [⟨t, p⟩] = t.preorder := by
  rw [Rose.contents, List.flatMap_cons, List.flatMap_nil, List.append_nil]

/-- The ledger has the number of every visit. -/
theorem lookup_ledger (h : t.marks.Nodup) {i : Nat} {v : MarkedVisit}
    (hv : t.namedVisits[i]? = some v) : (ledger t.namedVisits).lookup v.tree.mark = some i := by
  have hmem : (v.tree.mark, i) ∈ ledger t.namedVisits := by
    rw [ledger, List.mem_reverse, List.mk_mem_zipIdx_iff_getElem?, List.getElem?_map, hv]
    rfl
  have hvisits : List.Subperm (t.namedVisits.map (·.tree.value)) t.preorder := by
    rw [← contents_singleton t none]
    exact Rose.visits_subperm _ 0
  have hkeys : ((ledger t.namedVisits).map Prod.fst).Nodup := by
    have hmarks := nodup_map_of_subperm hvisits h
    rw [List.map_map] at hmarks
    rw [ledger, List.map_reverse, List.nodup_reverse, List.zipIdx_map_fst]
    exact hmarks
  -- A lookup finds the first entry of a mark, and the mark has no other entry.
  obtain ⟨before, after, hsplit⟩ := List.append_of_mem hmem
  refine List.lookup_eq_some_iff.mpr ⟨before, after, hsplit, ?_⟩
  intro e he
  rw [hsplit, List.map_append, List.map_cons] at hkeys
  have hne := (List.nodup_append.mp hkeys).2.2 e.1 (List.mem_map_of_mem he) v.tree.mark
    List.mem_cons_self
  exact bne_iff_ne.mpr hne.symm

/-- The mark of an unnamed child is not in the ledger. -/
theorem lookup_ledger_unnamed (h : t.marks.Nodup) {i : Nat} {v : MarkedVisit}
    (hv : t.namedVisits[i]? = some v) {c : Marked} (hc : c ∈ v.tree.children)
    (hn : c.value.2.named = false) : (ledger t.namedVisits).lookup c.mark = none := by
  have hvisits : List.Subperm (c.value :: t.namedVisits.map (·.tree.value)) t.preorder := by
    rw [← contents_singleton t none]
    exact Rose.dropped_subperm hv hc hn
  have hmarks := nodup_map_of_subperm hvisits h
  rw [List.map_cons, List.map_map, List.nodup_cons] at hmarks
  apply List.lookup_eq_none_iff.mpr
  intro e he
  rw [ledger, List.mem_reverse] at he
  have hfst := List.fst_mem_of_mem_zipIdx he
  apply bne_iff_ne.mpr
  intro heq
  apply hmarks.1
  rw [← heq] at hfst
  exact hfst

end

/-! ## Both readers agree -/

section

variable {α β γ ε δ : Type}

theorem mapError_bind (x : Except ε α) (k : α → Except ε β) (e : ε → δ) :
    (x >>= k).mapError e = x.mapError e >>= fun a => (k a).mapError e := by
  cases x <;> rfl

theorem mapM_eq_mapError {f : α → Except δ γ} {h : β → Except ε γ} {e : ε → δ} {l : List α}
    {m : List β} (hlm : List.Forall₂ (fun a b => f a = (h b).mapError e) l m) :
    l.mapM f = (m.mapM h).mapError e := by
  induction hlm with
  | nil => rfl
  | cons hab _ ih =>
      rw [List.mapM_cons, List.mapM_cons, mapError_bind, hab, ih]
      congr 1
      funext c
      rw [mapError_bind]
      rfl

/-- Looking for the first kept tree is looking for the first tree, when that one is kept. -/
theorem find?_filter_of_find? {p q : α → Bool} {l : List α} {a : α} (h : l.find? q = some a)
    (ha : p a = true) : (l.filter p).find? q = some a := by
  induction l with
  | nil => simp at h
  | cons b l ih =>
      rw [List.find?_cons] at h
      split at h
      · rename_i hb
        obtain rfl := Option.some.inj h
        rw [List.filter_cons_of_pos ha, List.find?_cons, hb]
      · rename_i hb
        rcases hp : p b with _ | _
        · rw [List.filter_cons_of_neg (by simp [hp]), ih h]
        · rw [List.filter_cons_of_pos hp, List.find?_cons, hb, ih h]

/-- The partner of the first element with a property. -/
theorem find?_zip {R : α → β → Prop} {p : α → Bool} {l : List α} {m : List β}
    (h : List.Forall₂ R l m) :
    (l.find? p = none ∧ ((l.zip m).find? fun e => p e.1) = none) ∨
      ∃ a b, l.find? p = some a ∧ ((l.zip m).find? fun e => p e.1) = some (a, b) ∧ R a b := by
  induction h with
  | nil => exact Or.inl ⟨rfl, rfl⟩
  | @cons a b l m hab _ ih =>
      rw [List.zip_cons_cons, List.find?_cons, List.find?_cons]
      cases hp : p a with
      | true => exact Or.inr ⟨a, b, rfl, rfl, hab⟩
      | false => exact ih

end

namespace Rose

theorem size_pruned_map {α β : Type} (f : α → β) (keep : β → Bool) (t : Rose α) :
    ((t.map f).pruned keep).size = (t.pruned fun a => keep (f a)).size := by
  rw [← length_walk, walk_map, List.length_map, length_walk]

theorem numbers_map {α β : Type} (f : α → β) (keep : β → Bool) (i : Nat) (ts : List (Rose α)) :
    numbers keep i (ts.map (map f)) = numbers (fun a => keep (f a)) i ts := by
  induction ts generalizing i with
  | nil => rfl
  | cons t ts ih => rw [List.map_cons, numbers, numbers, ih, size_pruned_map]

theorem namedChildren_concrete (t : Marked) :
    t.concrete.namedChildren = t.named.map concrete := by
  rw [concrete, Concrete.namedChildren_ofRose, kept_map, List.map_map]
  rfl

theorem children_concrete (t : Marked) : t.concrete.children = t.children.map concrete := by
  rw [concrete, Concrete.children_ofRose, children_map, List.map_map]
  rfl

theorem label_concrete (t : Marked) : t.concrete.label = t.value.2 := by
  rw [concrete, Concrete.label_ofRose, value_map]

end Rose

section

variable {t : Marked} {i : Nat} {v : MarkedVisit}

/-- What the first reader numbers at a visit. -/
def placedOf (i : Nat) (v : MarkedVisit) : Placed := Concrete.placedAt i (v.map Prod.snd)

theorem children_placedOf (i : Nat) (v : MarkedVisit) :
    (placedOf i v).children = Rose.numbers (fun e => e.2.named) (i + 1) v.tree.named := by
  rw [placedOf, Concrete.placedAt, Visit.map, Rose.kept_map, Rose.numbers_map]
  rfl

theorem tree_placedOf (i : Nat) (v : MarkedVisit) : (placedOf i v).tree = v.tree.concrete := rfl

theorem visits_children (hv : t.namedVisits[i]? = some v) :
    List.Forall₂ (fun c s => t.namedVisits[c]? = some ⟨s, some i⟩) (placedOf i v).children
      v.tree.named := by
  rw [children_placedOf]
  exact Rose.walk_children hv

theorem mapM_numberOf (h : t.marks.Nodup) (hv : t.namedVisits[i]? = some v) :
    v.tree.named.mapM (fun c => Grammar.numberOf (ledger t.namedVisits) c.mark) =
      .ok (placedOf i v).children := by
  apply mapM_eq_ok.mpr
  apply (visits_children hv).flip.imp
  intro s c hs
  rw [Grammar.numberOf, lookup_ledger h hs]

/-- A field is looked up in the ledger with the number that the first reader gives it. -/
theorem fieldNumber_eq (h : t.marks.Nodup) (hv : t.namedVisits[i]? = some v) (field : String) :
    Grammar.fieldNumber (ledger t.namedVisits) v.tree field =
      Grammar.childInField? (placedOf i v) field := by
  have hfills : (fun s : Concrete => decide (s.label.field = some field)) ∘ Rose.concrete =
      fun c : Marked => decide (c.value.2.field = some field) := by
    funext c
    rw [Function.comp_apply, Rose.label_concrete]
  unfold Grammar.fieldNumber Grammar.childInField?
  dsimp only
  rw [tree_placedOf, Rose.children_concrete, List.find?_map, hfills]
  cases hf : v.tree.children.find? fun c => decide (c.value.2.field = some field) with
  | none => rfl
  | some c =>
      rw [Option.map_some]
      dsimp only
      rw [Rose.label_concrete]
      cases hn : c.value.2.named with
      | false =>
          -- The first child with the field is unnamed: it was never entered.
          exact lookup_ledger_unnamed h hv (List.mem_of_find?_eq_some hf) hn
      | true =>
          have hnamed : v.tree.named.find? (fun c => decide (c.value.2.field = some field)) =
              some c := find?_filter_of_find? hf hn
          rw [if_pos rfl, Rose.namedChildren_concrete, List.zip_map_left, List.find?_map]
          have hzip : ((fun e : Concrete × Nat => decide (e.1.label.field = some field)) ∘
              Prod.map Rose.concrete id) =
              fun e : Marked × Nat => decide (e.1.value.2.field = some field) := by
            funext e
            exact congrFun hfills e.1
          rw [hzip]
          rcases find?_zip (visits_children hv).flip with ⟨hnone, -⟩ | ⟨s, n, hs, hsn, hw⟩
          · exact absurd (hnone.symm.trans hnamed) (by simp)
          · obtain rfl := Option.some.inj (hs.symm.trans hnamed)
            rw [hsn, lookup_ledger h hw]
            rfl

theorem mapM_kindOfVisit (g : Grammar) (hv : t.namedVisits[i]? = some v) :
    (placedOf i v).children.mapM (g.kindOfVisit t.namedVisits) =
      ((placedOf i v).tree.namedChildren.mapM g.kindOf).mapError .unread := by
  rw [tree_placedOf, Rose.namedChildren_concrete]
  apply mapM_eq_mapError
  apply List.forall₂_map_right_iff.mpr
  apply (visits_children hv).imp
  intro c s hs
  rw [Grammar.kindOfVisit, hs]

theorem rolesOfVisit_eq (h : t.marks.Nodup) (g : Grammar) (hv : t.namedVisits[i]? = some v)
    (kind : Kind) :
    g.rolesOfVisit t.namedVisits v kind (placedOf i v).children =
      (g.rolesAt (placedOf i v) kind).mapError .unread := by
  have hroles : ∀ fields : Table String,
      (fields.filterMap fun f =>
        (Grammar.fieldNumber (ledger t.namedVisits) v.tree f.2).map fun i =>
          (f.1, Int.ofNat i)) = Grammar.rolesOf (placedOf i v) fields := by
    intro fields
    rw [Grammar.rolesOf_eq_filterMap]
    congr 1
    funext f
    rw [fieldNumber_eq h hv]
  rw [Grammar.rolesOfVisit, Grammar.rolesAt, mapError_bind, tree_placedOf]
  congr 1
  funext fields
  rw [hroles, mapM_kindOfVisit g hv]
  cases hw : kind.isWrapper with
  | false => rfl
  | true =>
      rw [if_pos rfl, if_pos rfl, Grammar.wrappedChild]
      cases ((placedOf i v).tree.namedChildren.mapM g.kindOf) with
      | error e => rfl
      | ok kinds =>
          dsimp only [bind, Except.bind, Except.mapError, pure, Except.pure]
          cases (kinds.zip (placedOf i v).children).find? fun e => decide (e.1 ≠ .comment) with
          | none => rfl
          | some e => rfl

theorem nodeOfVisit_eq (h : t.marks.Nodup) (g : Grammar) (map : ByteMap)
    (hv : t.namedVisits[i]? = some v) :
    g.nodeOfVisit map t.namedVisits v i = (g.nodeAt map (placedOf i v)).mapError .unread := by
  rw [Grammar.nodeOfVisit, Grammar.nodeAt, mapError_bind, tree_placedOf]
  congr 1
  funext kind
  rw [mapM_numberOf h hv, mapError_bind, ← rolesOfVisit_eq h g hv, Rose.label_concrete]
  refine congrArg (g.rolesOfVisit t.namedVisits v kind (placedOf i v).children >>= ·) ?_
  funext roles
  rw [mapError_bind]
  congr 1
  funext start
  rw [mapError_bind]
  rfl

/-- Both readers find the same nodes and the same faults. -/
theorem twoPass_eq (h : t.marks.Nodup) (g : Grammar) (text : Text) :
    g.twoPass text t = (g.nodesOf text t.concrete).mapError .unread := by
  rw [Grammar.twoPass, Grammar.nodesOf, Concrete.placed_eq_walk, Rose.concrete,
    Concrete.rose_ofRose, Rose.walk_map, List.mapIdx_eq_zipIdx_map, List.zipIdx_map]
  apply mapM_eq_mapError
  rw [List.map_map, List.forall₂_map_right_iff]
  apply List.forall₂_same.mpr
  rintro ⟨v, i⟩ he
  exact nodeOfVisit_eq h g _ (List.mk_mem_zipIdx_iff_getElem?.mp he)

end

end GuardClause
