import GuardClause.Language.Layout
import GuardClause.Proofs.Tree.Visit

/-!
# The numbering of a concrete syntax tree

A concrete syntax tree is an ordered tree of labels (`Concrete.rose`), of which named subtrees are
kept. The pre-order numbering of its named nodes is the order in which a stack visits them
(`placed_ofRose`), so that all that is known of visits is known of numbered nodes.
-/

namespace GuardClause

namespace Concrete

mutual

/-- A concrete syntax tree as an ordered tree of labels. -/
def rose : Concrete → Rose Label
  | node l ts => .node l (roseAll ts)

/-- Concrete syntax trees as ordered trees of labels. -/
def roseAll : List Concrete → List (Rose Label)
  | [] => []
  | t :: ts => rose t :: roseAll ts

end

mutual

/-- An ordered tree of labels as a concrete syntax tree. -/
def ofRose : Rose Label → Concrete
  | .node l ts => .node l (ofRoseAll ts)

/-- Ordered trees of labels as concrete syntax trees. -/
def ofRoseAll : List (Rose Label) → List Concrete
  | [] => []
  | t :: ts => ofRose t :: ofRoseAll ts

end

mutual

theorem ofRose_rose : ∀ t : Concrete, ofRose t.rose = t
  | node l ts => by rw [rose, ofRose, ofRoseAll_roseAll ts]

theorem ofRoseAll_roseAll : ∀ ts : List Concrete, ofRoseAll (roseAll ts) = ts
  | [] => rfl
  | t :: ts => by rw [roseAll, ofRoseAll, ofRose_rose t, ofRoseAll_roseAll ts]

end

mutual

theorem rose_ofRose : ∀ t : Rose Label, (ofRose t).rose = t
  | .node l ts => by rw [ofRose, rose, roseAll_ofRoseAll ts]

theorem roseAll_ofRoseAll : ∀ ts : List (Rose Label), roseAll (ofRoseAll ts) = ts
  | [] => rfl
  | t :: ts => by rw [ofRoseAll, roseAll, rose_ofRose t, roseAll_ofRoseAll ts]

end

theorem ofRoseAll_eq_map (ts : List (Rose Label)) : ofRoseAll ts = ts.map ofRose := by
  induction ts with
  | nil => rfl
  | cons t ts ih => rw [ofRoseAll, ih, List.map_cons]

@[simp] theorem label_ofRose (t : Rose Label) : (ofRose t).label = t.value := by
  cases t with
  | node l ts => rw [ofRose, label, Rose.value_node]

theorem children_ofRose (t : Rose Label) : (ofRose t).children = t.children.map ofRose := by
  cases t with
  | node l ts => rw [ofRose, children, ofRoseAll_eq_map, Rose.children_node]

theorem namedChildren_ofRose (t : Rose Label) :
    (ofRose t).namedChildren = (t.kept Label.named).map ofRose := by
  rw [namedChildren, children_ofRose, List.filter_map, Rose.kept]
  congr 2
  funext u
  exact congrArg Label.named (label_ofRose u)

/-! ## The numbering is the order of the visits -/

theorem size_ofRose (t : Rose Label) : (ofRose t).size = (t.pruned Label.named).size := by
  induction t using Rose.induct with
  | step l ts ih =>
      have hall : sizeNamed (ofRoseAll ts) =
          Rose.reach Label.named (ts.filter (Label.named ·.value)) := by
        induction ts with
        | nil => rfl
        | cons t ts ihs =>
            have hts := ihs fun u hu => ih u (List.mem_cons_of_mem t hu)
            rw [ofRoseAll, sizeNamed, hts, label_ofRose]
            cases h : t.value.named with
            | true =>
                rw [if_pos rfl, List.filter_cons_of_pos (by simpa using h), Rose.reach_cons,
                  ih t List.mem_cons_self]
            | false =>
                rw [if_neg Bool.false_ne_true, List.filter_cons_of_neg (by simpa using h),
                  Nat.zero_add]
      rw [ofRose, size, hall, Rose.size_pruned_eq]
      show Rose.reach Label.named (ts.filter (Label.named ·.value)) + 1 =
        Rose.reach Label.named ((Rose.node l ts).kept Label.named) + 1
      rfl

theorem childIndices_ofRose (i : Nat) (ts : List (Rose Label)) :
    childIndices i (ts.map ofRose) =
      Rose.numbers Label.named i (ts.filter (Label.named ·.value)) := by
  induction ts generalizing i with
  | nil => rfl
  | cons t ts ih =>
      rw [List.map_cons, childIndices, label_ofRose, size_ofRose, ih, ih]
      cases h : t.value.named with
      | true => rw [if_pos rfl, List.filter_cons_of_pos (by simpa using h), Rose.numbers]
      | false => rw [if_neg Bool.false_ne_true, List.filter_cons_of_neg (by simpa using h)]

/-- What is numbered at visit `i`. -/
def placedAt (i : Nat) (v : Visit Label) : Placed :=
  ⟨i, v.parent, Rose.numbers Label.named (i + 1) (v.tree.kept Label.named), ofRose v.tree⟩

/-- The named nodes of a tree are numbered in the order in which they are visited. -/
theorem placed_ofRose (p : Option Nat) (i : Nat) (t : Rose Label) :
    placed p i (ofRose t) =
      (Rose.visits Label.named [⟨t, p⟩] i).mapIdx fun k v => placedAt (i + k) v := by
  induction t using Rose.induct generalizing p i with
  | step l ts ih =>
      -- The same of a list of trees below the node, of which the named ones are visited.
      have hall : ∀ j, placedList i j (ts.map ofRose) =
          (Rose.visits Label.named
            ((ts.filter (Label.named ·.value)).map (⟨·, some i⟩)) j).mapIdx
            fun k v => placedAt (j + k) v := by
        induction ts with
        | nil =>
            intro j
            rw [List.map_nil, List.filter_nil, List.map_nil, Rose.visits_nil]
            rfl
        | cons t ts ihs =>
            intro j
            have hts := ihs fun u hu => ih u (List.mem_cons_of_mem t hu)
            rw [List.map_cons, placedList, label_ofRose, hts, hts, size_ofRose,
              ih t List.mem_cons_self]
            cases h : t.value.named with
            | true =>
                rw [if_pos rfl, List.filter_cons_of_pos (by simpa using h), List.map_cons,
                  Rose.visits_cons_eq_append _ (List.map _ _) j, List.mapIdx_append,
                  Rose.length_visits_singleton]
                simp only [Nat.add_comm, Nat.add_left_comm]
            | false => rw [if_neg Bool.false_ne_true, List.filter_cons_of_neg (by simpa using h)]
      rw [ofRose, placed, ofRoseAll_eq_map, childIndices_ofRose, hall, Rose.visits_singleton,
        List.mapIdx_cons, placedAt, ofRose, ofRoseAll_eq_map]
      simp only [Nat.add_assoc, Nat.add_comm, Nat.add_left_comm]
      rfl

theorem placed_eq_walk (t : Concrete) :
    t.placed none 0 = (Rose.walk Label.named t.rose).mapIdx placedAt := by
  have h := placed_ofRose none 0 t.rose
  rw [ofRose_rose] at h
  rw [h, Rose.walk]
  simp only [Nat.zero_add]

end Concrete

end GuardClause
