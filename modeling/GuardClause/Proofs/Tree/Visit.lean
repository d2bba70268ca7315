import GuardClause.Proofs.Tree.Rose

/-!
# Visiting a tree with a stack

The kept nodes of a tree are visited one after another with a stack of trees that still wait: the
tree on top is visited and leaves the stack, and its kept subtrees are pushed, the last one first.
A visit has the number of visits before it, and each tree waits with the number of its parent.

The stack is what makes this order hard to reason about, so it is dealt with once. Visiting a stack
is visiting its trees one by one (`visits_append`), hence the visits from any number on begin with
the visits of the tree found there (`drop_visits`). From these two follow the numbers of the
subtrees (`getElem?_numbers`), the parents (`parent_cases`) and the stretch of numbers that a
subtree takes up (`descends_iff`).
-/

namespace GuardClause

/-- A tree that waits for a visit or is visited, with the number of its parent. -/
structure Visit (α : Type) where
  tree : Rose α
  parent : Option Nat

/-- The visit of the tree with its values changed by `f`. -/
def Visit.map {α β : Type} (f : α → β) (v : Visit α) : Visit β := ⟨v.tree.map f, v.parent⟩

namespace Rose

variable {α β : Type}

/-- The stack with the subtrees of visit `i` on it, the first one on top. -/
def push (i : Nat) (ts : List (Rose α)) (stack : List (Visit α)) : List (Visit α) :=
  ts.reverse.foldl (fun s t => ⟨t, some i⟩ :: s) stack

theorem push_eq_append (i : Nat) (ts : List (Rose α)) (stack : List (Visit α)) :
    push i ts stack = ts.map (⟨·, some i⟩) ++ stack := by
  rw [push, List.foldl_reverse]
  induction ts with
  | nil => rfl
  | cons t ts ih => rw [List.foldr_cons, ih, List.map_cons, List.cons_append]

theorem map_tree_siblings (p : Option Nat) (ts : List (Rose α)) :
    (ts.map fun t => (⟨t, p⟩ : Visit α)).map (·.tree) = ts := by
  rw [List.map_map]
  exact List.map_id ts

/-- The number of nodes that wait on a stack. -/
def waiting (stack : List (Visit α)) : Nat := (stack.map (·.tree.size)).sum

theorem waiting_push_lt (keep : α → Bool) (i : Nat) (v : Visit α) (stack : List (Visit α)) :
    waiting (push i (v.tree.kept keep) stack) < waiting (v :: stack) := by
  have h := sum_size_kept_lt keep v.tree
  rw [waiting, waiting, push_eq_append, List.map_append, List.sum_append, List.map_map,
    List.map_cons, List.sum_cons]
  exact Nat.add_lt_add_right h _

/-- The visits of a stack, when the next visit has number `i`. -/
def visits (keep : α → Bool) : List (Visit α) → Nat → List (Visit α)
  | [], _ => []
  | v :: stack, i => v :: visits keep (push i (v.tree.kept keep) stack) (i + 1)
termination_by stack => waiting stack
decreasing_by exact waiting_push_lt keep i v stack

/-- The number of visits that the trees of a list take. -/
def reach (keep : α → Bool) (ts : List (Rose α)) : Nat :=
  (ts.map fun t => (t.pruned keep).size).sum

/-- The numbers of the trees of a list that are visited one after another from number `i` on. -/
def numbers (keep : α → Bool) (i : Nat) : List (Rose α) → List Nat
  | [] => []
  | t :: ts => i :: numbers keep (i + (t.pruned keep).size) ts

variable {keep : α → Bool}

theorem visits_nil (i : Nat) : visits keep ([] : List (Visit α)) i = [] := by
  rw [visits]

theorem visits_cons (v : Visit α) (stack : List (Visit α)) (i : Nat) :
    visits keep (v :: stack) i =
      v :: visits keep ((v.tree.kept keep).map (⟨·, some i⟩) ++ stack) (i + 1) := by
  rw [visits, push_eq_append]

theorem reach_cons (t : Rose α) (ts : List (Rose α)) :
    reach keep (t :: ts) = (t.pruned keep).size + reach keep ts := by
  rw [reach, List.map_cons, List.sum_cons, reach]

theorem reach_append (ts us : List (Rose α)) :
    reach keep (ts ++ us) = reach keep ts + reach keep us := by
  rw [reach, List.map_append, List.sum_append, reach, reach]

theorem size_pruned_eq (t : Rose α) : (t.pruned keep).size = reach keep (t.kept keep) + 1 :=
  size_pruned keep t

/-! ## A stack is visited tree by tree -/

theorem length_visits (stack : List (Visit α)) (i : Nat) :
    (visits keep stack i).length = reach keep (stack.map (·.tree)) := by
  fun_induction visits keep stack i with
  | case1 i => rfl
  | case2 v stack i ih =>
      rw [push_eq_append, List.map_append, map_tree_siblings, reach_append] at ih
      rw [push_eq_append, List.length_cons, ih, List.map_cons, reach_cons, size_pruned_eq]
      omega

theorem visits_append (stack later : List (Visit α)) (i : Nat) :
    visits keep (stack ++ later) i =
      visits keep stack i ++ visits keep later (i + reach keep (stack.map (·.tree))) := by
  fun_induction visits keep stack i with
  | case1 i => rfl
  | case2 v stack i ih =>
      rw [push_eq_append, List.append_assoc, List.map_append, map_tree_siblings,
        reach_append] at ih
      rw [List.cons_append, visits_cons, ih, push_eq_append, List.map_cons, reach_cons,
        size_pruned_eq, List.cons_append]
      have hi : i + 1 + (reach keep (v.tree.kept keep) + reach keep (stack.map (·.tree))) =
          i + (reach keep (v.tree.kept keep) + 1 + reach keep (stack.map (·.tree))) := by omega
      rw [hi]

theorem length_visits_singleton (v : Visit α) (i : Nat) :
    (visits keep [v] i).length = (v.tree.pruned keep).size := by
  rw [length_visits, List.map_cons, reach_cons]
  show (v.tree.pruned keep).size + 0 = (v.tree.pruned keep).size
  rw [Nat.add_zero]

/-- The visits of one tree are the visit of its root and those of its kept subtrees. -/
theorem visits_singleton (v : Visit α) (i : Nat) :
    visits keep [v] i = v :: visits keep ((v.tree.kept keep).map (⟨·, some i⟩)) (i + 1) := by
  rw [visits_cons, List.append_nil]

theorem visits_cons_eq_append (v : Visit α) (stack : List (Visit α)) (i : Nat) :
    visits keep (v :: stack) i =
      visits keep [v] i ++ visits keep stack (i + (v.tree.pruned keep).size) := by
  have h : visits keep ([v] ++ stack) i = _ := visits_append [v] stack i
  rwa [List.map_cons, reach_cons] at h

/-- The visits from any number on begin with the visits of the tree found there. -/
theorem drop_visits {stack : List (Visit α)} {i k : Nat} {v : Visit α}
    (h : (visits keep stack i)[k]? = some v) :
    ∃ later, (visits keep stack i).drop k = visits keep [v] (i + k) ++ later := by
  fun_induction visits keep stack i generalizing k with
  | case1 i => simp at h
  | case2 u stack i ih =>
      cases k with
      | zero =>
          -- What lies below the tree on the stack is visited after it.
          rw [List.getElem?_cons_zero, Option.some.injEq] at h
          subst h
          refine ⟨visits keep stack (i + (u.tree.pruned keep).size), ?_⟩
          rw [List.drop_zero, push_eq_append, ← visits_cons, visits_cons_eq_append, Nat.add_zero]
      | succ k =>
          rw [List.getElem?_cons_succ] at h
          obtain ⟨later, hl⟩ := ih h
          refine ⟨later, ?_⟩
          rw [List.drop_succ_cons, hl, Nat.add_right_comm, Nat.add_assoc]

/-! ## Numbers -/

theorem numbers_append (i : Nat) (ts us : List (Rose α)) :
    numbers keep i (ts ++ us) = numbers keep i ts ++ numbers keep (i + reach keep ts) us := by
  induction ts generalizing i with
  | nil => rfl
  | cons t ts ih =>
      rw [List.cons_append, numbers, ih, numbers, List.cons_append, reach_cons, Nat.add_assoc]

theorem length_numbers (i : Nat) (ts : List (Rose α)) :
    (numbers keep i ts).length = ts.length := by
  induction ts generalizing i with
  | nil => rfl
  | cons t ts ih => rw [numbers, List.length_cons, ih, List.length_cons]

theorem mem_numbers {i c : Nat} {ts : List (Rose α)} (h : c ∈ numbers keep i ts) :
    i ≤ c ∧ c < i + reach keep ts := by
  induction ts generalizing i with
  | nil => exact absurd h List.not_mem_nil
  | cons t ts ih =>
      have ht := (t.pruned keep).size_pos
      rw [numbers, List.mem_cons] at h
      rw [reach_cons]
      rcases h with rfl | h
      · omega
      · have := ih h
        omega

theorem numbers_pairwise (i : Nat) (ts : List (Rose α)) :
    (numbers keep i ts).Pairwise (· < ·) := by
  induction ts generalizing i with
  | nil => exact List.Pairwise.nil
  | cons t ts ih =>
      refine List.pairwise_cons.mpr ⟨?_, ih _⟩
      intro c hc
      have ht := (t.pruned keep).size_pos
      have := mem_numbers hc
      omega

/-- Trees that are visited one after another are found at their numbers. -/
theorem getElem?_numbers (p : Option Nat) (i : Nat) (ts : List (Rose α)) :
    List.Forall₂
      (fun c t => i ≤ c ∧ (visits keep (ts.map (⟨·, p⟩)) i)[c - i]? = some ⟨t, p⟩)
      (numbers keep i ts) ts := by
  induction ts generalizing i with
  | nil => exact List.Forall₂.nil
  | cons t ts ih =>
      refine List.Forall₂.cons ⟨Nat.le_refl i, ?_⟩ ((ih _).imp ?_)
      · rw [List.map_cons, visits_cons, Nat.sub_self, List.getElem?_cons_zero]
      · rintro c u ⟨hle, hc⟩
        have hlen : (visits keep [⟨t, p⟩] i).length = (t.pruned keep).size :=
          length_visits_singleton ⟨t, p⟩ i
        refine ⟨by omega, ?_⟩
        rw [List.map_cons, visits_cons_eq_append,
          List.getElem?_append_right (by rw [hlen]; omega), hlen, ← hc]
        congr 1
        omega

/-- The kept subtrees of a visited tree are visited at their numbers. -/
theorem getElem?_children {stack : List (Visit α)} {i k : Nat} {v : Visit α}
    (h : (visits keep stack i)[k]? = some v) :
    List.Forall₂
      (fun c t => i ≤ c ∧ (visits keep stack i)[c - i]? = some ⟨t, some (i + k)⟩)
      (numbers keep (i + k + 1) (v.tree.kept keep)) (v.tree.kept keep) := by
  obtain ⟨later, hl⟩ := drop_visits h
  rw [visits_singleton] at hl
  apply (getElem?_numbers (some (i + k)) (i + k + 1) _).imp
  rintro c t ⟨hle, hc⟩
  refine ⟨by omega, ?_⟩
  have hk : c - i = k + (c - (i + k + 1) + 1) := by omega
  rw [hk, ← List.getElem?_drop, hl, List.cons_append, List.getElem?_cons_succ,
    List.getElem?_append_left (List.getElem?_eq_some_iff.mp hc).1, hc]

/-- Every visit is one of the stack, or its parent was visited before and numbers it among its
kept subtrees. -/
theorem parent_cases {stack : List (Visit α)} {i k : Nat} {v : Visit α}
    (h : (visits keep stack i)[k]? = some v) :
    (v, i + k) ∈ stack.zip (numbers keep i (stack.map (·.tree))) ∨
      ∃ j u, j < k ∧ (visits keep stack i)[j]? = some u ∧ v.parent = some (i + j) ∧
        i + k ∈ numbers keep (i + j + 1) (u.tree.kept keep) := by
  fun_induction visits keep stack i generalizing k with
  | case1 i => simp at h
  | case2 w stack i ih =>
      cases k with
      | zero =>
          rw [List.getElem?_cons_zero, Option.some.injEq] at h
          subst h
          exact Or.inl (by simp [numbers])
      | succ k =>
          rw [List.getElem?_cons_succ] at h
          rcases ih h with hroot | ⟨j, u, hj, hu, hv, hk⟩
          · -- On the pushed stack the subtrees of `w` come first, then what waited before.
            rw [push_eq_append, List.map_append, map_tree_siblings, numbers_append,
              List.zip_append (by rw [List.length_map, length_numbers]), List.mem_append] at hroot
            have hk : i + 1 + k = i + (k + 1) := by omega
            rcases hroot with hkid | hlater
            · obtain ⟨hv, hn⟩ := List.of_mem_zip hkid
              obtain ⟨t, -, rfl⟩ := List.mem_map.mp hv
              exact Or.inr ⟨0, w, by omega, by rw [List.getElem?_cons_zero], rfl, by rwa [← hk]⟩
            · apply Or.inl
              rw [List.map_cons, numbers, List.zip_cons_cons, ← hk]
              have hi : i + (w.tree.pruned keep).size =
                  i + 1 + reach keep (w.tree.kept keep) := by
                rw [size_pruned_eq]
                omega
              rw [hi]
              exact List.mem_cons_of_mem _ hlater
          · refine Or.inr ⟨j + 1, u, by omega, by rwa [List.getElem?_cons_succ], ?_, ?_⟩
            · rw [hv]
              congr 1
              omega
            · have h1 : i + 1 + j + 1 = i + (j + 1) + 1 := by omega
              have h2 : i + 1 + k = i + (k + 1) := by omega
              rwa [h1, h2] at hk

/-! ## The visits of one tree -/

/-- The visits of a tree, which has no parent. -/
def walk (keep : α → Bool) (t : Rose α) : List (Visit α) := visits keep [⟨t, none⟩] 0

theorem length_walk (t : Rose α) : (walk keep t).length = (t.pruned keep).size :=
  length_visits_singleton ⟨t, none⟩ 0

theorem walk_zero (t : Rose α) : (walk keep t)[0]? = some ⟨t, none⟩ := by
  rw [walk, visits_cons, List.getElem?_cons_zero]

theorem walk_parent_cases {t : Rose α} {k : Nat} {v : Visit α} (h : (walk keep t)[k]? = some v) :
    (k = 0 ∧ v.parent = none) ∨
      ∃ j u, j < k ∧ (walk keep t)[j]? = some u ∧ v.parent = some j ∧
        k ∈ numbers keep (j + 1) (u.tree.kept keep) := by
  rcases parent_cases h with hroot | ⟨j, u, hj, hu, hv, hk⟩
  · simp only [List.map_cons, List.map_nil, numbers, List.zip_cons_cons, List.zip_nil_left,
      List.mem_singleton, Prod.mk.injEq] at hroot
    obtain ⟨rfl, hk⟩ := hroot
    exact Or.inl ⟨by omega, rfl⟩
  · rw [Nat.zero_add] at hv hk
    rw [Nat.zero_add] at hk
    exact Or.inr ⟨j, u, hj, hu, hv, hk⟩

theorem walk_parent_eq_none_iff {t : Rose α} {k : Nat} {v : Visit α}
    (h : (walk keep t)[k]? = some v) : v.parent = none ↔ k = 0 := by
  rcases walk_parent_cases h with ⟨hk, hv⟩ | ⟨j, u, hj, -, hv, -⟩
  · constructor
    · intro _
      exact hk
    · intro _
      exact hv
  · rw [hv]
    constructor
    · intro hn
      simp at hn
    · intro h0
      omega

/-- The kept subtrees of a visited tree are visited, each with that tree as its parent. -/
theorem walk_children {t : Rose α} {j : Nat} {u : Visit α} (h : (walk keep t)[j]? = some u) :
    List.Forall₂ (fun c s => (walk keep t)[c]? = some ⟨s, some j⟩)
      (numbers keep (j + 1) (u.tree.kept keep)) (u.tree.kept keep) := by
  have hc := getElem?_children h
  rw [Nat.zero_add] at hc
  apply hc.imp
  intro c s hs
  exact hs.2

theorem walk_parent_eq_some_iff {t : Rose α} {j k : Nat} {u v : Visit α}
    (hu : (walk keep t)[j]? = some u) (hv : (walk keep t)[k]? = some v) :
    v.parent = some j ↔ k ∈ numbers keep (j + 1) (u.tree.kept keep) := by
  constructor
  · intro hp
    rcases walk_parent_cases hv with ⟨-, hn⟩ | ⟨i, w, -, hw, hi, hk⟩
    · rw [hn] at hp
      simp at hp
    · obtain rfl : i = j := Option.some.inj (hi.symm.trans hp)
      rw [hu, Option.some.injEq] at hw
      rwa [hw]
  · intro hk
    obtain ⟨n, hn, rfl⟩ := List.mem_iff_getElem.mp hk
    have hs := (List.forall₂_iff_get.mp (walk_children hu)).2 n hn
      (by rwa [← length_numbers (j + 1) (u.tree.kept keep)])
    rw [List.get_eq_getElem, hv, Option.some.injEq] at hs
    rw [hs]

/-! ## Descendants -/

/-- Visit `j` is the parent of visit `k`. -/
def Begets (w : List (Visit α)) (j k : Nat) : Prop := ∃ v, w[k]? = some v ∧ v.parent = some j

theorem getElem?_visits_singleton {t : Rose α} {k c : Nat} {v : Visit α}
    (hv : (walk keep t)[k]? = some v) (hk : k ≤ c) (hc : c < k + (v.tree.pruned keep).size) :
    (visits keep [v] k)[c - k]? = (walk keep t)[c]? := by
  obtain ⟨later, hl⟩ := drop_visits hv
  rw [Nat.zero_add] at hl
  have hlen : (visits keep [v] k).length = (v.tree.pruned keep).size :=
    length_visits_singleton v k
  rw [walk, ← Nat.add_sub_cancel' hk, ← List.getElem?_drop, hl, Nat.add_sub_cancel_left,
    List.getElem?_append_left (by omega)]

/-- The numbers of a subtree end with those of the tree that it lies in. -/
theorem le_of_visits_singleton {v u : Visit α} {i k : Nat}
    (h : (visits keep [v] i)[k]? = some u) :
    k + (u.tree.pruned keep).size ≤ (v.tree.pruned keep).size := by
  obtain ⟨later, hl⟩ := drop_visits h
  have hlen := congrArg List.length hl
  have hk := (List.getElem?_eq_some_iff.mp h).1
  rw [List.length_drop, List.length_append, length_visits_singleton,
    length_visits_singleton] at hlen
  rw [length_visits_singleton] at hk
  omega

theorem descends_of_lt {t : Rose α} {k : Nat} {v : Visit α} (hv : (walk keep t)[k]? = some v)
    (c : Nat) (hk : k ≤ c) (hc : c < k + (v.tree.pruned keep).size) :
    Relation.ReflTransGen (Begets (walk keep t)) k c := by
  induction c using Nat.strongRecOn with
  | ind c ih =>
      rcases Nat.eq_or_lt_of_le hk with rfl | hlt
      · exact Relation.ReflTransGen.refl
      · have hlen : (visits keep [v] k).length = (v.tree.pruned keep).size :=
          length_visits_singleton v k
        obtain ⟨u, hu⟩ : ∃ u, (visits keep [v] k)[c - k]? = some u :=
          ⟨_, List.getElem?_eq_getElem (by omega)⟩
        have hcw := getElem?_visits_singleton hv hk hc
        -- The parent of `c` lies in the same stretch, where the induction reaches it.
        rcases parent_cases hu with hroot | ⟨j, w, hj, -, hp, -⟩
        · simp only [List.map_cons, List.map_nil, numbers, List.zip_cons_cons, List.zip_nil_left,
            List.mem_singleton, Prod.mk.injEq] at hroot
          omega
        · exact (ih (k + j) (by omega) (by omega) (by omega)).tail ⟨u, hcw ▸ hu, hp⟩

/-- The descendants of visit `k` and itself are the visits of the tree found there: a stretch of
numbers that begins with `k`. -/
theorem descends_iff {t : Rose α} {k : Nat} {v : Visit α} (hv : (walk keep t)[k]? = some v)
    (c : Nat) :
    Relation.ReflTransGen (Begets (walk keep t)) k c ↔
      k ≤ c ∧ c < k + (v.tree.pruned keep).size := by
  constructor
  · intro h
    induction h with
    | refl =>
        have := (v.tree.pruned keep).size_pos
        omega
    | @tail b c _ hbc ih =>
        obtain ⟨hb, hbs⟩ := ih
        obtain ⟨u, hu, hp⟩ := hbc
        rcases walk_parent_cases hu with ⟨-, hn⟩ | ⟨j, w, -, hw, hj, hc⟩
        · rw [hn] at hp
          simp at hp
        · -- The stretch of a child lies inside that of its parent.
          obtain rfl : j = b := Option.some.inj (hj.symm.trans hp)
          have hle := le_of_visits_singleton ((getElem?_visits_singleton hv hb hbs).trans hw)
          have hrange := mem_numbers hc
          rw [size_pruned_eq w.tree] at hle
          omega
  · rintro ⟨hk, hc⟩
    exact descends_of_lt hv c hk hc

/-! ## What is visited -/

theorem map_value_visits (stack : List (Visit α)) (i : Nat) :
    (visits keep stack i).map (·.tree.value) =
      (stack.map fun v => v.tree.pruned keep).flatMap preorder := by
  fun_induction visits keep stack i with
  | case1 i => rfl
  | case2 v stack i ih =>
      rw [List.map_cons, ih, push_eq_append, List.map_append, List.map_map, List.flatMap_append,
        List.map_cons, List.flatMap_cons, pruned_eq_node keep v.tree, preorder_node,
        List.cons_append]
      rfl

/-- The values visited are those of the pruned tree in pre-order. -/
theorem map_value_walk (t : Rose α) :
    (walk keep t).map (·.tree.value) = (t.pruned keep).preorder := by
  rw [walk, map_value_visits, List.map_cons, List.map_nil, List.flatMap_cons, List.flatMap_nil,
    List.append_nil]

/-! ## Nothing is visited twice -/

/-- The values of the trees of a stack, kept or not. -/
def contents (stack : List (Visit α)) : List α := stack.flatMap (·.tree.preorder)

theorem contents_append (stack later : List (Visit α)) :
    contents (stack ++ later) = contents stack ++ contents later :=
  List.flatMap_append

theorem contents_siblings (p : Option Nat) (ts : List (Rose α)) :
    contents (ts.map (⟨·, p⟩)) = ts.flatMap preorder := by
  rw [contents, List.flatMap_map]

theorem contents_cons (v : Visit α) (stack : List (Visit α)) :
    contents (v :: stack) =
      v.tree.value :: (v.tree.children.flatMap preorder ++ contents stack) := by
  rw [contents, List.flatMap_cons]
  cases v.tree with
  | node a ts => rw [preorder_node, value_node, children_node, List.cons_append, contents]

theorem contents_push_subperm (v : Visit α) (stack : List (Visit α)) (i : Nat) :
    List.Subperm (contents (push i (v.tree.kept keep) stack))
      (v.tree.children.flatMap preorder ++ contents stack) := by
  rw [push_eq_append, contents_append, contents_siblings]
  exact ((List.filter_sublist.flatMap preorder).append_right _).subperm

/-- Every visit is of a node of its own. -/
theorem visits_subperm (stack : List (Visit α)) (i : Nat) :
    List.Subperm ((visits keep stack i).map (·.tree.value)) (contents stack) := by
  fun_induction visits keep stack i with
  | case1 i => exact List.nil_subperm
  | case2 v stack i ih =>
      rw [List.map_cons, contents_cons, List.subperm_cons]
      exact ih.trans (contents_push_subperm v stack i)

/-- A subtree that is not kept is none of the visits. -/
theorem dropped_subperm {stack : List (Visit α)} {i k : Nat} {v : Visit α} {t : Rose α}
    (hv : (visits keep stack i)[k]? = some v) (ht : t ∈ v.tree.children)
    (hkeep : keep t.value = false) :
    List.Subperm (t.value :: (visits keep stack i).map (·.tree.value)) (contents stack) := by
  fun_induction visits keep stack i generalizing k with
  | case1 i => simp at hv
  | case2 u stack i ih =>
      rw [List.map_cons, contents_cons]
      refine (List.Perm.swap _ _ _).subperm.trans ((List.subperm_cons _).mpr ?_)
      cases k with
      | zero =>
          rw [List.getElem?_cons_zero, Option.some.injEq] at hv
          subst hv
          -- The value comes from the dropped subtrees, the visits from the kept ones.
          have hdrop : List.Subperm [t.value]
              ((u.tree.children.filter fun s => !keep s.value).flatMap preorder) := by
            refine List.singleton_subperm_iff.mpr (List.mem_flatMap.mpr ⟨t, ?_, ?_⟩)
            · rw [List.mem_filter, hkeep]
              exact ⟨ht, rfl⟩
            · cases t with
              | node a ts => rw [preorder_node, value_node]; exact List.mem_cons_self
          have hsplit := ((List.filter_append_perm (keep ·.value) u.tree.children).flatMap_right
            preorder).append_right (contents stack)
          refine (hdrop.append (visits_subperm _ _)).trans (List.Perm.subperm ?_)
          rw [push_eq_append, contents_append, contents_siblings]
          refine List.Perm.trans ?_ hsplit
          rw [List.flatMap_append, ← List.append_assoc]
          exact List.perm_append_comm.append_right _
      | succ k =>
          rw [List.getElem?_cons_succ] at hv
          exact (ih hv).trans (contents_push_subperm u stack i)

/-! ## Changing the values -/

theorem kept_map (f : α → β) (keep : β → Bool) (t : Rose α) :
    (t.map f).kept keep = (t.kept fun a => keep (f a)).map (map f) := by
  rw [kept, kept, children_map, List.filter_map]
  congr 2
  funext u
  exact congrArg keep (value_map f u)

theorem visits_map (f : α → β) (keep : β → Bool) (stack : List (Visit α)) (i : Nat) :
    visits keep (stack.map (Visit.map f)) i =
      (visits (fun a => keep (f a)) stack i).map (Visit.map f) := by
  fun_induction visits (fun a => keep (f a)) stack i with
  | case1 i => rw [List.map_nil, visits_nil]
  | case2 v stack i ih =>
      rw [push_eq_append, List.map_append, List.map_map] at ih
      rw [List.map_cons, visits_cons, List.map_cons, push_eq_append, ← ih, Visit.map, kept_map,
        List.map_map]
      rfl

theorem walk_map (f : α → β) (keep : β → Bool) (t : Rose α) :
    walk keep (t.map f) = (walk (fun a => keep (f a)) t).map (Visit.map f) :=
  visits_map f keep [⟨t, none⟩] 0

end Rose

end GuardClause
