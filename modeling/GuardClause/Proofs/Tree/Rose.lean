import Mathlib

/-!
# Ordered trees

An ordered tree carries a value at every node and any number of subtrees below it. Syntax is
compared as ordered trees: what a parser hands over, that tree without the subtrees that are not
kept (`Rose.pruned`), and what an arena spells out when its links are followed.

Every operation recurses over a tree and its list of subtrees at once. Next to each one stands the
equation that names the list half in terms of `List`, and `Rose.induct` is the induction that fits
these equations.
-/

namespace GuardClause

/-- An ordered tree with a value at every node. -/
inductive Rose (α : Type) where
  | node (value : α) (children : List (Rose α))

namespace Rose

variable {α β : Type}

/-- The value at the root. -/
def value : Rose α → α
  | node a _ => a

/-- The subtrees below the root. -/
def children : Rose α → List (Rose α)
  | node _ ts => ts

@[simp] theorem value_node (a : α) (ts : List (Rose α)) : (node a ts).value = a := rfl

@[simp] theorem children_node (a : α) (ts : List (Rose α)) : (node a ts).children = ts := rfl

mutual

theorem induct {motive : Rose α → Prop}
    (step : ∀ a ts, (∀ t ∈ ts, motive t) → motive (node a ts)) : ∀ t, motive t
  | node a ts => step a ts (inductAll step ts)

theorem inductAll {motive : Rose α → Prop}
    (step : ∀ a ts, (∀ t ∈ ts, motive t) → motive (node a ts)) :
    ∀ ts : List (Rose α), ∀ t ∈ ts, motive t
  | [], t, h => absurd h List.not_mem_nil
  | s :: ts, t, h => by
      rcases List.mem_cons.mp h with h | h
      · rw [h]
        exact induct step s
      · exact inductAll step ts t h

end

/-! ## Changing the values -/

mutual

/-- The tree with every value changed by `f`. -/
def map (f : α → β) : Rose α → Rose β
  | node a ts => node (f a) (mapAll f ts)

/-- The trees with every value changed by `f`. -/
def mapAll (f : α → β) : List (Rose α) → List (Rose β)
  | [] => []
  | t :: ts => map f t :: mapAll f ts

end

theorem mapAll_eq_map (f : α → β) (ts : List (Rose α)) : mapAll f ts = ts.map (map f) := by
  induction ts with
  | nil => rfl
  | cons t ts ih => rw [mapAll, ih, List.map_cons]

@[simp] theorem map_node (f : α → β) (a : α) (ts : List (Rose α)) :
    (node a ts).map f = node (f a) (ts.map (map f)) := by
  rw [map, mapAll_eq_map]

@[simp] theorem value_map (f : α → β) (t : Rose α) : (t.map f).value = f t.value := by
  cases t with
  | node a ts => rw [map_node, value_node, value_node]

theorem children_map (f : α → β) (t : Rose α) :
    (t.map f).children = t.children.map (map f) := by
  cases t with
  | node a ts => rw [map_node, children_node, children_node]

/-! ## Leaving subtrees out -/

mutual

/-- The tree without the subtrees whose root is not kept. The root itself always stays. -/
def pruned (keep : α → Bool) : Rose α → Rose α
  | node a ts => node a (prunedAll keep ts)

/-- The kept trees of a list, each without the subtrees whose root is not kept. -/
def prunedAll (keep : α → Bool) : List (Rose α) → List (Rose α)
  | [] => []
  | t :: ts => if keep t.value then pruned keep t :: prunedAll keep ts else prunedAll keep ts

end

/-- The subtrees below the root whose roots are kept. -/
def kept (keep : α → Bool) (t : Rose α) : List (Rose α) := t.children.filter (keep ·.value)

theorem prunedAll_eq_map (keep : α → Bool) (ts : List (Rose α)) :
    prunedAll keep ts = (ts.filter (keep ·.value)).map (pruned keep) := by
  induction ts with
  | nil => rfl
  | cons t ts ih =>
      rw [prunedAll, ih]
      cases h : keep t.value <;> simp [h]

theorem pruned_eq_node (keep : α → Bool) (t : Rose α) :
    t.pruned keep = node t.value ((t.kept keep).map (pruned keep)) := by
  cases t with
  | node a ts => rw [pruned, prunedAll_eq_map, kept, value_node, children_node]

/-! ## Nodes in order -/

mutual

/-- The values in pre-order: a node comes before its descendants and those before its later
siblings. -/
def preorder : Rose α → List α
  | node a ts => a :: preorderAll ts

/-- The values of the trees one after another, each in pre-order. -/
def preorderAll : List (Rose α) → List α
  | [] => []
  | t :: ts => preorder t ++ preorderAll ts

end

theorem preorderAll_eq_flatMap (ts : List (Rose α)) : preorderAll ts = ts.flatMap preorder := by
  induction ts with
  | nil => rfl
  | cons t ts ih => rw [preorderAll, ih, List.flatMap_cons]

@[simp] theorem preorder_node (a : α) (ts : List (Rose α)) :
    (node a ts).preorder = a :: ts.flatMap preorder := by
  rw [preorder, preorderAll_eq_flatMap]

/-- The number of nodes. -/
def size (t : Rose α) : Nat := t.preorder.length

theorem size_node (a : α) (ts : List (Rose α)) : (node a ts).size = (ts.map size).sum + 1 := by
  rw [size, preorder_node, List.length_cons, List.length_flatMap]
  show (ts.map fun t => t.preorder.length).sum + 1 = (ts.map size).sum + 1
  rfl

theorem size_pos (t : Rose α) : 0 < t.size := by
  cases t with
  | node a ts => rw [size_node]; omega

theorem size_pruned (keep : α → Bool) (t : Rose α) :
    (t.pruned keep).size = ((t.kept keep).map fun u => (u.pruned keep).size).sum + 1 := by
  rw [pruned_eq_node, size_node, List.map_map]
  show ((t.kept keep).map (size ∘ pruned keep)).sum + 1 = _
  rfl

/-- The subtrees of the root have fewer nodes than the tree, also when some are left out. -/
theorem sum_size_kept_lt (keep : α → Bool) (t : Rose α) :
    ((t.kept keep).map size).sum < t.size := by
  cases t with
  | node a ts =>
      have h : (((node a ts).kept keep).map size).sum ≤ (ts.map size).sum :=
        (List.filter_sublist.map size).sum_le_sum fun _ _ => Nat.zero_le _
      rw [size_node]
      omega

/-! ## Trees of one shape -/

/-- Two trees of the same shape with related values at corresponding nodes. -/
inductive Matches (R : α → β → Prop) : Rose α → Rose β → Prop where
  | node {a : α} {b : β} {ts : List (Rose α)} {us : List (Rose β)} (value : R a b)
      (children : List.Forall₂ (Matches R) ts us) : Matches R (.node a ts) (.node b us)

theorem Matches.value {R : α → β → Prop} {t : Rose α} {u : Rose β} (h : Matches R t u) :
    R t.value u.value := by
  cases h with
  | node hv hc => exact hv

theorem Matches.map_eq {γ : Type} {R : α → β → Prop} {f : α → γ} {g : β → γ}
    (hfg : ∀ a b, R a b → f a = g b) {t : Rose α} {u : Rose β} (h : Matches R t u) :
    t.map f = u.map g := by
  induction t using Rose.induct generalizing u with
  | step a ts ih =>
      obtain @⟨_, b, _, us, hv, hc⟩ := h
      -- The subtrees match one by one, so this induction is on how the two lists match.
      have hall : ts.map (map f) = us.map (map g) := by
        induction hc with
        | nil => rfl
        | @cons t u ts us htu _ ihs =>
            rw [List.map_cons, List.map_cons, ih t List.mem_cons_self htu,
              ihs fun s hs => ih s (List.mem_cons_of_mem t hs)]
      rw [map_node, map_node, hall, hfg a b hv]

/-- Corresponding nodes come in the same order. -/
theorem Matches.preorder {R : α → β → Prop} {t : Rose α} {u : Rose β} (h : Matches R t u) :
    List.Forall₂ R t.preorder u.preorder := by
  induction t using Rose.induct generalizing u with
  | step a ts ih =>
      obtain @⟨_, b, _, us, hv, hc⟩ := h
      have hall : List.Forall₂ R (ts.flatMap Rose.preorder) (us.flatMap Rose.preorder) := by
        induction hc with
        | nil => exact .nil
        | @cons t u ts us htu _ ihs =>
            rw [List.flatMap_cons, List.flatMap_cons]
            exact List.rel_append (ih t List.mem_cons_self htu)
              (ihs fun s hs => ih s (List.mem_cons_of_mem t hs))
      rw [preorder_node, preorder_node]
      exact .cons hv hall

theorem Matches.imp_of_mem {R S : α → β → Prop} {t : Rose α} {u : Rose β}
    (himp : ∀ a, ∀ b ∈ u.preorder, R a b → S a b) (h : Matches R t u) : Matches S t u := by
  induction t using Rose.induct generalizing u with
  | step a ts ih =>
      obtain @⟨_, b, _, us, hv, hc⟩ := h
      rw [preorder_node] at himp
      refine .node (himp a b List.mem_cons_self hv) ?_
      replace himp := fun a' b' hb' => himp a' b' (List.mem_cons_of_mem b hb')
      induction hc with
      | nil => exact .nil
      | @cons t u ts us htu _ ihs =>
          rw [List.flatMap_cons] at himp
          refine .cons (ih t List.mem_cons_self ?_ htu) (ihs ?_ ?_)
          · exact fun a' b' hb' => himp a' b' (List.mem_append_left _ hb')
          · exact fun s hs => ih s (List.mem_cons_of_mem t hs)
          · exact fun a' b' hb' => himp a' b' (List.mem_append_right _ hb')

/-! ## Stretches -/

/-- Every node's stretch lies inside that of its parent, and the stretches of siblings follow one
another without overlapping. -/
inductive WellNested (start stop : α → Int) : Rose α → Prop where
  | node {a : α} {ts : List (Rose α)}
      (inside : ∀ t ∈ ts, start a ≤ start t.value ∧ stop t.value ≤ stop a)
      (apart : ts.Pairwise fun t u => stop t.value ≤ start u.value)
      (below : ∀ t ∈ ts, WellNested start stop t) : WellNested start stop (.node a ts)

/-- Stretches stay well nested when their ends are moved without changing places. -/
theorem Matches.wellNested {R : α → β → Prop} {start stop : α → Int} {start' stop' : β → Int}
    (hmono : ∀ {a c b d}, R a b → R c d →
      (start' b ≤ start' d → start a ≤ start c) ∧ (stop' b ≤ stop' d → stop a ≤ stop c) ∧
      (stop' b ≤ start' d → stop a ≤ start c))
    {t : Rose α} {u : Rose β} (h : Matches R t u) (hu : u.WellNested start' stop') :
    t.WellNested start stop := by
  induction t using Rose.induct generalizing u with
  | step a ts ih =>
      obtain @⟨_, b, _, us, hv, hc⟩ := h
      obtain ⟨inside, apart, below⟩ := hu
      obtain ⟨hlen, hget⟩ := List.forall₂_iff_get.mp hc
      have hmem : ∀ t ∈ ts, ∃ u ∈ us, Matches R t u := by
        intro t ht
        obtain ⟨i, hi, rfl⟩ := List.mem_iff_getElem.mp ht
        exact ⟨us[i], List.getElem_mem _, hget i hi (hlen ▸ hi)⟩
      refine .node ?_ ?_ ?_
      · intro t ht
        obtain ⟨u, hu, htu⟩ := hmem t ht
        have hin := inside u hu
        exact ⟨(hmono hv htu.value).1 hin.1, (hmono htu.value hv).2.1 hin.2⟩
      · rw [List.pairwise_iff_getElem] at apart ⊢
        intro i j hi hj hij
        have hti := (hget i hi (hlen ▸ hi)).value
        have htj := (hget j hj (hlen ▸ hj)).value
        exact (hmono hti htj).2.2 (apart i j (hlen ▸ hi) (hlen ▸ hj) hij)
      · intro t ht
        obtain ⟨u, hu, htu⟩ := hmem t ht
        exact ih t ht htu (below u hu)

end Rose

end GuardClause
