import GuardClause.Conditional.Refactoring
import GuardClause.Proofs.Meaning.Operand

/-!
# What a conditional expression of the buffer means

A conditional expression tests its condition and then yields what the selected branch yields
(`Arena.Yields`). A branch that holds a conditional expression in parentheses is that expression;
any other branch is a leaf and yields what the fragment under its negations yields. Conditions and
leaves are never looked at through parentheses. Along with what is yielded goes the path: the
conditions that were tested and the leaf, in the order in which they were evaluated.

`Arena.unwrap` finds the conditional expression of a branch, or shows that there is none
(`WellLinked.unwrap_cases`).
-/

namespace GuardClause

variable {σ ν τ : Type}

namespace Arena

/-- A node is a certain conditional expression, perhaps in parentheses. -/
inductive Encloses (a : Arena) : Node → Node → Prop where
  | bare {q : Node} (h : q.kind = .conditional) : Encloses a q q
  | inside {n m q : Node} (hop : a.Operand .parenthesized n m) (h : Encloses a m q) :
      Encloses a n q

/-- A conditional expression is reached from a node through branches. -/
inductive Nested (a : Arena) : Node → Node → Prop where
  | here {n q : Node} (h : a.Encloses n q) : Nested a n q
  | whenTrue {n q b p : Node} (h : a.Encloses n q) (hb : a.inRole q .consequence = .ok (some b))
      (below : Nested a b p) : Nested a n p
  | whenFalse {n q b p : Node} (h : a.Encloses n q) (hb : a.inRole q .alternative = .ok (some b))
      (below : Nested a b p) : Nested a n p

/-- A conditional expression has all three parts. -/
structure Complete (a : Arena) (q : Node) : Prop where
  condition : ∃ c, a.inRole q .condition = .ok (some c)
  consequence : ∃ t, a.inRole q .consequence = .ok (some t)
  alternative : ∃ f, a.inRole q .alternative = .ok (some f)

/-- Whether a node has a child in a role. -/
def fills (a : Arena) (q : Node) (role : Role) : Bool :=
  match a.inRole q role with
  | .ok (some _) => true
  | _ => false

theorem fills_iff {a : Arena} {q : Node} {role : Role} :
    a.fills q role = true ↔ ∃ m, a.inRole q role = .ok (some m) := by
  unfold fills
  split
  · rename_i m h
    simp [h]
  · rename_i h
    simpa using h

theorem complete_iff {a : Arena} {q : Node} :
    a.Complete q ↔ a.fills q .condition = true ∧ a.fills q .consequence = true ∧
      a.fills q .alternative = true := by
  simp only [fills_iff]
  constructor
  · intro h
    exact ⟨h.condition, h.consequence, h.alternative⟩
  · rintro ⟨hc, ht, hf⟩
    exact ⟨hc, ht, hf⟩

instance (a : Arena) (q : Node) : Decidable (a.Complete q) :=
  decidable_of_iff _ complete_iff.symm

/-- A node is a conditional expression whose condition is a fragment under `k` negations. -/
structure Asks (a : Arena) (n q c : Node) (k : Nat) (f : Fragment) : Prop where
  encloses : a.Encloses n q
  condition : a.inRole q .condition = .ok (some c)
  negated : a.Negated c k f

/-- From a state a node yields a value in a new state, along a path of conditions that ends in a
leaf. -/
inductive Yields (a : Arena) (I : Meaning σ ν τ) : Node → σ → List Node → σ × ν → Prop where
  | whenTrue {n q c t : Node} {k : Nat} {f : Fragment} {s : σ} {path : List Node} {r : σ × ν}
      (h : a.Asks n q c k f) (hvalue : I.truthy (I.under k (I.eval f s)).2 = true)
      (hb : a.inRole q .consequence = .ok (some t)) (below : Yields a I t (I.eval f s).1 path r) :
      Yields a I n s (c :: path) r
  | whenFalse {n q c e : Node} {k : Nat} {f : Fragment} {s : σ} {path : List Node} {r : σ × ν}
      (h : a.Asks n q c k f) (hvalue : I.truthy (I.under k (I.eval f s)).2 = false)
      (hb : a.inRole q .alternative = .ok (some e)) (below : Yields a I e (I.eval f s).1 path r) :
      Yields a I n s (c :: path) r
  | leaf {n : Node} {k : Nat} {f : Fragment} {s : σ} (h : ∀ q, ¬ a.Encloses n q)
      (hneg : a.Negated n k f) : Yields a I n s [n] (I.under k (I.eval f s))

variable {a : Arena} {n m q p : Node}

theorem Encloses.kind_eq (h : a.Encloses n q) : q.kind = .conditional := by
  induction h with
  | bare h => exact h
  | inside _ _ ih => exact ih

theorem Encloses.unique (h : a.Encloses n q) (h' : a.Encloses n p) : q = p := by
  induction h with
  | bare hq =>
      rcases h' with - | ⟨hop, -⟩
      · rfl
      · cases hq.symm.trans hop.1
  | inside hop _ ih =>
      rcases h' with hp | ⟨hop', h'⟩
      · cases hp.symm.trans hop.1
      · obtain rfl := hop.unique hop'
        exact ih h'

theorem Encloses.mem_and_le (hw : a.WellLinked) (hn : n ∈ a.nodes) (h : a.Encloses n q) :
    q ∈ a.nodes ∧ n.index ≤ q.index := by
  induction h with
  | bare _ => exact ⟨hn, Nat.le_refl _⟩
  | inside hop _ ih =>
      obtain ⟨hm, hlt⟩ := hw.of_inRole hn hop.2
      obtain ⟨hq, hle⟩ := ih hm
      exact ⟨hq, by omega⟩

theorem Nested.mem_and_kind (hw : a.WellLinked) (hn : n ∈ a.nodes) (h : a.Nested n p) :
    p ∈ a.nodes ∧ p.kind = .conditional := by
  induction h with
  | here hq => exact ⟨(hq.mem_and_le hw hn).1, hq.kind_eq⟩
  | whenTrue hq hb _ ih => exact ih (hw.of_inRole (hq.mem_and_le hw hn).1 hb).1
  | whenFalse hq hb _ ih => exact ih (hw.of_inRole (hq.mem_and_le hw hn).1 hb).1

theorem Asks.unique {c c' : Node} {k k' : Nat} {f f' : Fragment} (h : a.Asks n q c k f)
    (h' : a.Asks n p c' k' f') : q = p ∧ c = c' ∧ k = k' ∧ f = f' := by
  obtain rfl := h.encloses.unique h'.encloses
  obtain rfl := inRole_unique h.condition h'.condition
  obtain ⟨rfl, rfl⟩ := h.negated.unique h'.negated
  exact ⟨rfl, rfl, rfl, rfl⟩

/-- A node yields one value along one path. -/
theorem Yields.unique {I : Meaning σ ν τ} {s : σ} {path path' : List Node} {r r' : σ × ν}
    (h : a.Yields I n s path r) (h' : a.Yields I n s path' r') : path' = path ∧ r' = r := by
  induction h generalizing path' r' with
  | whenTrue hask hvalue hb _ ih =>
      rcases h' with ⟨hask', -, hb', h'⟩ | ⟨hask', hvalue', -, -⟩ | ⟨hnone, -⟩
      · obtain ⟨rfl, rfl, rfl, rfl⟩ := hask.unique hask'
        obtain rfl := inRole_unique hb hb'
        obtain ⟨rfl, rfl⟩ := ih h'
        exact ⟨rfl, rfl⟩
      · obtain ⟨rfl, rfl, rfl, rfl⟩ := hask.unique hask'
        cases hvalue.symm.trans hvalue'
      · exact absurd hask.encloses (hnone _)
  | whenFalse hask hvalue hb _ ih =>
      rcases h' with ⟨hask', hvalue', -, -⟩ | ⟨hask', -, hb', h'⟩ | ⟨hnone, -⟩
      · obtain ⟨rfl, rfl, rfl, rfl⟩ := hask.unique hask'
        cases hvalue.symm.trans hvalue'
      · obtain ⟨rfl, rfl, rfl, rfl⟩ := hask.unique hask'
        obtain rfl := inRole_unique hb hb'
        obtain ⟨rfl, rfl⟩ := ih h'
        exact ⟨rfl, rfl⟩
      · exact absurd hask.encloses (hnone _)
  | leaf hnone hneg =>
      rcases h' with ⟨hask', -⟩ | ⟨hask', -⟩ | ⟨-, hneg'⟩
      · exact absurd hask'.encloses (hnone _)
      · exact absurd hask'.encloses (hnone _)
      · obtain ⟨rfl, rfl⟩ := hneg.unique hneg'
        exact ⟨rfl, rfl⟩

/-! ## Parentheses -/

theorem unwrapFuel_operand (hop : a.Operand .parenthesized n m) (fuel : Nat) :
    a.unwrapFuel (fuel + 1) n = a.unwrapFuel fuel m := by
  rw [unwrapFuel, if_pos hop.1, hop.2]
  show (Except.ok (some m) >>= _) = a.unwrapFuel fuel m
  rfl

theorem unwrapFuel_self (h : n.kind = .parenthesized → a.inRole n .operand = .ok none)
    (fuel : Nat) : a.unwrapFuel (fuel + 1) n = .ok n := by
  rw [unwrapFuel]
  by_cases hkind : n.kind = .parenthesized
  · rw [if_pos hkind, h hkind]
    rfl
  · rw [if_neg hkind]
    rfl

theorem WellLinked.unwrapFuel_cases (hw : a.WellLinked) (hn : n ∈ a.nodes) {fuel : Nat}
    (hfuel : a.bound - n.index < fuel) :
    (∃ q, a.unwrapFuel fuel n = .ok q ∧ a.Encloses n q) ∨
      ∃ m, a.unwrapFuel fuel n = .ok m ∧ m.kind ≠ .conditional ∧ ∀ q, ¬ a.Encloses n q := by
  induction fuel generalizing n with
  | zero => exact absurd hfuel (Nat.not_lt_zero _)
  | succ fuel ih =>
      rcases hw.operand_cases hn .parenthesized with ⟨m, hm, hop, hlt⟩ | hself
      · have hbound := hw.index_lt_bound hm
        rw [unwrapFuel_operand hop]
        rcases ih hm (by omega) with ⟨q, hq, hmq⟩ | ⟨k, hk, hkk, hnone⟩
        · exact Or.inl ⟨q, hq, .inside hop hmq⟩
        · refine Or.inr ⟨k, hk, hkk, ?_⟩
          intro q hq
          rcases hq with hc | ⟨hop', hmq⟩
          · cases hc.symm.trans hop.1
          · obtain rfl := hop.unique hop'
            exact hnone q hmq
      · rw [unwrapFuel_self hself]
        by_cases hc : n.kind = .conditional
        · exact Or.inl ⟨n, rfl, .bare hc⟩
        · refine Or.inr ⟨n, rfl, hc, ?_⟩
          intro q hq
          rcases hq with hc' | ⟨hop', -⟩
          · exact hc hc'
          · exact hop'.ne_none (hself hop'.1)

/-- Without its parentheses a node is the conditional expression that it encloses, or no conditional
expression at all. -/
theorem WellLinked.unwrap_cases (hw : a.WellLinked) (hn : n ∈ a.nodes) :
    (∃ q, a.unwrap n = .ok q ∧ a.Encloses n q) ∨
      ∃ m, a.unwrap n = .ok m ∧ m.kind ≠ .conditional ∧ ∀ q, ¬ a.Encloses n q :=
  hw.unwrapFuel_cases hn (by omega)

end Arena

end GuardClause
