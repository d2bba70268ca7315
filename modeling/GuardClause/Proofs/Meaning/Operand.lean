import GuardClause.Conditional.Extract
import GuardClause.Proofs.Layout.Follow
import GuardClause.Proofs.Meaning.Basic

/-!
# Operands

Negations and parentheses are nodes around an operand. What a node yields is what the fragment
under its negations yields, negated as often (`Arena.Negated`), whether or not anything is built
for it. In a well-linked arena there is always such a fragment, there is only one, and
`Arena.expressionOf` builds it under as many negations (`WellLinked.expressionOf_eq`).
-/

namespace GuardClause

variable {σ ν τ : Type}

namespace Arena

/-- Node `m` is the operand of a node of some kind. -/
def Operand (a : Arena) (kind : Kind) (n m : Node) : Prop :=
  n.kind = kind ∧ a.inRole n .operand = .ok (some m)

/-- A node is a fragment under `k` negations. -/
inductive Negated (a : Arena) : Node → Nat → Fragment → Prop where
  | operand {n m : Node} {k : Nat} {f : Fragment} (h : a.Operand .negation n m)
      (below : Negated a m k f) : Negated a n (k + 1) f
  | fragment {n : Node} (h : n.kind = .negation → a.inRole n .operand = .ok none) :
      Negated a n 0 (a.fragmentOf n)

variable {a : Arena} {n m m' : Node} {kind : Kind} {k k' : Nat} {f f' : Fragment}

theorem Operand.ne_none (h : a.Operand kind n m) : a.inRole n .operand ≠ .ok none := by
  intro hnone
  cases h.2.symm.trans hnone

theorem Operand.unique (h : a.Operand kind n m) (h' : a.Operand kind n m') : m = m' :=
  Option.some.inj (Except.ok.inj (h.2.symm.trans h'.2))

theorem Negated.unique (h : a.Negated n k f) (h' : a.Negated n k' f') : k = k' ∧ f = f' := by
  induction h generalizing k' f' with
  | @operand n m k f hop _ ih =>
      rcases h' with ⟨hop', hbelow'⟩ | hnone
      · obtain rfl := hop.unique hop'
        obtain ⟨rfl, rfl⟩ := ih hbelow'
        exact ⟨rfl, rfl⟩
      · exact absurd (hnone hop.1) hop.ne_none
  | fragment hnone =>
      rcases h' with ⟨hop', -⟩ | -
      · exact absurd (hnone hop'.1) hop'.ne_none
      · exact ⟨rfl, rfl⟩

/-- A node has an operand, or is not of the kind that has one, or lacks it. -/
theorem WellLinked.operand_cases (hw : a.WellLinked) (hn : n ∈ a.nodes) (kind : Kind) :
    (∃ m ∈ a.nodes, a.Operand kind n m ∧ n.index < m.index) ∨
      (n.kind = kind → a.inRole n .operand = .ok none) := by
  by_cases hkind : n.kind = kind
  · rcases hw.inRole_cases hn .operand with hnone | ⟨m, hm, hop, hlt⟩
    · exact Or.inr fun _ => hnone
    · exact Or.inl ⟨m, hm, ⟨hkind, hop⟩, hlt⟩
  · exact Or.inr fun h => absurd h hkind

/-- Operands are later nodes, so that negations end. -/
theorem WellLinked.exists_negated (hw : a.WellLinked) (hn : n ∈ a.nodes) :
    ∃ k f, a.Negated n k f := by
  -- Counting down what is left of the arena behind the node.
  induction hd : a.bound - n.index using Nat.strong_induction_on generalizing n with
  | _ d ih =>
      rcases hw.operand_cases hn .negation with ⟨m, hm, hop, hlt⟩ | hnone
      · have hbound := hw.index_lt_bound hm
        obtain ⟨k, f, hk⟩ := ih (a.bound - m.index) (by omega) hm rfl
        exact ⟨k + 1, f, .operand hop hk⟩
      · exact ⟨0, a.fragmentOf n, .fragment hnone⟩

theorem Negated.add_index_lt (hw : a.WellLinked) (hn : n ∈ a.nodes) (h : a.Negated n k f) :
    k + n.index < a.bound := by
  induction h with
  | operand hop _ ih =>
      obtain ⟨hmem, hlt⟩ := hw.of_inRole hn hop.2
      have := ih hmem
      omega
  | fragment _ =>
      have := hw.index_lt_bound hn
      omega

end Arena

/-! ## The expression of a node -/

/-- A fragment under `k` negations, as an expression. -/
def Expr.negations : Nat → Fragment → Expr
  | 0, f => .fragment f
  | k + 1, f => .not (negations k f)

theorem Expr.value_negations (I : Meaning σ ν τ) (k : Nat) (f : Fragment) (s : σ) :
    (Expr.negations k f).value I s = I.under k (I.eval f s) := by
  induction k with
  | zero => rfl
  | succ k ih => rw [Expr.negations, Expr.value, ih, Meaning.under_succ]

namespace Arena

variable {a : Arena} {n : Node} {k : Nat} {f : Fragment}

theorem expressionFuel_of_negated (h : a.Negated n k f) {fuel : Nat} (hfuel : k < fuel) :
    a.expressionFuel fuel n = .ok (Expr.negations k f) := by
  induction h generalizing fuel with
  | @operand n m k f hop _ ih =>
      obtain ⟨fuel, rfl⟩ : ∃ d, fuel = d + 1 := ⟨fuel - 1, by omega⟩
      have hm : a.expressionFuel fuel m = .ok (Expr.negations k f) := ih (by omega)
      rw [expressionFuel, if_pos hop.1, hop.2]
      exact map_eq_ok.mpr ⟨_, hm, rfl⟩
  | @fragment n hnone =>
      obtain ⟨fuel, rfl⟩ : ∃ d, fuel = d + 1 := ⟨fuel - 1, by omega⟩
      rw [expressionFuel]
      by_cases hkind : n.kind = .negation
      · rw [if_pos hkind, hnone hkind]
        rfl
      · rw [if_neg hkind]
        rfl

/-- The expression built for a node is its fragment under its negations. -/
theorem WellLinked.expressionOf_eq (hw : a.WellLinked) (hn : n ∈ a.nodes) (h : a.Negated n k f) :
    a.expressionOf n = .ok (Expr.negations k f) := by
  have hlt := h.add_index_lt hw hn
  exact expressionFuel_of_negated h (by omega)

end Arena

end GuardClause
