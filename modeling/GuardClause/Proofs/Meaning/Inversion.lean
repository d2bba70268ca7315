import GuardClause.Proofs.Meaning.Flatten

/-!
# Inverting twice

Inverting an expression takes a negation away where there is one and adds one where there is none.
Done twice, this gives back a fragment without negations, to which one is added and taken away
again, and a fragment under a single one, which is taken away and added again. From two or more
negations both steps take one away: what comes out has the same truth, but is not what was there
before. An inversion that always takes a negation away when it finds one cannot do better.
-/

namespace GuardClause

namespace Expr

/-- What comes out when a fragment under `k` negations is inverted twice. -/
structure InvertedTwice (k : Nat) (f : Fragment) : Prop where
  eq_iff : (negations k f).invert.invert = negations k f ↔ k ≤ 1
  two_less : 2 ≤ k → (negations k f).invert.invert = negations (k - 2) f
  same_truth : ∀ {σ ν τ : Type} (I : Meaning σ ν τ) (s : σ),
    ((negations k f).invert.invert.value I s).1 = ((negations k f).value I s).1 ∧
      I.truthy ((negations k f).invert.invert.value I s).2 =
        I.truthy ((negations k f).value I s).2

theorem negations_injective {j k : Nat} {f : Fragment} (h : negations j f = negations k f) :
    j = k := by
  induction j generalizing k with
  | zero =>
      cases k with
      | zero => rfl
      | succ k => cases h
  | succ j ih =>
      cases k with
      | zero => cases h
      | succ k => exact congrArg Nat.succ (ih (Expr.not.inj h))

theorem invert_negations_zero (f : Fragment) : (negations 0 f).invert = negations 1 f := rfl

theorem invert_negations_succ (k : Nat) (f : Fragment) :
    (negations (k + 1) f).invert = negations k f := rfl

theorem invertedTwice (k : Nat) (f : Fragment) : InvertedTwice k f := by
  have htwo : ∀ j, (negations (j + 2) f).invert.invert = negations j f := by
    intro j
    rw [invert_negations_succ, invert_negations_succ]
  constructor
  case eq_iff =>
      rcases k with - | - | k
      · simp [invert_negations_zero, invert_negations_succ]
      · simp [invert_negations_zero, invert_negations_succ]
      · rw [htwo]
        constructor
        · intro h
          have := negations_injective h
          omega
        · intro hk
          omega
  case two_less =>
      intro hk
      obtain ⟨j, rfl⟩ := Nat.exists_eq_add_of_le' hk
      rw [htwo, Nat.add_sub_cancel]
  case same_truth =>
      intro σ ν τ I s
      obtain ⟨hstate, htruthy⟩ := value_invert (I := I) (negations k f) s
      obtain ⟨hstate', htruthy'⟩ := value_invert (I := I) (negations k f).invert s
      rw [hstate', hstate, htruthy', htruthy, Bool.not_not]
      exact ⟨rfl, rfl⟩

end Expr

/-- What an if-statement has for a condition is the fragment that it tests, under its negations. -/
theorem Arena.exists_tests_of_conditionOf {a : Arena} {n : Node} {x : Expr} (hw : a.WellLinked)
    (hn : n ∈ a.nodes) (h : a.conditionOf n = .ok x) :
    ∃ c k f, a.Tests n c ∧ a.Negated c k f ∧ x = .negations k f := by
  obtain ⟨found, hfound, hrest⟩ := bind_eq_ok.mp h
  cases found with
  | none => cases hrest
  | some p =>
      obtain ⟨c, hc, htests⟩ := hw.exists_tests hn hfound
      obtain ⟨k, f, hneg⟩ := hw.exists_negated hc
      have hcond := Arena.conditionOf_eq hw hn htests hneg
      exact ⟨c, k, f, htests, hneg, Except.ok.inj (h.symm.trans hcond)⟩

/-- In a parsed text every node has an expression, a fragment under the negations of the node, and
so has every condition. Inverting such an expression twice gives it back exactly if there is at most
one negation, takes two negations away if there are more, and never changes its truth. -/
theorem invert_invert_eq_iff {g : Grammar} {text : Text} {parsed : Parsed} {a : Arena}
    (h : g.parse text parsed = .ok a) {n : Node} (hn : n ∈ a.nodes) :
    (∃ k f, a.Negated n k f ∧ a.expressionOf n = .ok (.negations k f) ∧
        Expr.InvertedTwice k f) ∧
      ∀ x, a.conditionOf n = .ok x →
        ∃ c k f, a.Tests n c ∧ a.Negated c k f ∧ x = .negations k f ∧ Expr.InvertedTwice k f := by
  have hw := wellLinked_of_parse h
  constructor
  · obtain ⟨k, f, hneg⟩ := hw.exists_negated hn
    exact ⟨k, f, hneg, hw.expressionOf_eq hn hneg, Expr.invertedTwice k f⟩
  · intro x hx
    obtain ⟨c, k, f, htests, hneg, rfl⟩ := Arena.exists_tests_of_conditionOf hw hn hx
    exact ⟨c, k, f, htests, hneg, rfl, Expr.invertedTwice k f⟩

/-- The tree of an if-statement that tests a name under two negations. -/
def doublyNegatedIf : Concrete :=
  .node ⟨"program", 0, 9, none, true⟩ [
    .node ⟨"if_statement", 0, 9, none, true⟩ [
      .node ⟨"parenthesized_expression", 2, 7, some "condition", true⟩ [
        .node ⟨"unary_expression", 3, 6, none, true⟩ [
          .node ⟨"!", 3, 4, some "operator", false⟩ [],
          .node ⟨"unary_expression", 4, 6, some "argument", true⟩ [
            .node ⟨"!", 4, 5, some "operator", false⟩ [],
            .node ⟨"identifier", 5, 6, some "argument", true⟩ []]]],
      .node ⟨"statement_block", 7, 9, some "consequence", true⟩ []]]

theorem invert_invert_eq_iff_doublyNegatedIf :
    ∃ a n x, Bundled.typescript.grammar.parse "if(!!a){}".toList
        ⟨some doublyNegatedIf, false⟩ = .ok a ∧
      n ∈ a.nodes ∧ a.conditionOf n = .ok x ∧
      (∃ k f, a.Negated n k f ∧ a.expressionOf n = .ok (.negations k f) ∧
          Expr.InvertedTwice k f) ∧
        ∃ c k f, a.Tests n c ∧ a.Negated c k f ∧ x = .negations k f ∧
          Expr.InvertedTwice k f := by
  obtain ⟨a, n, x, h, hn, hx⟩ : ∃ a n x, Bundled.typescript.grammar.parse "if(!!a){}".toList
      ⟨some doublyNegatedIf, false⟩ = .ok a ∧ n ∈ a.nodes ∧ a.conditionOf n = .ok x :=
    ⟨_, _, _, rfl, Array.mem_of_getElem? (i := 1) rfl, rfl⟩
  obtain ⟨hexpression, hcondition⟩ := invert_invert_eq_iff h hn
  exact ⟨a, n, x, h, hn, hx, hexpression, hcondition x hx⟩

/-- The condition of an if-statement that tests a name under two negations is not what comes out
when it is inverted twice, and neither is the expression of the node that is tested. -/
theorem invert_invert_ne_doublyNegatedIf :
    ∃ a n m x, Bundled.typescript.grammar.parse "if(!!a){}".toList
        ⟨some doublyNegatedIf, false⟩ = .ok a ∧
      n ∈ a.nodes ∧ m ∈ a.nodes ∧ a.conditionOf n = .ok x ∧ a.expressionOf m = .ok x ∧
      x.invert.invert ≠ x :=
  ⟨_, _, _, _, rfl, Array.mem_of_getElem? (i := 1) rfl, Array.mem_of_getElem? (i := 3) rfl,
    rfl, rfl, by decide⟩

end GuardClause
