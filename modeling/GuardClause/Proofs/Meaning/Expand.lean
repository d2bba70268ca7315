import GuardClause.Language.Bundled
import GuardClause.Proofs.Meaning.Ternary

/-!
# Expanding a conditional expression

The statement that a conditional expression is expanded into mirrors it (`Arena.Expands`): an
if-statement for every conditional expression, a return for every leaf. Its runs therefore follow
the path along which the expression yields its value (`Expands.follows_path`). That nothing else is
evaluated on the way shows under a meaning that keeps a log (`Meaning.logged`): the log is the path.
-/

namespace GuardClause

variable {σ ν τ : Type}

/-- The meaning that does the same and logs every fragment that runs or is evaluated. -/
def Meaning.logged (I : Meaning σ ν τ) : Meaning (σ × List Fragment) ν τ where
  exec f s := (((I.exec f s.1).1, s.2 ++ [f]), (I.exec f s.1).2)
  eval f s := (((I.eval f s.1).1, s.2 ++ [f]), (I.eval f s.1).2)
  truthy := I.truthy
  negate := I.negate
  truthy_negate := I.truthy_negate
  exec_returns f s h := I.exec_returns f s.1 h

theorem Meaning.value_logged (I : Meaning σ ν τ) (k : Nat) (f : Fragment) (s : σ)
    (log : List Fragment) :
    (Expr.negations k f).value I.logged (s, log) =
      (((I.eval f s).1, log ++ [f]), (I.under k (I.eval f s)).2) :=
  Expr.value_negations I.logged k f (s, log)

namespace Arena

/-- A statement mirrors the conditional expressions of a node. -/
inductive Expands (a : Arena) : Node → Stmt → Prop where
  | branch {n q c t e : Node} {k : Nat} {f : Fragment} {yes no : Stmt} (h : a.Asks n q c k f)
      (ht : a.inRole q .consequence = .ok (some t)) (hyes : Expands a t yes)
      (he : a.inRole q .alternative = .ok (some e)) (hno : Expands a e no) :
      Expands a n (.ifElse (.negations k f) [yes] [no])
  | leaf {n : Node} {k : Nat} {f : Fragment} (h : ∀ q, ¬ a.Encloses n q)
      (hneg : a.Negated n k f) : Expands a n (.ret (some (.negations k f)))

variable {a : Arena} {n : Node} {st : Stmt}

/-! ## What is built -/

/-- A node whose conditional expressions are complete is expanded into its mirror. -/
theorem WellLinked.exists_expandFuel (hw : a.WellLinked) (hn : n ∈ a.nodes)
    (hcomplete : ∀ q, a.Nested n q → a.Complete q) {fuel : Nat}
    (hfuel : a.bound - n.index < fuel) :
    ∃ st, a.expandFuel fuel n = .ok st ∧ a.Expands n st := by
  induction fuel generalizing n with
  | zero => exact absurd hfuel (Nat.not_lt_zero _)
  | succ fuel ih =>
      rcases hw.unwrap_cases hn with ⟨q, hunwrap, hq⟩ | ⟨m, hunwrap, hkind, hnone⟩
      · obtain ⟨hqm, hle⟩ := hq.mem_and_le hw hn
        obtain ⟨⟨c, hc⟩, ⟨t, ht⟩, ⟨e, he⟩⟩ := hcomplete q (.here hq)
        obtain ⟨hcm, -⟩ := hw.of_inRole hqm hc
        obtain ⟨htm, htlt⟩ := hw.of_inRole hqm ht
        obtain ⟨hem, helt⟩ := hw.of_inRole hqm he
        -- Both branches are later nodes, so one step less is enough for them.
        have htbound := hw.index_lt_bound htm
        have hebound := hw.index_lt_bound hem
        obtain ⟨k, f, hneg⟩ := hw.exists_negated hcm
        have hexpr := hw.expressionOf_eq hcm hneg
        obtain ⟨yes, hyes, hyesx⟩ :=
          ih htm (fun p hp => hcomplete p (.whenTrue hq ht hp)) (by omega)
        obtain ⟨no, hno, hnox⟩ :=
          ih hem (fun p hp => hcomplete p (.whenFalse hq he hp)) (by omega)
        refine ⟨_, ?_, .branch ⟨hq, hc, hneg⟩ ht hyesx he hnox⟩
        refine bind_eq_ok.mpr ⟨q, hunwrap, ?_⟩
        rw [if_pos hq.kind_eq]
        refine bind_eq_ok.mpr ⟨_, hc, bind_eq_ok.mpr ⟨_, ht, ?_⟩⟩
        refine bind_eq_ok.mpr ⟨_, he, bind_eq_ok.mpr ⟨_, hexpr, ?_⟩⟩
        exact bind_eq_ok.mpr ⟨_, hyes, bind_eq_ok.mpr ⟨_, hno, rfl⟩⟩
      · obtain ⟨k, f, hneg⟩ := hw.exists_negated hn
        refine ⟨_, ?_, .leaf hnone hneg⟩
        refine bind_eq_ok.mpr ⟨m, hunwrap, ?_⟩
        rw [if_neg hkind]
        exact bind_eq_ok.mpr ⟨_, hw.expressionOf_eq hn hneg, rfl⟩

/-! ## What it does -/

/-- A statement does along a path what a node yields: it returns the value, evaluates the fragments
of the path in order and nothing else. -/
structure Follows (a : Arena) (st : Stmt) (I : Meaning σ ν τ) (s : σ) (path : List Node)
    (r : σ × ν) : Prop where
  run_eq : st.run I s = (r.1, .returned (some r.2))
  run_logged : ∃ fs, List.Forall₂ (fun m f => ∃ k, a.Negated m k f) path fs ∧
    ∀ log, st.run I.logged (s, log) = ((r.1, log ++ fs), .returned (some r.2))

/-- The if-statement of a conditional expression follows the branch that is selected. -/
theorem Follows.ifElse {I : Meaning σ ν τ} {c : Node} {k : Nat} {f : Fragment} {s : σ}
    {path : List Node} {r : σ × ν} {yes no taken : Stmt} (hneg : a.Negated c k f)
    (htaken : taken = if I.truthy (I.under k (I.eval f s)).2 then yes else no)
    (h : a.Follows taken I (I.eval f s).1 path r) :
    a.Follows (.ifElse (.negations k f) [yes] [no]) I s (c :: path) r := by
  -- Said of any meaning that decides as `I` does: of `I` and of its log.
  have hrun : ∀ {σ' : Type} (J : Meaning σ' ν τ) (s₀ s₁ : σ') (v : ν),
      J.truthy = I.truthy → v = (I.under k (I.eval f s)).2 →
      (Expr.negations k f).value J s₀ = (s₁, v) →
      (Stmt.ifElse (.negations k f) [yes] [no]).run J s₀ = taken.run J s₁ := by
    intro σ' J s₀ s₁ v hJ hv hvalue
    rw [Stmt.run, hvalue, htaken]
    cases htruthy : I.truthy (I.under k (I.eval f s)).2 with
    | true =>
        rw [choose_of_truthy (by rw [hJ, hv]; exact htruthy), Stmt.runAll_singleton, if_pos rfl]
    | false =>
        rw [choose_of_not_truthy (by rw [hJ, hv]; exact htruthy), Stmt.runAll_singleton,
          if_neg Bool.false_ne_true]
  constructor
  case run_eq =>
      rw [hrun I s _ _ rfl rfl (Expr.value_negations I k f s)]
      exact h.run_eq
  case run_logged =>
      obtain ⟨fs, hfs, hlog⟩ := h.run_logged
      refine ⟨f :: fs, .cons ⟨k, hneg⟩ hfs, ?_⟩
      intro log
      rw [hrun I.logged (s, log) _ _ rfl rfl (I.value_logged k f s log), hlog, List.append_assoc,
        List.singleton_append]

theorem Follows.ret {I : Meaning σ ν τ} {k : Nat} {f : Fragment} (hneg : a.Negated n k f) (s : σ) :
    a.Follows (.ret (some (.negations k f))) I s [n] (I.under k (I.eval f s)) := by
  constructor
  case run_eq => rw [Stmt.run, Expr.value_negations]
  case run_logged =>
      refine ⟨[f], .cons ⟨k, hneg⟩ .nil, ?_⟩
      intro log
      rw [Stmt.run, Meaning.value_logged]
      rfl

/-- The mirror of a node follows the path along which the node yields its value. -/
theorem Expands.follows_path (h : a.Expands n st) (I : Meaning σ ν τ) (s : σ) :
    ∃ path r, a.Yields I n s path r ∧ a.Follows st I s path r := by
  induction h generalizing s with
  | @branch n q c t e k f yes no hask ht _ he _ ihyes ihno =>
      cases hvalue : I.truthy (I.under k (I.eval f s)).2 with
      | true =>
          obtain ⟨path, r, hyield, hfollow⟩ := ihyes (I.eval f s).1
          refine ⟨c :: path, r, .whenTrue hask hvalue ht hyield, ?_⟩
          exact hfollow.ifElse hask.negated (by rw [hvalue]; rfl)
      | false =>
          obtain ⟨path, r, hyield, hfollow⟩ := ihno (I.eval f s).1
          refine ⟨c :: path, r, .whenFalse hask hvalue he hyield, ?_⟩
          exact hfollow.ifElse hask.negated (by rw [hvalue]; rfl)
  | leaf hnone hneg => exact ⟨_, _, .leaf hnone hneg, .ret hneg s⟩

end Arena

/-- A conditional expression of a parsed text with complete conditional expressions in its branches
is expanded into one statement. From every state the expression yields one value along one path, and
the statement follows that path. -/
theorem expandConditional_preserves_meaning {g : Grammar} {text : Text} {parsed : Parsed}
    {a : Arena} (h : g.parse text parsed = .ok a) {n : Node} (hn : n ∈ a.nodes)
    (hkind : n.kind = .conditional) (hcomplete : ∀ q, a.Nested n q → a.Complete q) :
    ∃ st, a.expandConditional n = .ok ⟨n, [st]⟩ ∧
      ∀ {σ ν τ : Type} (I : Meaning σ ν τ) (s : σ), ∃ path r,
        a.Yields I n s path r ∧ (∀ path' r', a.Yields I n s path' r' → path' = path ∧ r' = r) ∧
          a.Follows st I s path r := by
  have hw := wellLinked_of_parse h
  have hfuel : a.bound - n.index < a.bound + 1 := by omega
  obtain ⟨st, hst, hexpands⟩ := hw.exists_expandFuel hn hcomplete hfuel
  refine ⟨st, ?_, ?_⟩
  · rw [Arena.expandConditional, if_pos hkind]
    exact bind_eq_ok.mpr ⟨st, hst, rfl⟩
  · intro σ ν τ I s
    obtain ⟨path, r, hyield, hfollow⟩ := hexpands.follows_path I s
    exact ⟨path, r, hyield, fun _ _ h' => hyield.unique h', hfollow⟩

/-- The tree of a conditional expression with a negated condition and another conditional
expression, in parentheses, in its first branch. -/
def nestedTernary : Concrete :=
  .node ⟨"program", 0, 12, none, true⟩ [
    .node ⟨"ternary_expression", 0, 12, none, true⟩ [
      .node ⟨"unary_expression", 0, 2, some "condition", true⟩ [
        .node ⟨"!", 0, 1, some "operator", false⟩ [],
        .node ⟨"identifier", 1, 2, some "argument", true⟩ []],
      .node ⟨"parenthesized_expression", 3, 10, some "consequence", true⟩ [
        .node ⟨"ternary_expression", 4, 9, none, true⟩ [
          .node ⟨"identifier", 4, 5, some "condition", true⟩ [],
          .node ⟨"identifier", 6, 7, some "consequence", true⟩ [],
          .node ⟨"identifier", 8, 9, some "alternative", true⟩ []]],
      .node ⟨"identifier", 11, 12, some "alternative", true⟩ []]]

theorem complete_nestedTernary :
    ∃ a n, Bundled.typescript.grammar.parse "!a?(b?c:d):e".toList
        ⟨some nestedTernary, false⟩ = .ok a ∧
      n ∈ a.nodes ∧ n.kind = .conditional ∧
      ∀ q ∈ a.nodes.toList, q.kind = .conditional → a.Complete q :=
  ⟨_, _, rfl, Array.mem_of_getElem? (i := 1) rfl, rfl, by decide⟩

theorem expandConditional_preserves_meaning_nestedTernary :
    ∃ a n, Bundled.typescript.grammar.parse "!a?(b?c:d):e".toList
        ⟨some nestedTernary, false⟩ = .ok a ∧
      n ∈ a.nodes ∧ n.kind = .conditional ∧ (∀ q, a.Nested n q → a.Complete q) ∧
      ∃ st, a.expandConditional n = .ok ⟨n, [st]⟩ ∧
        ∀ {σ ν τ : Type} (I : Meaning σ ν τ) (s : σ), ∃ path r,
          a.Yields I n s path r ∧ (∀ path' r', a.Yields I n s path' r' → path' = path ∧ r' = r) ∧
            a.Follows st I s path r := by
  obtain ⟨a, n, h, hn, hkind, hall⟩ := complete_nestedTernary
  have hcomplete : ∀ q, a.Nested n q → a.Complete q := by
    intro q hq
    obtain ⟨hmem, hqk⟩ := hq.mem_and_kind (wellLinked_of_parse h) hn
    exact hall q (Array.mem_toList_iff.mpr hmem) hqk
  exact ⟨a, n, h, hn, hkind, hcomplete,
    expandConditional_preserves_meaning h hn hkind hcomplete⟩

end GuardClause
