import GuardClause.Language.Bundled
import GuardClause.Proofs.Meaning.IfElse

/-!
# Flattening an if/else

Both ways of flattening an if/else put one branch, the guarded one, under a guard that returns at
its end, and the other branch after it (`flatten_eq`). Where the guarded branch returns by itself,
that changes nothing (`run_flattened_of_returns`). Where it does not, the return at the end of the
guard is new: it skips whatever follows the if/else. That goes unnoticed when nothing follows and
running off the end of the body returns anyway, and only then (`exists_run_flattened_ne`).
-/

namespace GuardClause

variable {σ ν τ : Type}

/-- The two ways of flattening an if/else. -/
inductive Flattening where
  | plain
  | inverted
deriving DecidableEq, Repr

/-- The flattening of an if-statement. -/
def Arena.flatten (a : Arena) : Flattening → Node → Except Fault Replacement
  | .plain => a.simplify
  | .inverted => a.invertAndSimplify

namespace IfElse

/-- The condition of an if/else. -/
def condition (d : IfElse) : Expr := .negations d.negations d.tested

/-- The condition of the guard. -/
def guard (d : IfElse) : Flattening → Expr
  | .plain => d.condition
  | .inverted => d.condition.invert

/-- The statements of the branch that comes under the guard. -/
def guarded (d : IfElse) : Flattening → List Node
  | .plain => d.whenTrue
  | .inverted => d.whenFalse

/-- The statements of the branch that comes after the guard. -/
def unguarded (d : IfElse) : Flattening → List Node
  | .plain => d.whenFalse
  | .inverted => d.whenTrue

/-- The branch that comes under the guard has a return of its own. -/
def Returns (d : IfElse) (way : Flattening) : Prop :=
  ∃ m ∈ d.guarded way, m.kind = .returnStatement

instance (d : IfElse) (way : Flattening) : Decidable (d.Returns way) :=
  inferInstanceAs (Decidable (∃ m ∈ d.guarded way, _))

end IfElse

/-- Statements of the buffer with a return at their end, unless one of them returns. -/
def guardBody (fs : List Fragment) : List Stmt :=
  if ∃ f ∈ fs, f.kind = .returnStatement then fs.map .fragment
  else fs.map .fragment ++ [.ret none]

/-- What an if/else becomes. -/
def IfElse.flattened (d : IfElse) (a : Arena) (way : Flattening) : List Stmt :=
  .ifThen (d.guard way) (guardBody ((d.guarded way).map a.fragmentOf)) ::
    ((d.unguarded way).map a.fragmentOf).map .fragment

/-! ## What the refactorings build -/

namespace Arena

variable {a : Arena} {n b : Node} {ms : List Node} {d : IfElse}

theorem extract_true_eq (h : a.HasBody b ms) :
    a.extract true b = .ok (guardBody (ms.map a.fragmentOf)) := by
  have hiff : (∃ f ∈ ms.map a.fragmentOf, f.kind = .returnStatement) ↔
      ms.any (·.kind = .returnStatement) = true := by
    simp [fragmentOf]
  rw [extract, if_pos h.1]
  refine bind_eq_ok.mpr ⟨ms, h.2, ?_⟩
  unfold guardBody
  rw [List.map_map]
  by_cases hret : ms.any (·.kind = .returnStatement) = true
  · rw [if_pos (hiff.mpr hret), hret]
    rfl
  · rw [if_neg fun hex => hret (hiff.mp hex), Bool.eq_false_of_not_eq_true hret]
    rfl

theorem extract_false_eq (h : a.HasBody b ms) :
    a.extract false b = .ok ((ms.map a.fragmentOf).map .fragment) := by
  rw [extract, if_pos h.1, List.map_map]
  exact bind_eq_ok.mpr ⟨ms, h.2, rfl⟩

theorem branches_eq {t e : Node} (ht : a.inRole n .consequence = .ok (some t))
    (he : a.Otherwise n e) : a.branches n = .ok (t, e) :=
  bind_eq_ok.mpr ⟨some t, ht, bind_eq_ok.mpr ⟨some e, elseBranch_eq_ok_some.mpr he, rfl⟩⟩

/-- Flattening builds a guard on one branch, followed by the other branch. -/
theorem flatten_eq (hw : a.WellLinked) (hn : n ∈ a.nodes) (h : a.ShowsIfElse n d)
    (way : Flattening) : a.flatten way n = .ok ⟨n, d.flattened a way⟩ := by
  obtain ⟨c, htests, hneg⟩ := h.tested
  obtain ⟨t, ht, htbody⟩ := h.whenTrue
  obtain ⟨e, he, hebody⟩ := h.whenFalse
  have hcond := conditionOf_eq hw hn htests hneg
  have hbranches := branches_eq ht he
  cases way with
  | plain =>
      refine bind_eq_ok.mpr ⟨_, hbranches, ?_⟩
      refine bind_eq_ok.mpr ⟨_, extract_true_eq htbody, ?_⟩
      refine bind_eq_ok.mpr ⟨_, extract_false_eq hebody, ?_⟩
      exact bind_eq_ok.mpr ⟨_, hcond, rfl⟩
  | inverted =>
      refine bind_eq_ok.mpr ⟨_, hbranches, ?_⟩
      refine bind_eq_ok.mpr ⟨_, extract_false_eq htbody, ?_⟩
      refine bind_eq_ok.mpr ⟨_, extract_true_eq hebody, ?_⟩
      exact bind_eq_ok.mpr ⟨_, hcond, rfl⟩

end Arena

/-! ## What it does -/

section

variable {I : Meaning σ ν τ}

/-- An inverted condition is evaluated as the condition is. -/
theorem Expr.value_invert (e : Expr) (s : σ) :
    (e.invert.value I s).1 = (e.value I s).1 ∧
      I.truthy (e.invert.value I s).2 = !I.truthy (e.value I s).2 := by
  cases e with
  | fragment f => exact ⟨rfl, I.truthy_negate _⟩
  | not e =>
      have hnegate : I.truthy ((Expr.not e).value I s).2 = !I.truthy (e.value I s).2 :=
        I.truthy_negate _
      refine ⟨rfl, ?_⟩
      rw [hnegate, Bool.not_not]
      rfl

/-- An inverted condition selects the other branch. -/
theorem choose_invert (e : Expr) (s : σ) (yes no : σ → σ × Outcome ν τ) :
    choose I (e.invert.value I s) yes no = choose I (e.value I s) no yes := by
  obtain ⟨hstate, htruthy⟩ := Expr.value_invert (I := I) e s
  cases h : I.truthy (e.value I s).2 with
  | true =>
      rw [choose_of_truthy h, choose_of_not_truthy (by rw [htruthy, h]; rfl), hstate]
  | false =>
      rw [choose_of_not_truthy h, choose_of_truthy (by rw [htruthy, h]; rfl), hstate]

/-- The body of a guard runs its statements and never runs off its end. -/
theorem runAll_guardBody (fs : List Fragment) (s : σ) :
    Stmt.runAll I (guardBody fs) s = settle (I.execAll fs s) := by
  unfold guardBody
  split
  · rename_i hret
    -- Statements that return never run off the end, so there is nothing to settle.
    rw [Meaning.runAll_fragments]
    exact (andThen_of_ne_normal (Meaning.execAll_ne_normal hret s) _).symm
  · rw [Stmt.runAll_append, Meaning.runAll_fragments, settle]
    congr 1

variable (d : IfElse) (a : Arena) (way : Flattening) (rest : List Fragment) (s : σ)

/-- An if/else tests the condition of its guard and runs the guarded branch when that holds. -/
theorem IfElse.run_eq :
    d.run a I s = choose I ((d.guard way).value I s) (a.runNodes I (d.guarded way))
      (a.runNodes I (d.unguarded way)) := by
  have hcond : d.condition.value I s = I.under d.negations (I.eval d.tested s) :=
    Expr.value_negations I d.negations d.tested s
  cases way with
  | plain => rw [IfElse.run, IfElse.guard, hcond, IfElse.guarded, IfElse.unguarded]
  | inverted =>
      rw [IfElse.run, IfElse.guard, choose_invert, hcond, IfElse.guarded, IfElse.unguarded]

/-- What follows a flattened if/else does not run after the guard. -/
theorem run_flattened_append :
    Stmt.runAll I (d.flattened a way ++ rest.map .fragment) s =
      choose I ((d.guard way).value I s) (fun s' => settle (a.runNodes I (d.guarded way) s'))
        fun s' => andThen (a.runNodes I (d.unguarded way) s') (I.execAll rest) := by
  have hbody := runAll_guardBody (I := I) ((d.guarded way).map a.fragmentOf)
  rw [IfElse.flattened, List.cons_append, Stmt.runAll, Stmt.run, andThen_choose]
  congr 1
  · funext s'
    rw [hbody s']
    -- The guard never runs off its end, so what follows is skipped.
    exact andThen_of_ne_normal (settle_ne_normal _) _
  · funext s'
    rw [andThen_of_eq_normal rfl, Stmt.runAll_append, Meaning.runAll_fragments,
      Meaning.runAll_fragments]
    rfl

variable {d a way}

/-- A guarded branch with a return of its own behaves alike under the guard, whatever follows. -/
theorem run_flattened_of_returns (h : d.Returns way) :
    Stmt.runAll I (d.flattened a way ++ rest.map .fragment) s =
      andThen (d.run a I s) (I.execAll rest) := by
  have hne : ∀ s', (a.runNodes I (d.guarded way) s').2 ≠ .normal := by
    intro s'
    obtain ⟨m, hm, hkind⟩ := h
    exact Meaning.execAll_ne_normal ⟨a.fragmentOf m, List.mem_map_of_mem hm, hkind⟩ s'
  rw [run_flattened_append, IfElse.run_eq d a way s, andThen_choose]
  congr 1
  funext s'
  rw [settle, andThen_of_ne_normal (hne s'), andThen_of_ne_normal (hne s')]

/-- Where nothing follows, the return at the end of the guard changes nothing. -/
theorem settle_run_flattened :
    settle (Stmt.runAll I (d.flattened a way) s) = settle (d.run a I s) := by
  have hrun := run_flattened_append (I := I) d a way [] s
  rw [List.map_nil, List.append_nil] at hrun
  rw [hrun, IfElse.run_eq d a way s, settle, settle, andThen_choose, andThen_choose]
  congr 1
  · funext s'
    exact settle_settle _
  · funext s'
    rw [andThen_assoc]
    rfl

end

/-! ## Where it changes something -/

/-- The meaning under which a state counts the statements that have run, returns end abruptly and
every fragment that is tested yields `b`. -/
def Meaning.counting (b : Bool) : Meaning Nat Bool Unit where
  exec f s := (s + 1, if f.kind = .returnStatement then .abrupt () else .normal)
  eval _ s := (s, b)
  truthy := id
  negate := not
  truthy_negate _ := rfl
  exec_returns f s h := by simp [h]

theorem exists_value_counting (e : Expr) (v : Bool) :
    ∃ b, ∀ s, e.value (Meaning.counting b) s = (s, v) := by
  induction e generalizing v with
  | fragment f => exact ⟨v, fun s => rfl⟩
  | not e ih =>
      obtain ⟨b, hb⟩ := ih (!v)
      refine ⟨b, ?_⟩
      intro s
      rw [Expr.value, hb s]
      exact Prod.ext rfl (Bool.not_not v)

theorem execAll_counting {b : Bool} {fs : List Fragment}
    (h : ∀ f ∈ fs, f.kind ≠ .returnStatement) (s : Nat) :
    (Meaning.counting b).execAll fs s = (s + fs.length, .normal) := by
  induction fs generalizing s with
  | nil => rfl
  | cons f fs ih =>
      have hexec : (Meaning.counting b).exec f s = (s + 1, .normal) := by
        simp [Meaning.counting, h f List.mem_cons_self]
      rw [Meaning.execAll, hexec, andThen_of_eq_normal rfl,
        ih fun g hg => h g (List.mem_cons_of_mem f hg)]
      simp only [List.length_cons]
      congr 1
      omega

theorem le_execAll_counting (b : Bool) (fs : List Fragment) (s : Nat) :
    s ≤ ((Meaning.counting b).execAll fs s).1 := by
  induction fs generalizing s with
  | nil => exact Nat.le_refl s
  | cons f fs ih =>
      rw [Meaning.execAll]
      by_cases hf : ((Meaning.counting b).exec f s).2 = .normal
      · rw [andThen_of_eq_normal hf]
        exact Nat.le_trans (Nat.le_succ s) (ih (s + 1))
      · rw [andThen_of_ne_normal hf]
        exact Nat.le_succ s

theorem lt_execAll_counting {b : Bool} {fs : List Fragment} (h : fs ≠ []) (s : Nat) :
    s < ((Meaning.counting b).execAll fs s).1 := by
  obtain ⟨f, fs, rfl⟩ := List.exists_cons_of_ne_nil h
  rw [Meaning.execAll]
  by_cases hf : ((Meaning.counting b).exec f s).2 = .normal
  · rw [andThen_of_eq_normal hf]
    exact le_execAll_counting b fs (s + 1)
  · rw [andThen_of_ne_normal hf]
    exact Nat.lt_succ_self s

/-- A guard without a return of its own skips what follows, under some meaning visibly so. -/
theorem exists_run_flattened_ne {d : IfElse} {a : Arena} {way : Flattening}
    {rest : List Fragment} (h : ¬ d.Returns way) (hrest : rest ≠ []) :
    ∃ (I : Meaning Nat Bool Unit) (s : Nat),
      settle (Stmt.runAll I (d.flattened a way ++ rest.map .fragment) s) ≠
        settle (andThen (d.run a I s) (I.execAll rest)) := by
  obtain ⟨b, hb⟩ := exists_value_counting (d.guard way) true
  have hguarded : a.runNodes (Meaning.counting b) (d.guarded way) 0 =
      (0 + ((d.guarded way).map a.fragmentOf).length, .normal) := by
    refine execAll_counting ?_ 0
    intro f hf hkind
    obtain ⟨m, hm, rfl⟩ := List.mem_map.mp hf
    exact h ⟨m, hm, hkind⟩
  refine ⟨Meaning.counting b, 0, ?_⟩
  intro heq
  -- The flattened code stops after the guarded branch, the original goes on to count the rest.
  replace heq := congrArg Prod.fst heq
  rw [settle_fst, settle_fst, run_flattened_append, IfElse.run_eq d a way, andThen_choose, hb,
    choose_of_truthy rfl, choose_of_truthy rfl, settle_fst, hguarded,
    andThen_of_eq_normal rfl] at heq
  exact Nat.ne_of_lt (lt_execAll_counting hrest _) heq

/-! ## Flattening preserves meaning -/

/-- Statements can take the place of an if/else. They run alike whatever follows when the guarded
branch returns, and at the end of a body in any case. Otherwise they can be told apart. -/
structure IfElse.ReplacedBy (d : IfElse) (a : Arena) (way : Flattening) (statements : List Stmt) :
    Prop where
  of_returns : d.Returns way → ∀ (rest : List Fragment) {σ ν τ : Type} (I : Meaning σ ν τ) (s : σ),
    Stmt.runAll I (statements ++ rest.map .fragment) s = andThen (d.run a I s) (I.execAll rest)
  at_end : ∀ {σ ν τ : Type} (I : Meaning σ ν τ) (s : σ),
    settle (Stmt.runAll I statements s) = settle (d.run a I s)
  ne_otherwise : ¬ d.Returns way → ∀ rest : List Fragment, rest ≠ [] →
    ∃ (I : Meaning Nat Bool Unit) (s : Nat),
      settle (Stmt.runAll I (statements ++ rest.map .fragment) s) ≠
        settle (andThen (d.run a I s) (I.execAll rest))

/-- An if-statement of a parsed text that can be flattened and has a condition is one if/else, and
both ways of flattening it succeed and may replace it. -/
theorem flatten_preserves_meaning {g : Grammar} {text : Text} {parsed : Parsed} {a : Arena}
    (h : g.parse text parsed = .ok a) {n c : Node} (hn : n ∈ a.nodes)
    (hcan : a.canFlatten n = .ok true) (hc : a.inRole n .condition = .ok (some c)) :
    ∃ d, a.ShowsIfElse n d ∧ (∀ d', a.ShowsIfElse n d' → d' = d) ∧
      ∀ way, ∃ statements, a.flatten way n = .ok ⟨n, statements⟩ ∧
        d.ReplacedBy a way statements := by
  have hw := wellLinked_of_parse h
  obtain ⟨d, hd⟩ := Arena.exists_showsIfElse hw hn hcan hc
  refine ⟨d, hd, fun d' hd' => hd'.unique hd, ?_⟩
  intro way
  refine ⟨d.flattened a way, Arena.flatten_eq hw hn hd way, ?_⟩
  constructor
  case of_returns =>
      intro hret rest σ ν τ I s
      exact run_flattened_of_returns rest s hret
  case at_end =>
      intro σ ν τ I s
      exact settle_run_flattened s
  case ne_otherwise =>
      intro hret rest hrest
      exact exists_run_flattened_ne hret hrest

/-- The tree of an if/else whose first branch returns. -/
def returningIf : Concrete :=
  .node ⟨"program", 0, 23, none, true⟩ [
    .node ⟨"if_statement", 0, 23, none, true⟩ [
      .node ⟨"parenthesized_expression", 2, 6, some "condition", true⟩ [
        .node ⟨"unary_expression", 3, 5, none, true⟩ [
          .node ⟨"!", 3, 4, some "operator", false⟩ [],
          .node ⟨"identifier", 4, 5, some "argument", true⟩ []]],
      .node ⟨"statement_block", 6, 16, some "consequence", true⟩ [
        .node ⟨"return_statement", 7, 15, none, true⟩ []],
      .node ⟨"else_clause", 16, 23, some "alternative", true⟩ [
        .node ⟨"statement_block", 20, 23, none, true⟩ [
          .node ⟨"expression_statement", 21, 22, none, true⟩ []]]]]

theorem canFlatten_returningIf :
    ∃ a n c, Bundled.typescript.grammar.parse "if(!a){return b}else{c}".toList
        ⟨some returningIf, false⟩ = .ok a ∧
      n ∈ a.nodes ∧ a.canFlatten n = .ok true ∧ a.inRole n .condition = .ok (some c) :=
  ⟨_, _, _, rfl, Array.mem_of_getElem? (i := 1) rfl, rfl, rfl⟩

theorem flatten_preserves_meaning_returningIf :
    ∃ a n c, Bundled.typescript.grammar.parse "if(!a){return b}else{c}".toList
        ⟨some returningIf, false⟩ = .ok a ∧
      n ∈ a.nodes ∧ a.canFlatten n = .ok true ∧ a.inRole n .condition = .ok (some c) ∧
      ∃ d, a.ShowsIfElse n d ∧ (∀ d', a.ShowsIfElse n d' → d' = d) ∧
        ∀ way, ∃ statements, a.flatten way n = .ok ⟨n, statements⟩ ∧
          d.ReplacedBy a way statements := by
  obtain ⟨a, n, c, h, hn, hcan, hc⟩ := canFlatten_returningIf
  exact ⟨a, n, c, h, hn, hcan, hc, flatten_preserves_meaning h hn hcan hc⟩

end GuardClause
