import GuardClause.Conditional.Extract

/-!
# The refactorings

An if/else can be flattened in two ways: into a guard on its condition that runs the first
branch, with the second branch after it, or into a guard on the inverted condition that runs the
second branch, with the first branch after it. The guard returns at its end, so that what follows
does not run after it. A conditional expression can be expanded into if-statements whose branches
return.
-/

namespace GuardClause

/-- The inversion of an expression: one negation less if there is one, otherwise one more. -/
def Expr.invert : Expr → Expr
  | .not operand => operand
  | e => .not e

/-- What a refactoring does: statements that take the place of a node. -/
structure Replacement where
  target : Node
  statements : List Stmt
deriving DecidableEq

namespace Arena

/-- The condition of an if-statement, without the parentheses that belong to the statement. -/
def conditionOf (a : Arena) (n : Node) : Except Fault Expr := do
  match ← a.inRole n .condition with
  | none => .error (.shape (.noCondition n.start))
  | some condition =>
      if condition.kind = .parenthesized then
        match ← a.inRole condition .operand with
        | some inner => a.expressionOf inner
        | none => a.expressionOf condition
      else a.expressionOf condition

def branches (a : Arena) (n : Node) : Except Fault (Node × Node) := do
  let thenNode ← a.thenBranch n
  let elseNode ← a.elseBranch n
  match thenNode, elseNode with
  | some t, some e => pure (t, e)
  | _, _ => .error (.shape (.notIfElse n.start))

/-- An if/else as a guard that runs the first branch, followed by the second branch. -/
def simplify (a : Arena) (n : Node) : Except Fault Replacement := do
  let (thenNode, elseNode) ← a.branches n
  let guarded ← a.extract true thenNode
  let rest ← a.extract false elseNode
  let condition ← a.conditionOf n
  pure ⟨n, .ifThen condition guarded :: rest⟩

/-- An if/else as a guard on the inverted condition that runs the second branch, followed by the
first branch. -/
def invertAndSimplify (a : Arena) (n : Node) : Except Fault Replacement := do
  let (thenNode, elseNode) ← a.branches n
  let rest ← a.extract false thenNode
  let guarded ← a.extract true elseNode
  let condition ← a.conditionOf n
  pure ⟨n, .ifThen condition.invert guarded :: rest⟩

/-- The statement that returns the value of an expression, at most `fuel` conditional
expressions deep. -/
def expandFuel (a : Arena) : Nat → Node → Except Fault Stmt
  | 0, _ => .error .circularLinks
  | fuel + 1, n => do
      let inner ← a.unwrap n
      if inner.kind = .conditional then
        let condition ← a.inRole inner .condition
        let whenTrue ← a.inRole inner .consequence
        let whenFalse ← a.inRole inner .alternative
        match condition, whenTrue, whenFalse with
        | some c, some t, some f => do
            let c ← a.expressionOf c
            let t ← expandFuel a fuel t
            let f ← expandFuel a fuel f
            pure (.ifElse c [t] [f])
        | _, _, _ => .error (.shape (.incomplete inner.start))
      else do
        pure (.ret (some (← a.expressionOf n)))

/-- The statement that returns the value of an expression: an if-statement for a conditional
expression in any number of parentheses, a return for any other. -/
def expand (a : Arena) (n : Node) : Except Fault Stmt := a.expandFuel (a.bound + 1) n

def expandConditional (a : Arena) (n : Node) : Except Fault Replacement :=
  if n.kind = .conditional then do
    pure ⟨n, [← a.expand n]⟩
  else .error (.shape (.notConditional n.type))

end Arena

end GuardClause
