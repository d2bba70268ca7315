import GuardClause.Code.Basic
import GuardClause.Syntax.Walk

/-!
# Taking code over from the buffer

A node of the arena becomes a fragment, the children of a block become statements, and an
expression becomes a fragment under the negations that stand before it. The second half of the
module tells which if-statements have the shape that flattening needs.
-/

namespace GuardClause.Arena

/-- The text of a node as a fragment. Every line after the first loses as many blanks as the line
where the node starts is indented by, if it has so many. -/
def fragmentOf (a : Arena) (n : Node) : Fragment :=
  let width := (a.buffer.lineIndent n.start).length
  let ls := (a.textOf n).unifyNewlines.lines
  ⟨Text.unlines (Text.mapContinuations (Text.dedentLine width) ls), n.type, n.kind⟩

/-- The statements of a block. With `addReturn` they end in a return unless the block has a
return of its own. -/
def extract (a : Arena) (addReturn : Bool) (block : Node) : Except Fault (List Stmt) :=
  if block.kind = .block then do
    let children ← a.childrenOf block
    let statements := children.map fun c => Stmt.fragment (a.fragmentOf c)
    if addReturn && !children.any (·.kind = .returnStatement) then
      pure (statements ++ [.ret none])
    else pure statements
  else .error (.shape (.notBlock block.type block.start))

/-- The expression of a node under at most `fuel` negations. -/
def expressionFuel (a : Arena) : Nat → Node → Except Fault Expr
  | 0, _ => .error .circularLinks
  | fuel + 1, n =>
      if n.kind = .negation then do
        match ← a.inRole n .operand with
        | none => pure (.fragment (a.fragmentOf n))
        | some operand => .not <$> expressionFuel a fuel operand
      else pure (.fragment (a.fragmentOf n))

/-- The expression of a node: a fragment under the negations that stand before it. -/
def expressionOf (a : Arena) (n : Node) : Except Fault Expr := a.expressionFuel (a.bound + 1) n

def thenBranch (a : Arena) (n : Node) : Except Fault (Option Node) := a.inRole n .consequence

/-- The branch that runs when the condition fails, without the `else` around it. -/
def elseBranch (a : Arena) (n : Node) : Except Fault (Option Node) := do
  match ← a.inRole n .alternative with
  | none => pure none
  | some alternative =>
      if alternative.kind = .elseClause then a.inRole alternative .operand
      else pure (some alternative)

def isBlock : Option Node → Bool
  | some n => n.kind = .block
  | none => false

def isIfElse (a : Arena) (n : Node) : Except Fault Bool :=
  if n.kind = .ifStatement then do
    let thenNode ← a.thenBranch n
    let elseNode ← a.elseBranch n
    pure (isBlock thenNode && isBlock elseNode)
  else pure false

/-- Whether a node is the else branch of an if-statement. -/
def isElseIf (a : Arena) (n : Node) : Except Fault Bool := do
  match ← a.parentOf n with
  | none => pure false
  | some p =>
      pure (p.kind = .elseClause ||
        (p.kind = .ifStatement && p.roles.get? Role.alternative.name = some (n.index : Int)))

/-- Whether several statements can take the place of a node. -/
def inStatementList (a : Arena) (n : Node) : Except Fault Bool := do
  match ← a.parentOf n with
  | none => pure false
  | some p => pure p.kind.isStatementList

/-- Whether a node is an if-statement that can be flattened. -/
def canFlatten (a : Arena) (n : Node) : Except Fault Bool := do
  if ← a.isIfElse n then
    if ← a.isElseIf n then pure false else a.inStatementList n
  else pure false

end GuardClause.Arena
