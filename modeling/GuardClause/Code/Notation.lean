import GuardClause.Code.Basic
import GuardClause.Value

/-!
# Code as values

Statements and expressions are written as records that name their kind.
-/

namespace GuardClause

def Fragment.toValue (f : Fragment) : Value :=
  .record [("kind", .text "fragment"), ("text", .text (String.ofList f.text)),
    ("node_type", .text f.type), ("node_kind", .text f.kind.name)]

/-- Reads a fragment. Its type and its kind may be missing. -/
def Fragment.ofRecord? (r : Table Value) : Option Fragment :=
  match r.get? "text", (r.get? "node_type").getD (.text ""),
      (r.get? "node_kind").getD (.text Kind.other.name) with
  | some (.text text), .text type, .text kind =>
      (Kind.ofName? kind).map fun k => ⟨text.toList, type, k⟩
  | _, _, _ => none

namespace Expr

def toValue : Expr → Value
  | fragment f => f.toValue
  | not operand => .record [("kind", .text "not"), ("operand", toValue operand)]

/-- Reads an expression under at most `fuel` negations. -/
def ofValueFuel? : Nat → Value → Option Expr
  | 0, _ => none
  | fuel + 1, .record r =>
      match Table.get? "kind" r with
      | some (.text "not") => do not (← ofValueFuel? fuel (← Table.get? "operand" r))
      | some (.text "fragment") => fragment <$> Fragment.ofRecord? r
      | _ => none
  | _ + 1, _ => none

def ofValue? (v : Value) : Option Expr := ofValueFuel? v.depth v

end Expr

namespace Stmt

def blockValue (statements : List Value) : Value :=
  .record [("kind", .text "block"), ("statements", .list statements)]

def ifValue (condition thenBlock elseBlock : Value) : Value :=
  .record [("kind", .text "if"), ("condition", condition), ("then_block", thenBlock),
    ("else_block", elseBlock)]

mutual

def toValue : Stmt → Value
  | fragment f => f.toValue
  | ret none => .record [("kind", .text "return"), ("expression", .null)]
  | ret (some e) => .record [("kind", .text "return"), ("expression", e.toValue)]
  | block body => blockValue (toValues body)
  | ifThen c body => ifValue c.toValue (blockValue (toValues body)) .null
  | ifElse c body otherwise =>
      ifValue c.toValue (blockValue (toValues body)) (blockValue (toValues otherwise))

def toValues : List Stmt → List Value
  | [] => []
  | s :: rest => toValue s :: toValues rest

end

/-- The list of values under a name; an absent list is empty. -/
def listIn? (name : String) (r : Table Value) : Option (List Value) :=
  match r.get? name with
  | none => some []
  | some (.list vs) => some vs
  | some _ => none

/-- The list of values that a block holds. -/
def bodyOf? : Value → Option (List Value)
  | .record r =>
      match Table.get? "kind" r with
      | some (.text "block") => listIn? "statements" r
      | _ => none
  | _ => none

/-- Reads a statement nested at most `fuel` deep. -/
def ofValueFuel? : Nat → Value → Option Stmt
  | 0, _ => none
  | fuel + 1, .record r => do
      match Table.get? "kind" r with
      | some (.text "fragment") => fragment <$> Fragment.ofRecord? r
      | some (.text "return") =>
          match (Table.get? "expression" r).getD .null with
          | .null => some (ret none)
          | v => do ret (some (← Expr.ofValue? v))
      | some (.text "block") => do
          block (← (← listIn? "statements" r).mapM (ofValueFuel? fuel))
      | some (.text "if") =>
          let condition ← Expr.ofValue? (← Table.get? "condition" r)
          let body ← (← bodyOf? (← Table.get? "then_block" r)).mapM (ofValueFuel? fuel)
          match (Table.get? "else_block" r).getD .null with
          | .null => pure (ifThen condition body)
          | v => do ifElse condition body (← (← bodyOf? v).mapM (ofValueFuel? fuel))
      | _ => none
  | _ + 1, _ => none

def ofValue? (v : Value) : Option Stmt := ofValueFuel? v.depth v

end Stmt

end GuardClause
