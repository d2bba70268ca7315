import GuardClause.Buffer
import GuardClause.Code.Basic

/-!
# Writing code

Statements are written with one unit of indentation for each level of nesting, the opening brace
at the end of its line and `else` on a line of its own:

    if (a) {
        return b;
    }
    else {
        return c;
    }

Fragments keep their lines, moved right as a whole. An empty line is never indented.
-/

namespace GuardClause

/-- Node types whose text never needs parentheses under a negation. -/
def primaryTypes : List String :=
  ["identifier", "this", "super", "true", "false", "null", "undefined", "number", "string",
    "template_string", "regex", "array", "object", "member_expression", "subscript_expression",
    "call_expression", "non_null_expression", "unary_expression", "field_access",
    "array_access", "method_invocation", "decimal_integer_literal", "string_literal",
    "character_literal", "null_literal"]

namespace Expr

/-- Whether an operand of a negation is put in parentheses. -/
def needsParens : Expr → Bool
  | not _ => false
  | fragment f =>
      !(f.kind = .parenthesized || f.kind = .negation || primaryTypes.contains f.type)

def print : Expr → Text
  | fragment f => f.text
  | not operand =>
      let t := print operand
      '!' :: (if needsParens operand then '(' :: t ++ [')'] else t)

/-- The text of a condition, without parentheses of its own: the if-statement brings some. -/
def printCondition : Expr → Text
  | fragment f =>
      if f.kind = .parenthesized ∧ f.text.head? = some '(' ∧ f.text.getLast? = some ')' then
        (f.text.drop 1).dropLast
      else f.text
  | e => e.print

end Expr

namespace Stmt

def indentation (unit : Text) (depth : Nat) : Text := (List.replicate depth unit).flatten

/-- The lines of a text, each moved right unless it is empty. -/
def indentedLines (indent t : Text) : List Text := t.lines.map (Text.indentLine indent)

/-- The first line of an if-statement, which may be broken by its condition. -/
def ifHeader (condition : Expr) : Text :=
  "if (".toList ++ condition.printCondition ++ ") \x7b".toList

mutual

def lines (unit : Text) (depth : Nat) : Stmt → List Text
  | fragment f => indentedLines (indentation unit depth) f.text
  | ret none => [indentation unit depth ++ "return;".toList]
  | ret (some e) =>
      indentedLines (indentation unit depth) ("return ".toList ++ e.print ++ ";".toList)
  | block body =>
      let indent := indentation unit depth
      [indent ++ ['\x7b']] ++ linesList unit (depth + 1) body ++ [indent ++ ['\x7d']]
  | ifThen condition body =>
      let indent := indentation unit depth
      indentedLines indent (ifHeader condition) ++ linesList unit (depth + 1) body
        ++ [indent ++ ['\x7d']]
  | ifElse condition body otherwise =>
      let indent := indentation unit depth
      indentedLines indent (ifHeader condition) ++ linesList unit (depth + 1) body
        ++ [indent ++ ['\x7d']] ++ [indent ++ "else \x7b".toList]
        ++ linesList unit (depth + 1) otherwise ++ [indent ++ ['\x7d']]

def linesList (unit : Text) (depth : Nat) : List Stmt → List Text
  | [] => []
  | s :: rest => lines unit depth s ++ linesList unit depth rest

end

/-- A unit of indentation: so many spaces, none for a negative width. -/
def unitOf (width : Int) : Text := List.replicate width.toNat ' '

def print (width : Int) (s : Stmt) : Text := Text.unlines (s.lines (unitOf width) 0)

/-- The text of statements as it goes into a buffer: every line but the first is moved right by
`base`, and lines end as they do in the buffer. -/
def printAll (b : Buffer) (width : Int) (base : Text) (ss : List Stmt) : Text :=
  let ls := (Text.unlines (ss.map (print width))).lines
  Text.joinWith b.newline (Text.mapContinuations (Text.indentLine base) ls)

end Stmt

end GuardClause
