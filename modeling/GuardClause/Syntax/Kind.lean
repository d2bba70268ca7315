/-!
# Kinds of syntax nodes

The refactorings tell a dozen shapes of syntax apart, whatever a grammar calls them. `Kind.name`
is the spelling of a kind in configurations and answers, and `Kind.ofName?` reads it.
-/

namespace GuardClause

/-- The shapes of syntax that matter to the refactorings. -/
inductive Kind where
  | program
  | ifStatement
  | elseClause
  | block
  | returnStatement
  | conditional
  | negation
  | parenthesized
  | switchCase
  | comment
  | expression
  | statement
  | other
deriving DecidableEq, Repr

namespace Kind

def name : Kind → String
  | program => "program"
  | ifStatement => "if_statement"
  | elseClause => "else_clause"
  | block => "block"
  | returnStatement => "return_statement"
  | conditional => "conditional_expression"
  | negation => "not_expression"
  | parenthesized => "parenthesized_expression"
  | switchCase => "switch_case"
  | comment => "comment"
  | expression => "expression"
  | statement => "statement"
  | other => "other"

/-- All kinds, in the order in which they are listed to users. -/
def all : List Kind :=
  [program, ifStatement, elseClause, block, returnStatement, conditional, negation,
    parenthesized, switchCase, comment, expression, statement, other]

def ofName? (s : String) : Option Kind := all.find? (·.name = s)

theorem mem_all (k : Kind) : k ∈ all := by cases k <;> decide

theorem ofName?_name (k : Kind) : ofName? k.name = some k := by cases k <;> decide

/-- Kinds whose children run one after another, so that one of them can be replaced by several. -/
def isStatementList : Kind → Bool
  | program | block | switchCase => true
  | _ => false

/-- Kinds that wrap a single operand. -/
def isWrapper : Kind → Bool
  | parenthesized | elseClause => true
  | _ => false

end Kind

end GuardClause
