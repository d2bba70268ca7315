import GuardClause.Value

/-!
# Errors in the log

A record may carry an error: the name of its kind and its text. It is written with a trace, which
for an error that was never raised is one line.

Users report errors by the short name of their kind and some parts. The text of an error without
parts is empty, that of an error with one part is the part itself, and several parts are listed in
parentheses. An error about a key quotes the key.
-/

namespace GuardClause.Log

structure ErrorInfo where
  /-- The name of the kind of error, with the components it lies in, separated by points. -/
  kind : String
  text : String
deriving DecidableEq, Repr

namespace ErrorInfo

/-- The last part of the kind's name. -/
def shortKind (e : ErrorInfo) : String :=
  String.ofList (e.kind.toList.reverse.takeWhile (· ≠ '.')).reverse

/-- The trace of an error that was never raised: one line with its kind and its text. -/
def trace (e : ErrorInfo) : String :=
  if e.text.isEmpty then e.kind ++ "\n" else e.kind ++ ": " ++ e.text ++ "\n"

def render (e : ErrorInfo) : Value :=
  .record [("type", .text e.shortKind), ("message", .text e.text), ("stack_trace", .text e.trace)]

/-! ## Errors by kind -/

/-- The component of the library in which a kind of error lies. -/
def component? (shortKind : String) : Option String :=
  [("PreconditionError", "flipper.engine.errors"), ("RefactorError", "flipper.engine.errors"),
    ("UnsupportedLanguageError", "flipper.services.refactoring_service"),
    ("SourceTooLargeError", "flipper.services.refactoring_service")].lookup shortKind

/-- The full name of a kind of error. -/
def fullKind (shortKind : String) : String :=
  match component? shortKind with
  | some component => component ++ "." ++ shortKind
  | none => shortKind

/-- The text of an error with some parts. -/
def textOf (shortKind : String) : List Value → String
  | [] => ""
  | [v] => if shortKind = "KeyError" then v.display else v.displayPlain
  | vs => "(" ++ String.intercalate ", " (vs.map Value.display) ++ ")"

/-- The error of a kind with some parts. -/
def ofParts (shortKind : String) (parts : List Value) : ErrorInfo :=
  ⟨fullKind shortKind, textOf shortKind parts⟩

end ErrorInfo

end GuardClause.Log
