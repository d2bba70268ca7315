import GuardClause.Buffer
import GuardClause.Text.Lines
import GuardClause.Validation.Reader

/-!
# Edits

An edit replaces a range of the buffer by new text. A range gives its two ends both by line and
column and by offset; applying an edit uses the offsets. `Edit.ofValue` reads an edit from
outside and complains about numbers below zero.
-/

namespace GuardClause

/-- The refactorings on offer. -/
inductive EditKind where
  | simplify
  | invertAndSimplify
  | convertTernary
deriving DecidableEq, Repr

namespace EditKind

def name : EditKind → String
  | simplify => "simplify_if_else"
  | invertAndSimplify => "invert_and_simplify_if_else"
  | convertTernary => "convert_ternary"

/-- What users see of a refactoring. -/
def title : EditKind → String
  | simplify => "Simplify if/else"
  | invertAndSimplify => "Invert and simplify if/else"
  | convertTernary => "Convert ternary into if/else"

/-- The refactorings in the order in which they are offered. -/
def all : List EditKind := [simplify, invertAndSimplify, convertTernary]

end EditKind

structure Range where
  start : Position
  stop : Position
  startOffset : Nat
  stopOffset : Nat
deriving DecidableEq, Repr

structure Edit where
  kind : EditKind
  title : String
  range : Range
  newText : Text
deriving DecidableEq, Repr

namespace Edit

/-- The text after an edit. -/
def apply (e : Edit) (t : Text) : Text :=
  t.take e.range.startOffset ++ e.newText ++ t.drop e.range.stopOffset

def readPosition : Value → Checked Position :=
  Reader.typed "TextPosition" fun r =>
    (Reader.both (Reader.required Reader.natural "line" r)
      (Reader.required Reader.natural "column" r)).map fun p => ⟨p.1, p.2⟩

def readRange : Value → Checked Range :=
  Reader.typed "TextRange" fun r =>
    (Reader.both (Reader.required readPosition "start" r)
      (Reader.both (Reader.required readPosition "end" r)
        (Reader.both (Reader.required Reader.natural "start_offset" r)
          (Reader.required Reader.natural "end_offset" r)))).map
      fun p => ⟨p.1, p.2.1, p.2.2.1, p.2.2.2⟩

def ofValue : Value → Checked Edit :=
  Reader.typed "ProposedEdit" fun r =>
    (Reader.both
      (Reader.required (Reader.choice (EditKind.all.map fun k => (k.name, k))) "kind" r)
      (Reader.both (Reader.required Reader.text "title" r)
        (Reader.both (Reader.required readRange "range" r)
          (Reader.required Reader.text "new_text" r)))).map
      fun p => ⟨p.1, p.2.1, p.2.2.1, p.2.2.2.toList⟩

def positionValue (p : Position) : Value :=
  .record [("line", .int p.line), ("column", .int p.column)]

def rangeValue (r : Range) : Value :=
  .record [("start", positionValue r.start), ("end", positionValue r.stop),
    ("start_offset", .int r.startOffset), ("end_offset", .int r.stopOffset)]

def toValue (e : Edit) : Value :=
  .record [("kind", .text e.kind.name), ("title", .text e.title), ("range", rangeValue e.range),
    ("new_text", .text (String.ofList e.newText))]

end Edit

end GuardClause
