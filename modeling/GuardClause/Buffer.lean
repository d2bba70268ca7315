import GuardClause.Text.Lines

/-!
# Buffers: offsets, lines and columns

A buffer is the text being edited. A place in it is given either by an offset, the number of
characters before it, or by a line and a column, both counted from zero. `Buffer.offsetOf` and
`Buffer.positionOf` convert between the two through the table of line starts. Both accept any
integer and move it to the nearest place of the buffer.
-/

namespace GuardClause

/-- A place given by line and column, both counted from zero. -/
structure Position where
  line : Nat
  column : Nat
deriving DecidableEq, Repr

structure Buffer where
  text : Text

namespace Buffer

/-- The offsets that follow a newline, in increasing order, of a text that begins at offset `o`. -/
def startsAfter (o : Nat) : Text → List Nat
  | [] => []
  | c :: rest => if c = '\n' then (o + 1) :: startsAfter (o + 1) rest else startsAfter (o + 1) rest

/-- The offsets at which the lines start: zero, then each offset after a newline. -/
def lineStarts (b : Buffer) : List Nat := 0 :: startsAfter 0 b.text

def lineCount (b : Buffer) : Nat := b.lineStarts.length

/-- The line ending of the buffer: a carriage return and a newline if the two stand together
anywhere in it, otherwise a newline. -/
def newline (b : Buffer) : Text :=
  if b.text.hasCrlf then ['\r', '\n'] else ['\n']

/-- Where line `line` starts; zero for a line that does not exist. -/
def lineStart (b : Buffer) (line : Nat) : Nat := b.lineStarts[line]?.getD 0

/-- Where line `line` ends: at its newline, or at the end of the text for the last line. -/
def lineStop (b : Buffer) (line : Nat) : Nat :=
  match b.lineStarts[line + 1]? with
  | some next => next - 1
  | none => b.text.length

/-- The offset of a line and a column. The line is first moved to an existing one and the column
then into that line. -/
def offsetOf (b : Buffer) (line column : Int) : Nat :=
  let l := min line.toNat (b.lineCount - 1)
  min (b.lineStart l + column.toNat) (b.lineStop l)

/-- The number of the line that holds offset `o`: the last one that starts at or before it. -/
def lineAt (b : Buffer) (o : Nat) : Nat := b.lineStarts.countP (· ≤ o) - 1

/-- The line and the column of an offset, which is first moved into the buffer. -/
def positionOf (b : Buffer) (offset : Int) : Position :=
  let o := min offset.toNat b.text.length
  let line := b.lineAt o
  ⟨line, o - b.lineStart line⟩

/-- The blanks at the start of the line that holds an offset. -/
def lineIndent (b : Buffer) (offset : Int) : Text :=
  (b.text.drop (b.lineStart (b.positionOf offset).line)).takeWhile isBlank

end Buffer

end GuardClause
