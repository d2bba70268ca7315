import GuardClause.Text.Slice

/-!
# Lines and indentation

A line ends at a newline character. `Text.lines` cuts a text at every newline and
`Text.unlines` joins lines again, and neither loses anything (`unlines_lines`). A carriage return
directly before a newline belongs to the line ending: `Text.unifyNewlines` drops it. Blanks are
spaces and tabs.
-/

namespace GuardClause

/-- A space or a tab. -/
def isBlank (c : Char) : Bool := c = ' ' || c = '\t'

namespace Text

/-- The lines of a text, without their newlines. There is always at least one. -/
def lines : Text → List Text
  | [] => [[]]
  | c :: rest => if c = '\n' then [] :: lines rest else (lines rest).modifyHead (c :: ·)

/-- Lines joined by a line ending. -/
def joinWith (ending : Text) (ls : List Text) : Text := ending.intercalate ls

def unlines (ls : List Text) : Text := joinWith ['\n'] ls

/-- Every carriage return directly before a newline is dropped. -/
def unifyNewlines : Text → Text
  | '\r' :: '\n' :: rest => '\n' :: unifyNewlines rest
  | c :: rest => c :: unifyNewlines rest
  | [] => []

/-- Whether a carriage return stands directly before a newline somewhere. -/
def hasCrlf : Text → Bool
  | '\r' :: '\n' :: _ => true
  | _ :: rest => hasCrlf rest
  | [] => false

/-- A line moved right by `indent`; an empty line stays empty. -/
def indentLine (indent line : Text) : Text :=
  if line.isEmpty then line else indent ++ line

/-- A line without its first `width` characters as far as these are blanks. -/
def dedentLine : Nat → Text → Text
  | 0, line => line
  | _ + 1, [] => []
  | width + 1, c :: rest => if isBlank c then dedentLine width rest else c :: rest

/-- A text with every line after the first changed by `f`. -/
def mapContinuations (f : Text → Text) : List Text → List Text
  | [] => []
  | first :: rest => first :: rest.map f

theorem lines_ne_nil (t : Text) : lines t ≠ [] := by
  induction t with
  | nil => simp [lines]
  | cons c rest ih =>
      unfold lines
      split
      · simp
      · cases h : lines rest with
        | nil => exact absurd h ih
        | cons l ls => simp

theorem unlines_cons_cons (l k : Text) (ls : List Text) :
    unlines (l :: k :: ls) = l ++ '\n' :: unlines (k :: ls) := by
  simp [unlines, joinWith, List.intercalate]

/-- Cutting a text into lines loses nothing. -/
theorem unlines_lines (t : Text) : unlines (lines t) = t := by
  induction t with
  | nil => rfl
  | cons c rest ih =>
      cases h : lines rest with
      | nil => exact absurd h (lines_ne_nil rest)
      | cons l ls =>
          unfold lines
          split
          · rename_i hc
            rw [h, unlines_cons_cons, ← h, ih, hc]
            rfl
          · cases ls with
            | nil =>
                rw [h] at ih ⊢
                simpa [unlines, joinWith, List.intercalate] using congrArg (c :: ·) ih
            | cons k ks =>
                rw [h] at ih ⊢
                simp only [List.modifyHead_cons]
                rw [unlines_cons_cons] at ih ⊢
                rw [List.cons_append, ih]

end Text

end GuardClause
