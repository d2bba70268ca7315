import GuardClause.Proofs.Printing.Conserve
import GuardClause.Proofs.Text.Endings

/-!
# A statement printed where it stands

A copied statement loses the indentation of the line where it starts and gets it back when it is
printed there. The two steps do not look at the same thing: the first counts blanks, the second puts
the indentation before every line that is left with something. They undo each other exactly on
statements whose lines are empty or carry that indentation with something behind it, and whose line
endings are those that the buffer is given (`reprint_eq_textOf_iff`). On any other statement the
lines stay where they are and keep all but the blanks at their starts.
-/

namespace GuardClause

open Text

/-- The text of a node, taken over as a fragment and printed where the node stands. -/
def Arena.reprint (a : Arena) (width : Int) (n : Node) : Text :=
  Stmt.printAll a.buffer width (a.buffer.lineIndent n.start) [.fragment (a.fragmentOf n)]

/-- Each line of a node but the first is empty or indented as the line where the node starts, with
something behind the indentation, and its endings are those of the buffer. -/
structure Arena.Conforms (a : Arena) (n : Node) : Prop where
  indented : ∀ l ∈ (a.linesOf n).tail, l = [] ∨
    a.buffer.lineIndent n.start <+: l ∧ (a.buffer.lineIndent n.start).length < l.length
  endings : a.buffer.text.hasCrlf = false ∨ (a.textOf n).FullEndings

/-- A text has the lines of another one, of which all but the first may be moved. -/
structure Text.Moves (t u : Text) : Prop where
  length_eq : u.unifyNewlines.lines.length = t.unifyNewlines.lines.length
  head_eq : u.unifyNewlines.lines.head? = t.unifyNewlines.lines.head?
  tail_eq : u.unifyNewlines.lines.tail.map flushLeft = t.unifyNewlines.lines.tail.map flushLeft

namespace Arena

variable (a : Arena) (width : Int) (n : Node)

/-- The lines of a node after both steps. -/
def reindentedLines : List Text :=
  let indent := a.buffer.lineIndent n.start
  mapContinuations (fun l => indentLine indent (dedentLine indent.length l)) (a.linesOf n)

theorem reprint_eq : a.reprint width n = joinWith a.buffer.newline (a.reindentedLines n) := by
  have hlines : Stmt.linesList (Stmt.unitOf width) 0 [.fragment (a.fragmentOf n)] =
      (a.fragmentOf n).text.lines := by
    rw [Stmt.linesList, Stmt.lines, Stmt.indentedLines_zero, Stmt.linesList, List.append_nil]
  rw [reprint, Stmt.printAll, Stmt.lines_unlines_print width (List.cons_ne_nil _ _), hlines,
    lines_fragmentOf, mapContinuations_mapContinuations]
  rfl

theorem reindentedLines_ne_nil : a.reindentedLines n ≠ [] :=
  mapContinuations_ne_nil (lines_ne_nil _)

theorem not_mem_reindentedLines : ∀ l ∈ a.reindentedLines n, '\n' ∉ l := by
  have hindent := (blank_lineIndent a.buffer n.start).not_mem
  apply not_mem_mapContinuations
  · intro l hl
    exact not_mem_indentLine hindent (not_mem_dedentLine _ hl)
  · exact fun l hl => not_mem_of_mem_lines hl

theorem map_flushLeft_reindentedLines :
    (a.reindentedLines n).map flushLeft = (a.linesOf n).map flushLeft := by
  apply map_flushLeft_mapContinuations
  intro l
  rw [flushLeft_indentLine (blank_lineIndent a.buffer n.start), flushLeft_dedentLine]

theorem reindentedLines_eq_iff :
    a.reindentedLines n = a.linesOf n ↔ ∀ l ∈ (a.linesOf n).tail, l = [] ∨
      a.buffer.lineIndent n.start <+: l ∧ (a.buffer.lineIndent n.start).length < l.length := by
  rw [reindentedLines, mapContinuations_eq_self_iff]
  simp only [indentLine_dedentLine_eq_iff (blank_lineIndent a.buffer n.start)]

/-! ## In either sort of buffer -/

variable {a n}

theorem hasCrlf_textOf (h : a.buffer.text.hasCrlf = false) : (a.textOf n).hasCrlf = false :=
  hasCrlf_slice h _ _

theorem linesOf_of_hasCrlf_eq_false (h : a.buffer.text.hasCrlf = false) :
    a.linesOf n = (a.textOf n).lines := by
  rw [linesOf, unifyNewlines_of_hasCrlf_eq_false (hasCrlf_textOf h)]

theorem reprint_of_hasCrlf_eq_false (h : a.buffer.text.hasCrlf = false) :
    a.reprint width n = unlines (a.reindentedLines n) := by
  rw [reprint_eq, Buffer.newline, h]
  rfl

theorem reprint_of_hasCrlf_eq_true (h : a.buffer.text.hasCrlf = true) :
    a.reprint width n = joinWith ['\r', '\n'] (a.reindentedLines n) := by
  rw [reprint_eq, Buffer.newline, if_pos h]

theorem lines_unifyNewlines_reprint (a : Arena) (width : Int) (n : Node) :
    (a.reprint width n).unifyNewlines.lines = a.reindentedLines n := by
  have hne := a.reindentedLines_ne_nil n
  have hfree := a.not_mem_reindentedLines n
  cases hcrlf : a.buffer.text.hasCrlf with
  | true =>
      rw [reprint_of_hasCrlf_eq_true width hcrlf]
      exact lines_unifyNewlines_joinWith hne hfree
  | false =>
      -- No ending of two characters comes about, because there was none before.
      have hsame : (unlines (a.reindentedLines n)).hasCrlf = (unlines (a.linesOf n)).hasCrlf :=
        hasCrlf_unlines_congr hfree (fun _ hl => not_mem_of_mem_lines hl)
          (a.map_flushLeft_reindentedLines n)
      rw [linesOf_of_hasCrlf_eq_false hcrlf, unlines_lines, hasCrlf_textOf hcrlf] at hsame
      rw [reprint_of_hasCrlf_eq_false width hcrlf, unifyNewlines_of_hasCrlf_eq_false hsame,
        lines_unlines hne hfree]

theorem moves_reprint (a : Arena) (width : Int) (n : Node) :
    (a.textOf n).Moves (a.reprint width n) := by
  have hlines := lines_unifyNewlines_reprint a width n
  constructor
  case length_eq =>
      rw [hlines, reindentedLines, length_mapContinuations]
      rfl
  case head_eq =>
      rw [hlines, reindentedLines, head?_mapContinuations]
      rfl
  case tail_eq =>
      rw [hlines, List.map_tail, map_flushLeft_reindentedLines, ← List.map_tail]
      rfl

end Arena

/-- Taking a statement over and printing it where it stands gives its text back exactly when the
statement conforms to its place. In all cases its lines are still there: the first as it was, the
others with nothing changed but the blanks at their starts. -/
theorem reprint_eq_textOf_iff (a : Arena) (width : Int) (n : Node) :
    (a.reprint width n = a.textOf n ↔ a.Conforms n) ∧
      (a.textOf n).Moves (a.reprint width n) := by
  refine ⟨?_, Arena.moves_reprint a width n⟩
  have hne := a.reindentedLines_ne_nil n
  have hfree := a.not_mem_reindentedLines n
  -- The lines of both texts tell whether the indentation came back.
  have hindented : a.reprint width n = a.textOf n → a.reindentedLines n = a.linesOf n := by
    intro h
    rw [← Arena.lines_unifyNewlines_reprint a width n, h]
    rfl
  constructor
  · intro h
    refine ⟨(a.reindentedLines_eq_iff n).mp (hindented h), ?_⟩
    cases hcrlf : a.buffer.text.hasCrlf with
    | true =>
        right
        rw [← h, Arena.reprint_of_hasCrlf_eq_true width hcrlf]
        exact fullEndings_joinWith hfree
    | false => exact Or.inl rfl
  · rintro ⟨hlines, hendings⟩
    have hsame := (a.reindentedLines_eq_iff n).mpr hlines
    cases hcrlf : a.buffer.text.hasCrlf with
    | true =>
        have hfull : (a.textOf n).FullEndings := hendings.resolve_left (by simp [hcrlf])
        rw [Arena.reprint_of_hasCrlf_eq_true width hcrlf, hsame]
        exact joinWith_lines_of_fullEndings hfull
    | false =>
        rw [Arena.reprint_of_hasCrlf_eq_false width hcrlf, hsame,
          Arena.linesOf_of_hasCrlf_eq_false hcrlf, unlines_lines]

end GuardClause
