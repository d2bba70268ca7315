import GuardClause.Proofs.Edits.Copies
import GuardClause.Proofs.Position.Ranges
import GuardClause.Proofs.Printing.Conserve
import GuardClause.Proofs.Text.Endings

/-!
# Line endings of edits

What is copied from a buffer has its newlines unified, and what is printed has its lines joined by
the ending of the buffer. Between the two only one thing can go wrong: a copied node that stops
inside a line ending keeps a carriage return, and an ending is written behind it. In a buffer with
pure line endings the text of an edit is therefore pure exactly when no node that is copied into it
stops there (`newText_paired_iff`).
-/

namespace GuardClause

open Text

/-! ## Carriage returns in what is printed -/

theorem Expr.cr_mem_print (e : Expr) : '\r' ∈ e.print ↔ '\r' ∈ e.core.text := by
  induction e with
  | fragment f => exact Iff.rfl
  | not operand ih =>
      rw [print, core, ← ih]
      split <;> simp

theorem Expr.cr_mem_printCondition (e : Expr) : '\r' ∈ e.printCondition ↔ '\r' ∈ e.core.text := by
  rw [← cr_mem_print]
  rcases e.printCondition_cases with heq | heq
  · rw [heq]
  · rw [← heq]
    simp

namespace Stmt

variable {unit indent : Text}

theorem cr_mem_indentedLines (h : indent.Blank) (t : Text) :
    '\r' ∈ (indentedLines indent t).flatten ↔ '\r' ∈ t := by
  rw [mem_flatten_of_map_flushLeft rfl (map_flushLeft_indentedLines h t)]
  exact mem_flatten_lines (by decide) t

theorem cr_mem_indentedHeader (h : indent.Blank) (e : Expr) :
    '\r' ∈ (indentedLines indent (ifHeader e)).flatten ↔ '\r' ∈ e.core.text := by
  rw [cr_mem_indentedLines h, ifHeader, List.mem_append, List.mem_append,
    Expr.cr_mem_printCondition]
  simp

/-- A word on a line of its own. -/
theorem cr_not_mem_indentedWord (h : indent.Blank) (word : Text) (hword : '\r' ∉ word) :
    '\r' ∉ [indent ++ word].flatten := by
  rw [List.flatten_singleton, List.mem_append]
  rintro (hmem | hmem)
  · cases h '\r' hmem
  · exact hword hmem

mutual

/-- Carriage returns are printed where a fragment holds them, and nowhere else. -/
theorem cr_mem_lines (h : unit.Blank) (depth : Nat) :
    ∀ s : Stmt, '\r' ∈ (s.lines unit depth).flatten ↔ ∃ f ∈ s.fragments, '\r' ∈ f.text
  | fragment f => by
      rw [lines, cr_mem_indentedLines (blank_indentation h depth)]
      simp [fragments]
  | ret none => by
      have hword := cr_not_mem_indentedWord (blank_indentation h depth) "return;".toList (by decide)
      rw [lines]
      simp only [hword, fragments, List.not_mem_nil, false_and, exists_false]
  | ret (some e) => by
      rw [lines, cr_mem_indentedLines (blank_indentation h depth), List.mem_append, List.mem_append,
        Expr.cr_mem_print]
      simp [fragments]
  | block body => by
      have hi := blank_indentation h depth
      have hopen := cr_not_mem_indentedWord hi ['\x7b'] (by decide)
      have hclose := cr_not_mem_indentedWord hi ['\x7d'] (by decide)
      simp only [lines, fragments, List.flatten_append, List.mem_append, hopen, hclose,
        cr_mem_linesList h (depth + 1) body, false_or, or_false]
  | ifThen c body => by
      have hi := blank_indentation h depth
      have hclose := cr_not_mem_indentedWord hi ['\x7d'] (by decide)
      simp only [lines, fragments, List.flatten_append, List.mem_append, hclose,
        cr_mem_indentedHeader hi, cr_mem_linesList h (depth + 1) body, or_false,
        List.exists_mem_cons_iff]
  | ifElse c body otherwise => by
      have hi := blank_indentation h depth
      have hclose := cr_not_mem_indentedWord hi ['\x7d'] (by decide)
      have helse := cr_not_mem_indentedWord hi "else \x7b".toList (by decide)
      simp only [lines, fragments, List.flatten_append, List.mem_append, hclose, helse,
        cr_mem_indentedHeader hi, cr_mem_linesList h (depth + 1) body,
        cr_mem_linesList h (depth + 1) otherwise, or_false, List.exists_mem_cons_iff, or_and_right,
        exists_or, or_assoc]

theorem cr_mem_linesList (h : unit.Blank) (depth : Nat) :
    ∀ ss : List Stmt,
      '\r' ∈ (linesList unit depth ss).flatten ↔ ∃ f ∈ fragmentsAll ss, '\r' ∈ f.text
  | [] => by simp [linesList, fragmentsAll]
  | s :: ss => by
      rw [linesList, List.flatten_append, List.mem_append, cr_mem_lines h depth s,
        cr_mem_linesList h depth ss, fragmentsAll]
      simp only [List.mem_append, or_and_right, exists_or]

end

/-! ## Statements in a buffer -/

theorem cr_mem_printed (width : Int) (ss : List Stmt) :
    '\r' ∈ (unlines (ss.map (print width))).lines.flatten ↔
      ∃ f ∈ fragmentsAll ss, '\r' ∈ f.text := by
  by_cases hne : ss = []
  · subst hne
    simp [unlines, joinWith, Text.lines, fragmentsAll]
  · rw [lines_unlines_print width hne]
    exact cr_mem_linesList (blank_unitOf width) 0 ss

theorem cr_mem_moved {base : Text} (hbase : base.Blank) (width : Int) (ss : List Stmt) :
    '\r' ∈ (mapContinuations (indentLine base) (unlines (ss.map (print width))).lines).flatten ↔
      ∃ f ∈ fragmentsAll ss, '\r' ∈ f.text := by
  rw [← cr_mem_printed width ss]
  exact mem_flatten_of_map_flushLeft rfl
    (map_flushLeft_mapContinuations (flushLeft_indentLine hbase) _)

/-- In a buffer with endings of two characters, what is printed is pure exactly when no fragment
holds a carriage return. -/
theorem paired_printAll {b : Buffer} (hb : b.text.hasCrlf = true) {base : Text}
    (hbase : base.Blank) (width : Int) (ss : List Stmt) :
    (printAll b width base ss).Paired ↔ ∀ f ∈ fragmentsAll ss, '\r' ∉ f.text := by
  have hnewline : b.newline = ['\r', '\n'] := if_pos hb
  have hfree := not_mem_mapContinuations (fun _ hl => not_mem_indentLine hbase.not_mem hl)
    (fun _ hl => not_mem_of_mem_lines (t := unlines (ss.map (print width))) hl)
  rw [printAll, hnewline, paired_joinWith hfree, cr_mem_moved hbase]
  simp only [not_exists, not_and]

/-- In a buffer with endings of one character, a carriage return comes from a fragment. -/
theorem cr_mem_printAll {b : Buffer} (hb : b.text.hasCrlf = false) {base : Text}
    (hbase : base.Blank) (width : Int) (ss : List Stmt) :
    '\r' ∈ printAll b width base ss ↔ ∃ f ∈ fragmentsAll ss, '\r' ∈ f.text := by
  have hnewline : b.newline = ['\n'] := if_neg (by rw [hb]; exact Bool.false_ne_true)
  rw [printAll, hnewline, mem_joinWith (by decide), cr_mem_moved hbase]

end Stmt

/-! ## Carriage returns in what is copied -/

namespace Arena

variable {a : Arena} {n : Node}

theorem cr_mem_fragmentOf (a : Arena) (n : Node) :
    '\r' ∈ (a.fragmentOf n).text ↔ '\r' ∈ (a.textOf n).unifyNewlines := by
  rw [← mem_flatten_lines (by decide) (a.fragmentOf n).text,
    mem_flatten_of_map_flushLeft rfl (map_flushLeft_fragmentOf a n), linesOf,
    mem_flatten_lines (by decide)]

/-- A copy of a node holds a carriage return exactly when the node stops behind one. -/
theorem cr_mem_fragmentOf_of_paired (h : a.buffer.text.Paired) (n : Node) :
    '\r' ∈ (a.fragmentOf n).text ↔ (a.textOf n).getLast? = some '\r' := by
  rw [cr_mem_fragmentOf]
  exact cr_mem_unifyNewlines (isChain_slice (paired_iff.mp h).1 n.start n.stop)

theorem cr_not_mem_fragmentOf (h : '\r' ∉ a.buffer.text) (n : Node) :
    '\r' ∉ (a.fragmentOf n).text := by
  rw [cr_mem_fragmentOf]
  intro hmem
  exact h (mem_of_mem_slice (mem_of_mem_unifyNewlines hmem))

end Arena

/-! ## Edits -/

/-- What becomes of line endings in an edit that is made of copies. -/
structure Arena.EndsLines (a : Arena) (r : Replacement) (e : Edit) : Prop where
  copies : a.Copies (Stmt.fragmentsAll r.statements)
  /-- Where the endings of the buffer are pure, those of the edit are, unless a copied node stops
  inside an ending. -/
  paired_iff : a.buffer.text.Paired → '\n' ∈ a.buffer.text →
    (e.newText.Paired ↔ ∀ m, a.Copied r.statements m → (a.textOf m).getLast? ≠ some '\r')
  /-- Where the buffer has no carriage return, the edit has none. -/
  not_mem : '\r' ∉ a.buffer.text → '\r' ∉ e.newText

/-- Every edit on offer replaces a node by copies of nodes. In a buffer with pure line endings its
text has pure line endings exactly when none of these nodes stops between a carriage return and a
newline; in a buffer without carriage returns its text has none. -/
theorem newText_paired_iff {a : Arena} {offset width : Int} {es : List Edit}
    (h : a.propose offset width = .ok es) {e : Edit} (he : e ∈ es) :
    ∃ kind n r, a.replace n kind = .ok r ∧ a.Replaces width kind n r.statements e ∧
      a.EndsLines r e := by
  obtain ⟨kind, n, r, hfound, hr, hrep⟩ := Arena.of_mem_propose h he
  have hcopies := Arena.copies_of_replace (Arena.mem_of_targetOf hfound) hr
  have hbase := blank_lineIndent a.buffer n.start
  refine ⟨kind, n, r, hr, hrep, hcopies, ?_, ?_⟩
  · intro hpaired hmem
    rw [hrep.newText_eq, Stmt.paired_printAll (hpaired.hasCrlf hmem) hbase]
    constructor
    · rintro hfree m ⟨-, hm⟩ hlast
      exact hfree _ hm ((Arena.cr_mem_fragmentOf_of_paired hpaired m).mpr hlast)
    · intro hlast f hf hcr
      obtain ⟨m, hm, rfl⟩ := hcopies f hf
      exact hlast m ⟨hm, hf⟩ ((Arena.cr_mem_fragmentOf_of_paired hpaired m).mp hcr)
  · intro hfree hmem
    have hcrlf : a.buffer.text.hasCrlf = false :=
      Bool.eq_false_of_not_eq_true fun hcrlf => hfree (cr_mem_of_hasCrlf hcrlf)
    rw [hrep.newText_eq, Stmt.cr_mem_printAll hcrlf hbase] at hmem
    obtain ⟨f, hf, hcr⟩ := hmem
    obtain ⟨m, -, rfl⟩ := hcopies f hf
    exact Arena.cr_not_mem_fragmentOf hfree m hcr

/-- The tree of an if/else with a comment in its first branch. -/
def commentedIf (stop : Int) : Concrete :=
  .node ⟨"program", 0, 18, none, true⟩ [
    .node ⟨"if_statement", 0, 18, none, true⟩ [
      .node ⟨"parenthesized_expression", 2, 5, some "condition", true⟩ [
        .node ⟨"identifier", 3, 4, none, true⟩ []],
      .node ⟨"block", 5, 12, some "consequence", true⟩ [
        .node ⟨"line_comment", 6, stop, none, true⟩ []],
      .node ⟨"block", 16, 18, some "alternative", true⟩ []]]

set_option maxRecDepth 4000 in
theorem propose_commentedIf :
    ∃ a e e', Bundled.java.grammar.parse "if(a)\x7b//x\r\n\x7delse\x7b\x7d".toList
        ⟨some (commentedIf 9), false⟩ = .ok a ∧
      a.propose 0 4 = .ok [e, e'] :=
  ⟨_, _, _, rfl, rfl⟩

theorem newText_paired_iff_commentedIf :
    ∃ a e e', Bundled.java.grammar.parse "if(a)\x7b//x\r\n\x7delse\x7b\x7d".toList
        ⟨some (commentedIf 9), false⟩ = .ok a ∧
      a.propose 0 4 = .ok [e, e'] ∧ e ∈ [e, e'] ∧
      ∃ kind n r, a.replace n kind = .ok r ∧ a.Replaces 4 kind n r.statements e ∧
        a.EndsLines r e := by
  obtain ⟨a, e, e', h, hes⟩ := propose_commentedIf
  exact ⟨a, e, e', h, hes, List.mem_cons_self, newText_paired_iff hes List.mem_cons_self⟩

set_option maxRecDepth 4000 in
/-- Pure line endings are not kept when the comment is taken to reach up to the newline. -/
theorem newText_not_paired_commentedIf :
    ∃ a e e', Bundled.java.grammar.parse "if(a)\x7b//x\r\n\x7delse\x7b\x7d".toList
        ⟨some (commentedIf 10), false⟩ = .ok a ∧
      a.buffer.text.Paired ∧ '\n' ∈ a.buffer.text ∧ (∀ n ∈ a.nodes.toList, a.Inside n) ∧
      a.propose 0 4 = .ok [e, e'] ∧ ¬ e.newText.Paired ∧ ¬ e'.newText.Paired :=
  ⟨_, _, _, rfl, by decide, by decide, by decide, rfl, by decide, by decide⟩

end GuardClause
