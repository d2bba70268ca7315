import GuardClause.Proofs.Edits.Copies
import GuardClause.Proofs.Printing.Conserve
import GuardClause.Proofs.Text.Brackets

/-!
# Brackets in edits

What is written around fragments brings its own brackets in pairs: braces around blocks,
parentheses around operands and conditions. A condition that stands in parentheses of its own gives
them up for those of the if-statement. Cutting fragments into lines and moving these touches no
bracket at all. So what is printed for balanced fragments is balanced (`Stmt.balanced_printAll`),
and an edit puts balanced text in the place of balanced text (`brackets_stay_balanced`).
-/

namespace GuardClause

open Text

/-! ## Brackets in expressions -/

theorem Expr.balanced_print {e : Expr} (h : e.core.text.Balanced) : e.print.Balanced := by
  induction e with
  | fragment f => exact h
  | not operand ih =>
      rw [print]
      apply Balanced.other rfl
      split
      · exact (ih h).enclose rfl
      · exact ih h

/-- In the parentheses of an if-statement a condition is balanced. -/
theorem Expr.balanced_condition {e : Expr} (h : e.core.text.Balanced) :
    Balanced ('(' :: (e.printCondition ++ [')'])) := by
  have hprint := balanced_print h
  rcases e.printCondition_cases with heq | heq
  · rw [heq]
    exact hprint.enclose rfl
  · rw [heq]
    exact hprint

/-! ## Brackets in lines -/

namespace Stmt

variable {unit indent body : Text} {condition : Expr}

theorem brackets_indentedLines (h : indent.Blank) (t : Text) :
    brackets (indentedLines indent t).flatten = brackets t := by
  have hlines := filter_flatten_of_map_flushLeft isBracket_of_isBlank
    (map_flushLeft_indentedLines h t)
  exact hlines.trans (filter_flatten_lines rfl t)

/-- Braces, the second one on a line of its own. -/
theorem balanced_braced (h : indent.Blank) (hbody : Balanced body) :
    Balanced ('\x7b' :: (body ++ (indent ++ ['\x7d']))) := by
  rw [← List.append_assoc]
  exact (hbody.append h.balanced).enclose rfl

/-- An if-statement with one block. -/
theorem balanced_guarded (h : indent.Blank) (hcondition : condition.core.text.Balanced)
    (hbody : Balanced body) :
    Balanced ((indentedLines indent (ifHeader condition)).flatten ++ body ++
      (indent ++ ['\x7d'])) := by
  have hword : Balanced "if ".toList := by decide
  have hspace : Balanced [' '] := by decide
  have hplain := (hword.append (Expr.balanced_condition hcondition)).append
    (hspace.append (balanced_braced h hbody))
  have htext : "if ".toList ++ '(' :: (condition.printCondition ++ [')']) ++
      ([' '] ++ '\x7b' :: (body ++ (indent ++ ['\x7d']))) =
        ifHeader condition ++ body ++ (indent ++ ['\x7d']) := by
    simp [ifHeader]
  rw [htext] at hplain
  refine (balanced_congr ?_).mpr hplain
  simp only [brackets_append, brackets_indentedLines h]

mutual

/-- The lines of a statement are balanced when its fragments are. -/
theorem balanced_lines (h : unit.Blank) (depth : Nat) :
    ∀ s : Stmt, (∀ f ∈ s.fragments, f.text.Balanced) → Balanced (s.lines unit depth).flatten
  | fragment f, hs => by
      rw [lines, balanced_congr (brackets_indentedLines (blank_indentation h depth) f.text)]
      exact hs f List.mem_cons_self
  | ret none, _ => by
      have hword : Balanced "return;".toList := by decide
      rw [lines, List.flatten_singleton]
      exact (blank_indentation h depth).balanced.append hword
  | ret (some e), hs => by
      have hword : Balanced "return ".toList := by decide
      have hstop : Balanced [';'] := by decide
      have he := Expr.balanced_print (hs e.core List.mem_cons_self)
      rw [lines, balanced_congr (brackets_indentedLines (blank_indentation h depth) _)]
      exact (hword.append he).append hstop
  | block body, hs => by
      have hi := blank_indentation h depth
      have hbody := balanced_linesList h (depth + 1) body hs
      have hall := hi.balanced.append (balanced_braced hi hbody)
      simpa [lines] using hall
  | ifThen c body, hs => by
      rw [fragments, List.forall_mem_cons] at hs
      have hbody := balanced_linesList h (depth + 1) body hs.2
      have hall := balanced_guarded (blank_indentation h depth) hs.1 hbody
      simpa [lines] using hall
  | ifElse c body otherwise, hs => by
      rw [fragments, List.forall_mem_cons, List.forall_mem_append] at hs
      obtain ⟨hc, hbody, hotherwise⟩ := hs
      have hi := blank_indentation h depth
      have hword : Balanced "else ".toList := by decide
      have hthen := balanced_guarded hi hc (balanced_linesList h (depth + 1) body hbody)
      have helse := balanced_braced hi (balanced_linesList h (depth + 1) otherwise hotherwise)
      have hall := hthen.append ((hi.balanced.append hword).append helse)
      simpa [lines] using hall

theorem balanced_linesList (h : unit.Blank) (depth : Nat) :
    ∀ ss : List Stmt, (∀ f ∈ fragmentsAll ss, f.text.Balanced) →
      Balanced (linesList unit depth ss).flatten
  | [], _ => .nil
  | s :: ss, hs => by
      rw [fragmentsAll, List.forall_mem_append] at hs
      rw [linesList, List.flatten_append]
      exact (balanced_lines h depth s hs.1).append (balanced_linesList h depth ss hs.2)

end

/-! ## Statements in a buffer -/

theorem isBracket_newline (b : Buffer) : ∀ c ∈ b.newline, isBracket c = false := by
  unfold Buffer.newline
  split
  · simp [isBracket, closerOf?, isCloser]
  · simp [isBracket, closerOf?, isCloser]

theorem brackets_printAll (b : Buffer) (width : Int) {base : Text} (hbase : base.Blank)
    {ss : List Stmt} (h : ss ≠ []) :
    (printAll b width base ss).brackets = brackets (linesList (unitOf width) 0 ss).flatten := by
  have hmoved := filter_flatten_of_map_flushLeft isBracket_of_isBlank
    (map_flushLeft_mapContinuations (flushLeft_indentLine hbase)
      (unlines (ss.map (print width))).lines)
  have hjoined : (printAll b width base ss).brackets = brackets
      (mapContinuations (indentLine base) (unlines (ss.map (print width))).lines).flatten :=
    filter_joinWith (isBracket_newline b) _
  rw [hjoined, ← lines_unlines_print width h]
  exact hmoved

/-- What is printed for statements is balanced when their fragments are. -/
theorem balanced_printAll (b : Buffer) (width : Int) {base : Text} (hbase : base.Blank)
    {ss : List Stmt} (h : ∀ f ∈ fragmentsAll ss, f.text.Balanced) :
    (printAll b width base ss).Balanced := by
  by_cases hne : ss = []
  · subst hne
    exact .nil
  · rw [balanced_congr (brackets_printAll b width hbase hne)]
    exact balanced_linesList (blank_unitOf width) 0 ss h

end Stmt

/-! ## Edits -/

namespace Arena

variable {a : Arena} {n : Node}

/-- A copy has the brackets of its node. -/
theorem brackets_fragmentOf (a : Arena) (n : Node) :
    (a.fragmentOf n).text.brackets = (a.textOf n).brackets := by
  have hlines := filter_flatten_of_map_flushLeft isBracket_of_isBlank (map_flushLeft_fragmentOf a n)
  rw [linesOf, filter_flatten_lines rfl, filter_flatten_lines rfl,
    filter_unifyNewlines rfl] at hlines
  exact hlines

/-- Every node begins and ends in the buffer, and does not end before it begins. -/
def SpansInside (a : Arena) : Prop :=
  ∀ n ∈ a.nodes, 0 ≤ n.start ∧ n.start ≤ n.stop ∧ n.stop ≤ a.buffer.text.length

/-- The buffer stays balanced, or unbalanced, when a balanced stretch is replaced by balanced
text. -/
theorem balanced_apply_iff (hspans : a.SpansInside) (hn : n ∈ a.nodes) {e : Edit}
    (hrange : a.rangeOf n = .ok e.range) (hold : (a.textOf n).Balanced)
    (hnew : e.newText.Balanced) :
    (e.apply a.buffer.text).Balanced ↔ a.buffer.text.Balanced := by
  obtain ⟨hstart, hle, hstop⟩ := hspans n hn
  obtain ⟨-, -, hoffsets⟩ := rangeOf_eq_ok.mp hrange
  have hcut := take_append_slice_append_drop hstart hle hstop
  conv_rhs => rw [← hcut]
  rw [Edit.apply, hoffsets]
  exact balanced_replace hnew hold _ _

end Arena

/-- Printing keeps brackets balanced, whatever the statements are built from, and so does every edit
on offer: it replaces a node by statements, and when the text of that node and the texts of the
nodes that are copied are balanced, the buffer is balanced after the edit exactly when it was
before. -/
theorem brackets_stay_balanced :
    (∀ (b : Buffer) (width : Int) {base : Text} {ss : List Stmt}, base.Blank →
      (∀ f ∈ Stmt.fragmentsAll ss, f.text.Balanced) →
        (Stmt.printAll b width base ss).Balanced) ∧
    ∀ {a : Arena} {offset width : Int} {es : List Edit}, a.SpansInside →
      a.propose offset width = .ok es → ∀ e ∈ es,
        ∃ kind, ∃ n ∈ a.nodes, ∃ r, a.replace n kind = .ok r ∧
          a.Replaces width kind n r.statements e ∧
          ((a.textOf n).Balanced → (∀ m, a.Copied r.statements m → (a.textOf m).Balanced) →
            ((e.apply a.buffer.text).Balanced ↔ a.buffer.text.Balanced)) := by
  refine ⟨fun b width _ _ hbase h => Stmt.balanced_printAll b width hbase h, ?_⟩
  intro a offset width es hspans h e he
  obtain ⟨kind, n, r, hfound, hr, hrep⟩ := Arena.of_mem_propose h he
  have hn := Arena.mem_of_targetOf hfound
  refine ⟨kind, n, hn, r, hr, hrep, ?_⟩
  intro hold hcopied
  have hfragments : ∀ f ∈ Stmt.fragmentsAll r.statements, f.text.Balanced := by
    intro f hf
    obtain ⟨m, hm, rfl⟩ := Arena.copies_of_replace hn hr f hf
    exact (balanced_congr (Arena.brackets_fragmentOf a m)).mpr (hcopied m ⟨hm, hf⟩)
  have hnew : e.newText.Balanced := by
    rw [hrep.newText_eq]
    exact Stmt.balanced_printAll _ width (blank_lineIndent _ _) hfragments
  exact Arena.balanced_apply_iff hspans hn hrep.range_eq hold hnew

/-- An if-statement whose condition has parentheses at both ends that do not belong together. -/
def calledCondition : Stmt :=
  .ifThen (.fragment ⟨"(a)(b)".toList, "parenthesized_expression", .parenthesized⟩) [.ret none]

/-- The tree of a call whose argument is a conditional expression with brackets in both branches. -/
def bracketedTernary : Concrete :=
  .node ⟨"program", 0, 12, none, true⟩ [
    .node ⟨"call_expression", 0, 12, none, true⟩ [
      .node ⟨"identifier", 0, 1, some "function", true⟩ [],
      .node ⟨"arguments", 1, 12, some "arguments", true⟩ [
        .node ⟨"ternary_expression", 2, 11, none, true⟩ [
          .node ⟨"identifier", 2, 3, some "condition", true⟩ [],
          .node ⟨"array", 4, 7, some "consequence", true⟩ [],
          .node ⟨"parenthesized_expression", 8, 11, some "alternative", true⟩ [
            .node ⟨"identifier", 9, 10, none, true⟩ []]]]]]

set_option maxRecDepth 4000 in
theorem propose_bracketedTernary :
    ∃ a e, Bundled.typescript.grammar.parse "f(a?[b]:(c))".toList
        ⟨some bracketedTernary, false⟩ = .ok a ∧
      (∀ n ∈ a.nodes.toList, 0 ≤ n.start ∧ n.start ≤ n.stop ∧ n.stop ≤ a.buffer.text.length) ∧
      (∀ n ∈ a.nodes.toList, (a.textOf n).Balanced) ∧ a.buffer.text.Balanced ∧
      a.propose 3 4 = .ok [e] :=
  ⟨_, _, rfl, by decide, by decide, by decide, rfl⟩

theorem brackets_stay_balanced_bracketedTernary :
    (Stmt.printAll ⟨[]⟩ 4 ['\t'] [calledCondition]).Balanced ∧
    ∃ a e, Bundled.typescript.grammar.parse "f(a?[b]:(c))".toList
        ⟨some bracketedTernary, false⟩ = .ok a ∧
      a.SpansInside ∧ a.propose 3 4 = .ok [e] ∧ a.buffer.text.Balanced ∧
      (∃ kind, ∃ n ∈ a.nodes, ∃ r, a.replace n kind = .ok r ∧
        a.Replaces 4 kind n r.statements e ∧ (a.textOf n).Balanced ∧
        ∀ m, a.Copied r.statements m → (a.textOf m).Balanced) ∧
      (e.apply a.buffer.text).Balanced := by
  obtain ⟨a, e, h, hspans, hnodes, hbuffer, hes⟩ := propose_bracketedTernary
  have hinside : a.SpansInside := fun n hn => hspans n (Array.mem_toList_iff.mpr hn)
  have hall : ∀ n ∈ a.nodes, (a.textOf n).Balanced :=
    fun n hn => hnodes n (Array.mem_toList_iff.mpr hn)
  obtain ⟨kind, n, hn, r, hr, hrep, hiff⟩ :=
    brackets_stay_balanced.2 hinside hes e List.mem_cons_self
  have hcopied : ∀ m, a.Copied r.statements m → (a.textOf m).Balanced := fun m hm => hall m hm.1
  have hprinted : (Stmt.printAll ⟨[]⟩ 4 ['\t'] [calledCondition]).Balanced :=
    brackets_stay_balanced.1 _ _ (List.forall_mem_singleton.mpr rfl) (by decide)
  exact ⟨hprinted, a, e, h, hinside, hes, hbuffer, ⟨kind, n, hn, r, hr, hrep, hall n hn, hcopied⟩,
    (hiff (hall n hn) hcopied).mpr hbuffer⟩

end GuardClause
