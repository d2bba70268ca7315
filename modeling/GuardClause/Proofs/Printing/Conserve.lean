import GuardClause.Proofs.Edits.Offers
import GuardClause.Proofs.Meaning.Flatten
import GuardClause.Proofs.Printing.Lines

/-!
# Flattening keeps the lines of both branches

On their way into an edit the statements of a branch are cut into lines, dedented, indented, joined
and cut again. None of this touches a line but for the blanks at its start. So the lines of an edit
that flattens an if/else are those of its guard, with the lines of one branch in it, followed by the
lines of the other branch (`flatten_conserves_lines`).
-/

namespace GuardClause

open Text

/-- The refactoring that flattens an if-statement. -/
def Flattening.kind : Flattening → EditKind
  | .plain => .simplify
  | .inverted => .invertAndSimplify

/-- The lines of a node as they stand in the buffer. -/
def Arena.linesOf (a : Arena) (n : Node) : List Text := (a.textOf n).unifyNewlines.lines

/-- The lines of a flattened if/else, moved anywhere: its guard, whose statements end in a return
unless one of them returns, and the statements of the other branch. -/
def IfElse.flattenedLines (d : IfElse) (a : Arena) (way : Flattening) : List Text :=
  (Stmt.ifHeader (d.guard way)).lines ++ (d.guarded way).flatMap a.linesOf ++
    (if d.Returns way then [] else ["return;".toList]) ++ [['\x7d']] ++
    (d.unguarded way).flatMap a.linesOf

variable {a : Arena} {n c : Node} {d : IfElse} {way : Flattening}

theorem Arena.replace_kind (a : Arena) (way : Flattening) (n : Node) :
    a.replace n way.kind = a.flatten way n := by
  cases way <;> rfl

/-! ## Lines of fragments -/

/-- The lines of a fragment are those of its node, dedented. -/
theorem lines_fragmentOf (a : Arena) (n : Node) :
    (a.fragmentOf n).text.lines =
      mapContinuations (dedentLine (a.buffer.lineIndent n.start).length) (a.linesOf n) :=
  lines_unlines (mapContinuations_ne_nil (lines_ne_nil _))
    (not_mem_mapContinuations (fun _ hl => not_mem_dedentLine _ hl)
      fun _ hl => not_mem_of_mem_lines hl)

theorem map_flushLeft_fragmentOf (a : Arena) (n : Node) :
    (a.fragmentOf n).text.lines.map flushLeft = (a.linesOf n).map flushLeft := by
  rw [lines_fragmentOf, map_flushLeft_mapContinuations (flushLeft_dedentLine _)]

theorem map_flushLeft_fragments (a : Arena) (depth : Nat) (ns : List Node) :
    (Stmt.linesList [] depth ((ns.map a.fragmentOf).map .fragment)).map flushLeft =
      (ns.flatMap a.linesOf).map flushLeft := by
  induction ns with
  | nil => rfl
  | cons n ns ih =>
      have hblank := Stmt.blank_indentation blank_nil depth
      rw [List.map_cons, List.map_cons, Stmt.linesList, List.map_append, ih, List.flatMap_cons,
        List.map_append, Stmt.lines, Stmt.map_flushLeft_indentedLines hblank,
        map_flushLeft_fragmentOf]

theorem map_flushLeft_guardBody (d : IfElse) (a : Arena) (way : Flattening) (depth : Nat) :
    (Stmt.linesList [] depth (guardBody ((d.guarded way).map a.fragmentOf))).map flushLeft =
      ((d.guarded way).flatMap a.linesOf ++
        if d.Returns way then [] else ["return;".toList]).map flushLeft := by
  have hiff : (∃ f ∈ (d.guarded way).map a.fragmentOf, f.kind = .returnStatement) ↔
      d.Returns way := by
    simp [IfElse.Returns, Arena.fragmentOf]
  unfold guardBody
  by_cases hret : d.Returns way
  · rw [if_pos (hiff.mpr hret), if_pos hret, List.append_nil]
    exact map_flushLeft_fragments a depth (d.guarded way)
  · have hreturn : (Stmt.linesList [] depth [.ret none]).map flushLeft =
        ["return;".toList].map flushLeft :=
      congrArg (· :: []) (flushLeft_append (Stmt.blank_indentation blank_nil depth))
    rw [if_neg (mt hiff.mp hret), if_neg hret, Stmt.linesList_append, List.map_append,
      List.map_append, hreturn, map_flushLeft_fragments]

/-- What an if/else becomes has the lines of its guard and of both branches. -/
theorem map_flushLeft_flattened (d : IfElse) (a : Arena) (way : Flattening) :
    (Stmt.linesList [] 0 (d.flattened a way)).map flushLeft =
      (d.flattenedLines a way).map flushLeft := by
  have hblank := Stmt.blank_indentation blank_nil 0
  have hclose : flushLeft (Stmt.indentation [] 0 ++ ['\x7d']) = flushLeft ['\x7d'] :=
    flushLeft_append hblank
  rw [IfElse.flattened, Stmt.linesList, Stmt.lines, IfElse.flattenedLines]
  simp only [List.map_append, Stmt.map_flushLeft_indentedLines hblank, map_flushLeft_guardBody,
    map_flushLeft_fragments, List.map_cons, List.map_nil, hclose, List.append_assoc]

/-! ## Edits -/

/-- An edit that flattens an if-statement of a parsed text consists of the line or lines of the
guard's condition, the lines of the guarded branch, a return unless one stands there already, the
line that closes the guard and the lines of the other branch. All lines are there once and in
order, and nothing but the blanks before them has changed. -/
theorem flatten_conserves_lines {g : Grammar} {text : Text} {parsed : Parsed} {a : Arena}
    (h : g.parse text parsed = .ok a) {n c : Node} (hn : n ∈ a.nodes)
    (hcan : a.canFlatten n = .ok true) (hc : a.inRole n .condition = .ok (some c)) :
    ∃ d, a.ShowsIfElse n d ∧ (∀ d', a.ShowsIfElse n d' → d' = d) ∧
      ∀ (way : Flattening) (width : Int), ∃ r, a.replace n way.kind = .ok r ∧ r.target = n ∧
        (0 ≤ n.start → 0 ≤ n.stop → ∃ e, a.editOf width way.kind r = .ok e) ∧
        ∀ e, a.editOf width way.kind r = .ok e →
          (split a.buffer.newline e.newText).map flushLeft =
            (d.flattenedLines a way).map flushLeft := by
  have hw := wellLinked_of_parse h
  obtain ⟨d, hd⟩ := Arena.exists_showsIfElse hw hn hcan hc
  refine ⟨d, hd, fun d' hd' => hd'.unique hd, ?_⟩
  intro way width
  have hreplace : a.replace n way.kind = .ok ⟨n, d.flattened a way⟩ := by
    rw [Arena.replace_kind, Arena.flatten_eq hw hn hd]
  refine ⟨_, hreplace, rfl, ?_, ?_⟩
  · intro hstart hstop
    exact Arena.exists_editOf hstart hstop width way.kind
  · intro e he
    have hbase := blank_lineIndent a.buffer n.start
    have hne : d.flattened a way ≠ [] := List.cons_ne_nil _ _
    rw [(Arena.editOf_eq_ok.mp he).newText_eq, Stmt.map_flushLeft_split_printAll _ _ hbase hne,
      map_flushLeft_flattened]

/-- The tree of an if/else with a statement that is spread over two lines. -/
def brokenCall : Concrete :=
  .node ⟨"program", 0, 22, none, true⟩ [
    .node ⟨"if_statement", 0, 22, none, true⟩ [
      .node ⟨"parenthesized_expression", 2, 6, some "condition", true⟩ [
        .node ⟨"unary_expression", 3, 5, none, true⟩ [
          .node ⟨"!", 3, 4, some "operator", false⟩ [],
          .node ⟨"identifier", 4, 5, some "argument", true⟩ []]],
      .node ⟨"statement_block", 6, 15, some "consequence", true⟩ [
        .node ⟨"expression_statement", 7, 14, none, true⟩ []],
      .node ⟨"else_clause", 15, 22, some "alternative", true⟩ [
        .node ⟨"statement_block", 19, 22, none, true⟩ [
          .node ⟨"expression_statement", 20, 21, none, true⟩ []]]]]

theorem canFlatten_brokenCall :
    ∃ a n c, Bundled.typescript.grammar.parse "if(!a)\x7bf(\r\n\tb)\x7delse\x7bc\x7d".toList
        ⟨some brokenCall, false⟩ = .ok a ∧
      n ∈ a.nodes ∧ a.canFlatten n = .ok true ∧ a.inRole n .condition = .ok (some c) :=
  ⟨_, _, _, rfl, Array.mem_of_getElem? (i := 1) rfl, rfl, rfl⟩

theorem flatten_conserves_lines_brokenCall :
    ∃ a n c, Bundled.typescript.grammar.parse "if(!a)\x7bf(\r\n\tb)\x7delse\x7bc\x7d".toList
        ⟨some brokenCall, false⟩ = .ok a ∧
      n ∈ a.nodes ∧ a.canFlatten n = .ok true ∧ a.inRole n .condition = .ok (some c) ∧
      ∃ d, a.ShowsIfElse n d ∧ (∀ d', a.ShowsIfElse n d' → d' = d) ∧
        ∀ (way : Flattening) (width : Int), ∃ r, a.replace n way.kind = .ok r ∧ r.target = n ∧
          (0 ≤ n.start → 0 ≤ n.stop → ∃ e, a.editOf width way.kind r = .ok e) ∧
          ∀ e, a.editOf width way.kind r = .ok e →
            (split a.buffer.newline e.newText).map flushLeft =
              (d.flattenedLines a way).map flushLeft := by
  obtain ⟨a, n, c, h, hn, hcan, hc⟩ := canFlatten_brokenCall
  exact ⟨a, n, c, h, hn, hcan, hc, flatten_conserves_lines h hn hcan hc⟩

end GuardClause
