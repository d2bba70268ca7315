import GuardClause.Code.Layout
import GuardClause.Proofs.Text.Indents
import GuardClause.Proofs.Text.Splits

/-!
# Written lines

What is written for a statement are its lines, and none of them holds a newline. So joining them,
cutting the joined texts of several statements into lines, moving these right and joining them by
the line ending of a buffer loses nothing: splitting at that ending gives the lines back, moved
right (`split_printAll`). How far they are moved right does not matter once they are moved left
again (`map_flushLeft_lines`).
-/

namespace GuardClause

open Text

/-- A condition is printed as it is, or without the parentheses around it. -/
theorem Expr.printCondition_cases (e : Expr) :
    e.printCondition = e.print ∨ '(' :: (e.printCondition ++ [')']) = e.print := by
  cases e with
  | fragment f =>
      rw [printCondition]
      split
      · rename_i h
        obtain ⟨-, hhead, hlast⟩ := h
        obtain ⟨rest, hrest⟩ := List.head?_eq_some_iff.mp hhead
        rcases List.eq_nil_or_concat' rest with rfl | ⟨mid, c, rfl⟩
        · simp [hrest] at hlast
        · obtain rfl : c = ')' := by
            rw [hrest, ← List.cons_append, List.getLast?_concat] at hlast
            exact Option.some.inj hlast
          right
          simp [print, hrest]
      · exact Or.inl rfl
  | not operand => exact Or.inl rfl

namespace Stmt

variable {unit unit' indent : Text} {ss : List Stmt}

/-! ## Indentation is blank -/

theorem blank_unitOf (width : Int) : (unitOf width).Blank := by
  intro c hc
  rw [List.eq_of_mem_replicate hc]
  rfl

theorem blank_indentation (h : unit.Blank) (depth : Nat) : (indentation unit depth).Blank := by
  intro c hc
  obtain ⟨u, hu, hcu⟩ := List.mem_flatten.mp hc
  rw [List.eq_of_mem_replicate hu] at hcu
  exact h c hcu

/-! ## Lines of a text moved right -/

theorem indentedLines_ne_nil (indent t : Text) : indentedLines indent t ≠ [] := by
  rw [indentedLines, ne_eq, List.map_eq_nil_iff]
  exact lines_ne_nil t

theorem indentedLines_zero (unit t : Text) : indentedLines (indentation unit 0) t = t.lines := by
  show t.lines.map (indentLine []) = t.lines
  rw [indentLine_nil, List.map_id]

theorem not_mem_indentedLines (h : indent.Blank) (t : Text) :
    ∀ l ∈ indentedLines indent t, '\n' ∉ l := by
  intro l hl
  obtain ⟨k, hk, rfl⟩ := List.mem_map.mp hl
  exact not_mem_indentLine h.not_mem (not_mem_of_mem_lines hk)

theorem map_flushLeft_indentedLines (h : indent.Blank) (t : Text) :
    (indentedLines indent t).map flushLeft = t.lines.map flushLeft := by
  rw [indentedLines, List.map_map]
  exact List.map_congr_left fun l _ => flushLeft_indentLine h l

/-! ## Lines of a statement -/

theorem linesList_eq_flatMap (unit : Text) (depth : Nat) (ss : List Stmt) :
    linesList unit depth ss = ss.flatMap (lines unit depth) := by
  induction ss with
  | nil => rfl
  | cons s ss ih => rw [linesList, ih, List.flatMap_cons]

theorem linesList_append (unit : Text) (depth : Nat) (ss ts : List Stmt) :
    linesList unit depth (ss ++ ts) = linesList unit depth ss ++ linesList unit depth ts := by
  simp only [linesList_eq_flatMap, List.flatMap_append]

theorem lines_ne_nil (unit : Text) (depth : Nat) (s : Stmt) : s.lines unit depth ≠ [] := by
  cases s with
  | fragment f => exact indentedLines_ne_nil _ _
  | ret value =>
      cases value with
      | none => exact List.cons_ne_nil _ _
      | some e => exact indentedLines_ne_nil _ _
  | block body => simp [lines]
  | ifThen c body => simp [lines]
  | ifElse c body otherwise => simp [lines]

/-- A word on a line of its own. -/
theorem not_mem_singleton (h : indent.Blank) {word : Text} (hword : '\n' ∉ word) :
    ∀ l ∈ [indent ++ word], '\n' ∉ l := by
  intro l hl
  rw [List.mem_singleton.mp hl, List.mem_append]
  exact fun hmem => hmem.elim h.not_mem hword

mutual

theorem not_mem_lines (h : unit.Blank) (depth : Nat) :
    ∀ s : Stmt, ∀ l ∈ s.lines unit depth, '\n' ∉ l
  | fragment f => not_mem_indentedLines (blank_indentation h depth) f.text
  | ret none => not_mem_singleton (blank_indentation h depth) (by decide)
  | ret (some _) => not_mem_indentedLines (blank_indentation h depth) _
  | block body => by
      have hi := blank_indentation h depth
      rw [lines, List.forall_mem_append, List.forall_mem_append]
      exact ⟨⟨not_mem_singleton hi (by decide), not_mem_linesList h (depth + 1) body⟩,
        not_mem_singleton hi (by decide)⟩
  | ifThen c body => by
      have hi := blank_indentation h depth
      rw [lines, List.forall_mem_append, List.forall_mem_append]
      exact ⟨⟨not_mem_indentedLines hi _, not_mem_linesList h (depth + 1) body⟩,
        not_mem_singleton hi (by decide)⟩
  | ifElse c body otherwise => by
      have hi := blank_indentation h depth
      have hclose : '\n' ∉ ['\x7d'] := by decide
      simp only [lines, List.forall_mem_append]
      exact ⟨⟨⟨⟨⟨not_mem_indentedLines hi _, not_mem_linesList h (depth + 1) body⟩,
        not_mem_singleton hi hclose⟩, not_mem_singleton hi (by decide)⟩,
        not_mem_linesList h (depth + 1) otherwise⟩, not_mem_singleton hi hclose⟩

theorem not_mem_linesList (h : unit.Blank) (depth : Nat) :
    ∀ ss : List Stmt, ∀ l ∈ linesList unit depth ss, '\n' ∉ l
  | [] => List.forall_mem_nil _
  | s :: ss => List.forall_mem_append.mpr ⟨not_mem_lines h depth s, not_mem_linesList h depth ss⟩

end

mutual

/-- Moved left again, the lines of a statement do not tell how far they were moved right. -/
theorem map_flushLeft_lines (h : unit.Blank) (h' : unit'.Blank) (depth depth' : Nat) :
    ∀ s : Stmt, (s.lines unit depth).map flushLeft = (s.lines unit' depth').map flushLeft
  | fragment f => by
      rw [lines, lines, map_flushLeft_indentedLines (blank_indentation h depth),
        map_flushLeft_indentedLines (blank_indentation h' depth')]
  | ret none => by
      simp only [lines, List.map_cons, List.map_nil, flushLeft_append (blank_indentation h depth),
        flushLeft_append (blank_indentation h' depth')]
  | ret (some e) => by
      rw [lines, lines, map_flushLeft_indentedLines (blank_indentation h depth),
        map_flushLeft_indentedLines (blank_indentation h' depth')]
  | block body => by
      have hbody := map_flushLeft_linesList h h' (depth + 1) (depth' + 1) body
      simp only [lines, List.map_append, List.map_cons, List.map_nil, hbody,
        flushLeft_append (blank_indentation h depth),
        flushLeft_append (blank_indentation h' depth')]
  | ifThen c body => by
      have hbody := map_flushLeft_linesList h h' (depth + 1) (depth' + 1) body
      simp only [lines, List.map_append, List.map_cons, List.map_nil, hbody,
        map_flushLeft_indentedLines (blank_indentation h depth),
        map_flushLeft_indentedLines (blank_indentation h' depth'),
        flushLeft_append (blank_indentation h depth),
        flushLeft_append (blank_indentation h' depth')]
  | ifElse c body otherwise => by
      have hbody := map_flushLeft_linesList h h' (depth + 1) (depth' + 1) body
      have hotherwise := map_flushLeft_linesList h h' (depth + 1) (depth' + 1) otherwise
      simp only [lines, List.map_append, List.map_cons, List.map_nil, hbody, hotherwise,
        map_flushLeft_indentedLines (blank_indentation h depth),
        map_flushLeft_indentedLines (blank_indentation h' depth'),
        flushLeft_append (blank_indentation h depth),
        flushLeft_append (blank_indentation h' depth')]

theorem map_flushLeft_linesList (h : unit.Blank) (h' : unit'.Blank) (depth depth' : Nat) :
    ∀ ss : List Stmt,
      (linesList unit depth ss).map flushLeft = (linesList unit' depth' ss).map flushLeft
  | [] => rfl
  | s :: ss => by
      rw [linesList, linesList, List.map_append, List.map_append,
        map_flushLeft_lines h h' depth depth' s, map_flushLeft_linesList h h' depth depth' ss]

end

/-! ## Statements in a buffer -/

theorem lines_print (width : Int) (s : Stmt) : (s.print width).lines = s.lines (unitOf width) 0 :=
  lines_unlines (lines_ne_nil _ _ s) (not_mem_lines (blank_unitOf width) 0 s)

theorem linesList_ne_nil (unit : Text) (depth : Nat) (h : ss ≠ []) :
    linesList unit depth ss ≠ [] := by
  obtain ⟨s, rest, rfl⟩ := List.exists_cons_of_ne_nil h
  exact List.append_ne_nil_of_left_ne_nil (lines_ne_nil unit depth s) _

theorem lines_unlines_print (width : Int) (h : ss ≠ []) :
    (unlines (ss.map (print width))).lines = linesList (unitOf width) 0 ss := by
  rw [lines_unlines_flatMap (mt List.map_eq_nil_iff.mp h), linesList_eq_flatMap, List.flatMap_map]
  exact congrArg (ss.flatMap ·) (funext (lines_print width))

/-- Split at the line ending of the buffer, what goes into the buffer gives the lines of the
statements, of which all but the first are moved right by the base. -/
theorem split_printAll (b : Buffer) (width : Int) {base : Text} (hbase : base.Blank)
    (h : ss ≠ []) :
    split b.newline (printAll b width base ss) =
      mapContinuations (indentLine base) (linesList (unitOf width) 0 ss) := by
  have hfree := not_mem_linesList (blank_unitOf width) 0 ss
  rw [printAll, lines_unlines_print width h]
  refine split_joinWith (isEnding_newline b) ?_ ?_
  · exact mapContinuations_ne_nil (linesList_ne_nil _ _ h)
  · exact not_mem_mapContinuations (fun _ hl => not_mem_indentLine hbase.not_mem hl) hfree

theorem map_flushLeft_split_printAll (b : Buffer) (width : Int) {base : Text} (hbase : base.Blank)
    (h : ss ≠ []) :
    (split b.newline (printAll b width base ss)).map flushLeft =
      (linesList [] 0 ss).map flushLeft := by
  rw [split_printAll b width hbase h,
    map_flushLeft_mapContinuations (flushLeft_indentLine hbase)]
  exact map_flushLeft_linesList (blank_unitOf width) blank_nil 0 0 ss

end Stmt

end GuardClause
