import GuardClause.Proofs.Printing.Lines

/-!
# Depth and base

Indentation comes from two places: a statement inside a block is written one level deeper, and
statements that go into a buffer get a base before every line but the first. Both do the same to a
line. A statement at some depth has the lines it has at depth zero, moved right by as many units
(`lines_eq_map`), so what stands between the braces of a block is what is printed for its statements
with one unit as the base (`print_block`). The first line is the exception that the base makes: it
gets its unit from outside, and must have something on it for that.
-/

namespace GuardClause

open Text

namespace Stmt

variable {unit : Text} {ss ts : List Stmt}

/-! ## Lines at a depth -/

theorem indentation_succ (unit : Text) (depth : Nat) :
    indentation unit (depth + 1) = indentation unit depth ++ unit := by
  simp [indentation, List.replicate_succ']

theorem indentation_one (unit : Text) : indentation unit 1 = unit :=
  List.flatten_singleton

/-- One level more is one unit more in front. -/
theorem indentLine_comp_indentLine (unit : Text) (depth : Nat) :
    indentLine (indentation unit depth) ∘ indentLine (indentation unit 1) =
      indentLine (indentation unit (depth + 1)) := by
  funext line
  rw [Function.comp_apply, indentLine_indentLine, indentation_one, indentation_succ]

theorem indentedLines_eq_map (unit t : Text) (depth : Nat) :
    indentedLines (indentation unit depth) t =
      (indentedLines (indentation unit 0) t).map (indentLine (indentation unit depth)) := by
  rw [indentedLines_zero, indentedLines]

/-- The lines of a body, one level below its block. -/
theorem map_linesList_one
    (ih : ∀ d, linesList unit d ss = (linesList unit 0 ss).map (indentLine (indentation unit d)))
    (depth : Nat) :
    (linesList unit 1 ss).map (indentLine (indentation unit depth)) =
      linesList unit (depth + 1) ss := by
  rw [ih 1, ih (depth + 1), List.map_map, indentLine_comp_indentLine]

mutual

/-- A statement at a depth: its lines at depth zero, each moved right by so many units unless it is
empty. -/
theorem lines_eq_map (unit : Text) (depth : Nat) :
    ∀ s : Stmt, s.lines unit depth = (s.lines unit 0).map (indentLine (indentation unit depth))
  | fragment f => indentedLines_eq_map unit f.text depth
  | ret none => by
      simp [lines, indentation, indentLine]
  | ret (some e) => indentedLines_eq_map unit _ depth
  | block body => by
      have hbody := map_linesList_one (fun d => linesList_eq_map unit d body) depth
      simp only [lines, List.map_append, hbody]
      simp [indentation, indentLine]
  | ifThen c body => by
      have hbody := map_linesList_one (fun d => linesList_eq_map unit d body) depth
      simp only [lines, List.map_append, hbody, indentedLines_eq_map unit (ifHeader c) depth]
      simp [indentation, indentLine]
  | ifElse c body otherwise => by
      have hbody := map_linesList_one (fun d => linesList_eq_map unit d body) depth
      have hotherwise := map_linesList_one (fun d => linesList_eq_map unit d otherwise) depth
      simp only [lines, List.map_append, hbody, hotherwise,
        indentedLines_eq_map unit (ifHeader c) depth]
      simp [indentation, indentLine]

theorem linesList_eq_map (unit : Text) (depth : Nat) :
    ∀ ss : List Stmt,
      linesList unit depth ss = (linesList unit 0 ss).map (indentLine (indentation unit depth))
  | [] => rfl
  | s :: ss => by
      rw [linesList, linesList, List.map_append, lines_eq_map unit depth s,
        linesList_eq_map unit depth ss]

end

/-! ## Between the braces -/

/-- Statements between braces, printed into a buffer with one unit as their base. -/
def braced (b : Buffer) (width : Int) (ss : List Stmt) : Text :=
  '\x7b' :: '\n' :: (unitOf width ++ printAll b width (unitOf width) ss ++ ['\n', '\x7d'])

/-- The first line that is printed for the statements is not empty. -/
def Leads (width : Int) (ss : List Stmt) : Prop :=
  ∃ line rest, linesList (unitOf width) 0 ss = line :: rest ∧ line ≠ []

theorem Leads.ne_nil {width : Int} (h : Leads width ss) : ss ≠ [] := by
  obtain ⟨line, rest, hlines, -⟩ := h
  rintro rfl
  cases hlines

/-- What is printed below the opening brace, the closing one included. -/
def belowBrace (width : Int) (ss : List Stmt) : List Text :=
  linesList (unitOf width) 1 ss ++ [['\x7d']]

theorem belowBrace_ne_nil (width : Int) (ss : List Stmt) : belowBrace width ss ≠ [] := by
  simp [belowBrace]

theorem print_block_eq (width : Int) (ss : List Stmt) :
    print width (block ss) = '\x7b' :: '\n' :: unlines (belowBrace width ss) := by
  have hall := unlines_append (List.cons_ne_nil ['\x7b'] []) (belowBrace_ne_nil width ss)
  rw [unlines_singleton] at hall
  exact hall

/-- In a buffer of plain newlines, a block is its statements between braces with one unit as their
base. -/
theorem print_block {b : Buffer} (hb : b.text.hasCrlf = false) {width : Int} (h : Leads width ss) :
    print width (block ss) = braced b width ss := by
  have hprinted := lines_unlines_print width h.ne_nil
  obtain ⟨line, rest, hlines, hline⟩ := h
  -- The first line of the body gets its unit by being one level deeper, the others by the base.
  have hdeeper : linesList (unitOf width) 1 ss =
      (line :: rest.map (indentLine (unitOf width))).modifyHead (unitOf width ++ ·) := by
    rw [linesList_eq_map, hlines, indentation_one, List.map_cons, indentLine_of_ne_nil hline]
    rfl
  have hbody : unlines (linesList (unitOf width) 1 ss) =
      unitOf width ++ printAll b width (unitOf width) ss := by
    rw [hdeeper, unlines, joinWith_modifyHead _ _ (List.cons_ne_nil _ _), printAll, hprinted,
      hlines, Buffer.newline, hb]
    rfl
  have hne : linesList (unitOf width) 1 ss ≠ [] := by simp [hdeeper]
  rw [print_block_eq, belowBrace, unlines_append hne (List.cons_ne_nil _ _), hbody,
    unlines_singleton]
  rfl

theorem print_ifThen (width : Int) (c : Expr) (ss : List Stmt) :
    print width (ifThen c ss) =
      "if (".toList ++ c.printCondition ++ ") ".toList ++ print width (block ss) := by
  have hheader := Text.lines_ne_nil (ifHeader c)
  have hlines : (ifThen c ss).lines (unitOf width) 0 =
      (ifHeader c).lines ++ belowBrace width ss := by
    rw [lines, indentedLines_zero, List.append_assoc]
    rfl
  rw [print, hlines, unlines_append hheader (belowBrace_ne_nil width ss), unlines_lines,
    print_block_eq, ifHeader]
  simp

theorem print_ifElse (width : Int) (c : Expr) (ss ts : List Stmt) :
    print width (ifElse c ss ts) =
      print width (ifThen c ss) ++ "\nelse ".toList ++ print width (block ts) := by
  have hlines : (ifElse c ss ts).lines (unitOf width) 0 =
      (ifThen c ss).lines (unitOf width) 0 ++ (["else \x7b".toList] ++ belowBrace width ts) := by
    simp [lines, belowBrace, indentation]
  have helse : ["else \x7b".toList] ++ belowBrace width ts ≠ [] := List.cons_ne_nil _ _
  rw [print, hlines, unlines_append (lines_ne_nil _ _ _) helse,
    unlines_append (List.cons_ne_nil _ _) (belowBrace_ne_nil width ts), unlines_singleton,
    print_block_eq, print]
  simp

/-- Depth and base are one operation. Lines at a depth are the lines at depth zero, moved right as
a base moves them. So between the braces of a block, and of either block of an if-statement, stands
what is printed for its statements with one unit as their base. -/
theorem depth_agrees_with_base :
    (∀ (unit : Text) (depth : Nat) (s : Stmt),
      s.lines unit depth = (s.lines unit 0).map (indentLine (indentation unit depth))) ∧
    ∀ (b : Buffer) (width : Int), b.text.hasCrlf = false →
      (∀ ss, Leads width ss → print width (block ss) = braced b width ss) ∧
      (∀ c ss, Leads width ss → print width (ifThen c ss) =
        "if (".toList ++ c.printCondition ++ ") ".toList ++ braced b width ss) ∧
      (∀ c ss ts, Leads width ss → print width (ifElse c ss ts) =
        "if (".toList ++ c.printCondition ++ ") ".toList ++ braced b width ss ++
          "\nelse ".toList ++ print width (block ts)) ∧
      (∀ c ss ts, Leads width ts → print width (ifElse c ss ts) =
        "if (".toList ++ c.printCondition ++ ") ".toList ++ print width (block ss) ++
          "\nelse ".toList ++ braced b width ts) := by
  refine ⟨lines_eq_map, ?_⟩
  intro b width hb
  refine ⟨?_, ?_, ?_, ?_⟩
  · intro ss h
    exact print_block hb h
  · intro c ss h
    rw [print_ifThen, print_block hb h]
  · intro c ss ts h
    rw [print_ifElse, print_ifThen, print_block hb h]
  · intro c ss ts h
    rw [print_ifElse, print_ifThen, print_block hb h]

/-- A guard around a call that is broken into two lines, and a return. -/
def guardedCall : List Stmt :=
  [.ifThen (.fragment { text := "a".toList }) [.fragment { text := "f(\n  b);".toList }], .ret none]

/-- The guarded call in a block, and in the second block of an if-statement. -/
theorem depth_agrees_with_base_guardedCall :
    (Buffer.mk []).text.hasCrlf = false ∧ Leads 2 guardedCall ∧
      print 2 (block guardedCall) = braced ⟨[]⟩ 2 guardedCall ∧
      print 2 (ifElse (.fragment { text := "c".toList }) [] guardedCall) =
        "if (c) \x7b\n\x7d\nelse ".toList ++ braced ⟨[]⟩ 2 guardedCall ∧
      braced ⟨[]⟩ 2 guardedCall =
        "\x7b\n  if (a) \x7b\n    f(\n      b);\n  \x7d\n  return;\n\x7d".toList := by
  have hb : (Buffer.mk []).text.hasCrlf = false := rfl
  have hlead : Leads 2 guardedCall := ⟨_, _, rfl, List.cons_ne_nil _ _⟩
  obtain ⟨hblock, -, -, helse⟩ := depth_agrees_with_base.2 ⟨[]⟩ 2 hb
  exact ⟨hb, hlead, hblock guardedCall hlead, helse _ [] guardedCall hlead, by decide⟩

end Stmt

end GuardClause
