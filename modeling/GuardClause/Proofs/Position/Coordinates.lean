import GuardClause.Buffer
import GuardClause.Proofs.Text.Newlines

/-!
# Offsets, lines and columns

The table of line starts of a buffer has one entry for every line, and cutting the text cuts the
table (`lineStarts_eq_append`). So the position of a place is read off the text itself: as many
lines as there are newlines before it, and as many columns as characters stand to its left in its
line (`positionOf_spot`). Going from offsets to positions and back, or from positions to offsets and
back, only moves a place into the buffer (`offsetOf_positionOf`, `positionOf_offsetOf`), and both
count in the same order (`lt_iff_before`).
-/

namespace GuardClause

/-- One position comes before another: on an earlier line, or further left on the same line. -/
def Position.Before (p q : Position) : Prop :=
  p.line < q.line ∨ p.line = q.line ∧ p.column < q.column

theorem Position.Before.asymm {p q : Position} (h : p.Before q) : ¬ q.Before p := by
  unfold Before at *
  omega

namespace Buffer

open Text

/-! ## The table of line starts -/

theorem startsAfter_append (o : Nat) (t u : Text) :
    startsAfter o (t ++ u) = startsAfter o t ++ startsAfter (o + t.length) u := by
  induction t generalizing o with
  | nil => rfl
  | cons c t ih =>
      have hlength : o + (c :: t).length = o + 1 + t.length := by
        rw [List.length_cons]
        omega
      rw [List.cons_append, startsAfter, startsAfter, ih, hlength]
      split <;> rfl

theorem length_startsAfter (o : Nat) (t : Text) : (startsAfter o t).length = t.count '\n' := by
  induction t generalizing o with
  | nil => rfl
  | cons c t ih =>
      rw [startsAfter]
      split
      · rename_i hc
        rw [hc, List.length_cons, ih, List.count_cons_self]
      · rename_i hc
        rw [ih, List.count_cons_of_ne hc]

theorem mem_startsAfter {o s : Nat} {t : Text} (h : s ∈ startsAfter o t) :
    o < s ∧ s ≤ o + t.length := by
  induction t generalizing o with
  | nil => exact absurd h List.not_mem_nil
  | cons c t ih =>
      rw [List.length_cons]
      have hrest : s ∈ startsAfter (o + 1) t → o < s ∧ s ≤ o + (t.length + 1) := by
        intro hs
        have := ih hs
        omega
      rw [startsAfter] at h
      split at h
      · rcases List.mem_cons.mp h with rfl | h
        · omega
        · exact hrest h
      · exact hrest h

variable {b : Buffer}

theorem lineCount_eq (b : Buffer) : b.lineCount = b.text.lines.length := by
  rw [lineCount, lineStarts, List.length_cons, length_startsAfter, length_lines]

/-- The table of a text is that of its first part, followed by what starts in the second part. -/
theorem lineStarts_eq_append {t u : Text} (h : t ++ u = b.text) :
    b.lineStarts = (0 :: startsAfter 0 t) ++ startsAfter t.length u := by
  rw [lineStarts, ← h, startsAfter_append, Nat.zero_add, List.cons_append]

theorem length_table (t : Text) : (0 :: startsAfter 0 t).length = t.count '\n' + 1 := by
  rw [List.length_cons, length_startsAfter]

/-- Below whole lines a line starts at their end. -/
theorem lineStart_count {above rest : Text} (h : above ++ rest = b.text)
    (hall : above.Terminated) : b.lineStart (above.count '\n') = above.length := by
  rw [lineStart, lineStarts_eq_append h, List.getElem?_append_left (by rw [length_table]; omega)]
  rcases terminated_iff.mp hall with rfl | ⟨u, rfl⟩
  · rfl
  · -- The last newline above enters the end of these lines in the table.
    have hcount : (u ++ ['\n']).count '\n' = (startsAfter 0 u).length + 1 := by
      rw [length_startsAfter, List.count_append, List.count_singleton_self]
    rw [hcount, List.getElem?_cons_succ, startsAfter_append,
      List.getElem?_append_right (Nat.le_refl _), Nat.sub_self, Nat.zero_add, List.length_append]
    rfl

theorem lineStop_count {r : Row} (h : r.text = b.text) :
    b.lineStop r.number = r.above.length + r.line.length := by
  have hcut : (r.above ++ r.line) ++ r.below = b.text := h
  have hlength : (0 :: startsAfter 0 (r.above ++ r.line)).length = r.number + 1 := by
    rw [length_table, List.count_append, List.count_eq_zero_of_not_mem r.not_mem, Row.number,
      Nat.add_zero]
  have htext : b.text.length = r.above.length + r.line.length + r.below.length := by
    rw [← hcut, List.length_append, List.length_append]
  have hnext : b.lineStarts[r.number + 1]? =
      (startsAfter (r.above.length + r.line.length) r.below)[0]? := by
    rw [lineStarts_eq_append hcut, List.getElem?_append_right (by rw [hlength]), hlength,
      Nat.sub_self, List.length_append]
  rw [lineStop, hnext]
  rcases detached_iff.mp r.detached with hb | ⟨u, hb⟩
  · rw [hb, List.length_nil] at htext
    rw [hb, htext]
    rfl
  · rw [hb]
    rfl

/-! ## Positions are read off the text -/

/-- Into the buffer: the nearest offset that is a place of it. -/
def clamp (b : Buffer) (o : Int) : Nat := min o.toNat b.text.length

theorem clamp_le (b : Buffer) (o : Int) : b.clamp o ≤ b.text.length := Nat.min_le_right _ _

theorem clamp_natCast {o : Nat} (h : o ≤ b.text.length) : b.clamp (o : Int) = o := by
  rw [clamp, Int.toNat_natCast, Nat.min_eq_left h]

theorem positionOf_clamp (b : Buffer) (o : Int) :
    b.positionOf (b.clamp o : Int) = b.positionOf o := by
  have hself : min (b.clamp o : Int).toNat b.text.length = min o.toNat b.text.length := by
    rw [Int.toNat_natCast, Nat.min_eq_left (b.clamp_le o), clamp]
  rw [positionOf, positionOf, hself]

theorem offset_le {p : Spot} (h : p.text = b.text) : p.offset ≤ b.text.length := by
  rw [← h, Spot.text, Spot.offset, List.length_append, List.length_append]
  omega

theorem lineAt_spot {p : Spot} (h : p.text = b.text) :
    b.lineAt p.offset = p.above.count '\n' := by
  have hcut : (p.above ++ p.left) ++ p.rest = b.text := h
  have hcount : (p.above ++ p.left).count '\n' = p.above.count '\n' := by
    rw [List.count_append, List.count_eq_zero_of_not_mem p.not_mem, Nat.add_zero]
  have hlength : (p.above ++ p.left).length = p.offset := List.length_append
  have hbefore : (0 :: startsAfter 0 (p.above ++ p.left)).countP (· ≤ p.offset) =
      p.above.count '\n' + 1 := by
    rw [← hcount, ← length_table, List.countP_eq_length]
    intro s hs
    rcases List.mem_cons.mp hs with rfl | hs
    · exact decide_eq_true (Nat.zero_le _)
    · have := (mem_startsAfter hs).2
      exact decide_eq_true (by omega)
  have hafter : (startsAfter (p.above ++ p.left).length p.rest).countP (· ≤ p.offset) = 0 := by
    rw [List.countP_eq_zero]
    intro s hs
    have := (mem_startsAfter hs).1
    simp only [decide_eq_true_eq]
    omega
  rw [lineAt, lineStarts_eq_append hcut, List.countP_append, hbefore, hafter]
  rfl

/-- A place is on the line whose number is that of the newlines before it, and in the column that
counts the characters to its left. -/
theorem positionOf_spot {p : Spot} (h : p.text = b.text) :
    b.positionOf (p.offset : Int) = ⟨p.above.count '\n', p.left.length⟩ := by
  have hcut : p.above ++ (p.left ++ p.rest) = b.text := by
    rw [← h, Spot.text, List.append_assoc]
  rw [positionOf, Int.toNat_natCast, Nat.min_eq_left (offset_le h), lineAt_spot h,
    lineStart_count hcut p.terminated, Spot.offset, Nat.add_sub_cancel_left]

/-- The indentation of a place's line. -/
theorem lineIndent_spot {p : Spot} (h : p.text = b.text) :
    b.lineIndent (p.offset : Int) = (p.left ++ p.rest).takeWhile isBlank := by
  have hcut : p.above ++ (p.left ++ p.rest) = b.text := by
    rw [← h, Spot.text, List.append_assoc]
  rw [lineIndent, positionOf_spot h, lineStart_count hcut p.terminated, ← hcut, List.drop_left]

/-- A place of a line: the line's number and a column, moved into the line. -/
theorem offsetOf_row {r : Row} (h : r.text = b.text) {l : Int}
    (hl : min l.toNat (b.text.lines.length - 1) = r.number) (c : Int) :
    b.offsetOf l c = r.above.length + min c.toNat r.line.length := by
  have hcut : r.above ++ (r.line ++ r.below) = b.text := by
    rw [← h, Row.text, List.append_assoc]
  have hstart : b.lineStart r.number = r.above.length := lineStart_count hcut r.terminated
  rw [offsetOf, lineCount_eq, hl, hstart, lineStop_count h, Nat.add_min_add_left]

/-- The place that an offset is moved to. -/
theorem exists_spot (b : Buffer) (o : Int) :
    ∃ p : Spot, p.text = b.text ∧ p.offset = b.clamp o :=
  ⟨b.text.spotAt (b.clamp o), text_spotAt _ _, offset_spotAt (b.clamp_le o)⟩

theorem line_positionOf (b : Buffer) (o : Int) :
    (b.positionOf o).line = (b.text.take (b.clamp o)).count '\n' := by
  obtain ⟨p, hp, ho⟩ := b.exists_spot o
  rw [← positionOf_clamp, ← ho, positionOf_spot hp, ← hp, p.take_text, List.count_append,
    List.count_eq_zero_of_not_mem p.not_mem, Nat.add_zero]

theorem column_positionOf (b : Buffer) (o : Int) :
    (b.positionOf o).column = (lastLine (b.text.take (b.clamp o))).length := by
  obtain ⟨p, hp, ho⟩ := b.exists_spot o
  rw [← positionOf_clamp, ← ho, positionOf_spot hp, ← hp, p.take_text,
    lastLine_append p.terminated p.not_mem]

/-- A place is as far behind the start of its line as its column says. -/
theorem lineStart_add_column (b : Buffer) (o : Int) :
    b.lineStart (b.positionOf o).line + (b.positionOf o).column = b.clamp o := by
  obtain ⟨p, hp, ho⟩ := b.exists_spot o
  have hcut : p.above ++ (p.left ++ p.rest) = b.text := by
    rw [← hp, Spot.text, List.append_assoc]
  rw [← positionOf_clamp, ← ho, positionOf_spot hp, lineStart_count hcut p.terminated, Spot.offset]

/-! ## There and back -/

theorem offsetOf_positionOf (b : Buffer) (o : Int) :
    b.offsetOf (b.positionOf o).line (b.positionOf o).column = b.clamp o := by
  obtain ⟨p, hp, ho⟩ := b.exists_spot o
  have hrow : p.row.text = b.text := p.text_row.trans hp
  have hnumber := p.row.number_lt_length_lines
  rw [hrow] at hnumber
  rw [← positionOf_clamp, ← ho, positionOf_spot hp, offsetOf_row hrow, Int.toNat_natCast]
  · -- The column of the place lies in its line, which goes on to the right of it.
    rw [Spot.row, List.length_append, Nat.min_eq_left (Nat.le_add_right _ _), Spot.offset]
  · rw [Int.toNat_natCast]
    exact Nat.min_eq_left (Nat.le_sub_one_of_lt hnumber)

theorem positionOf_offsetOf (b : Buffer) (l c : Int) :
    ∃ line, b.text.lines[min l.toNat (b.text.lines.length - 1)]? = some line ∧
      b.positionOf (b.offsetOf l c) =
        ⟨min l.toNat (b.text.lines.length - 1), min c.toNat line.length⟩ := by
  have hpos := List.length_pos_iff.mpr (lines_ne_nil b.text)
  obtain ⟨r, hr, hnumber⟩ := exists_row (t := b.text)
    (l := min l.toNat (b.text.lines.length - 1)) (by omega)
  refine ⟨r.line, ?_, ?_⟩
  · rw [← hnumber, ← hr]
    exact r.getElem?_lines
  · -- The place in the row: as much of the line to its left as the column says.
    obtain ⟨p, hp, habove, hleft⟩ : ∃ p : Spot, p.text = b.text ∧ p.above = r.above ∧
        p.left = r.line.take (min c.toNat r.line.length) := by
      refine ⟨⟨r.above, r.line.take (min c.toNat r.line.length),
        r.line.drop (min c.toNat r.line.length) ++ r.below, r.terminated,
        fun hm => r.not_mem (List.mem_of_mem_take hm)⟩, ?_, rfl, rfl⟩
      rw [← hr, Spot.text, Row.text, List.append_assoc, ← List.append_assoc (List.take _ _),
        List.take_append_drop, List.append_assoc]
    have hlength : p.left.length = min c.toNat r.line.length := by
      rw [hleft, List.length_take, Nat.min_assoc, Nat.min_self]
    have hoffset : b.offsetOf l c = p.offset := by
      rw [offsetOf_row hr hnumber.symm, Spot.offset, habove, hlength]
    rw [hoffset, positionOf_spot hp, habove, hlength, ← hnumber]
    rfl

/-! ## One order -/

/-- Later places have later positions. -/
theorem before_of_lt {o p : Nat} (h : o < p) (hp : p ≤ b.text.length) :
    (b.positionOf o).Before (b.positionOf p) := by
  have ho : o ≤ b.text.length := by omega
  have hline : (b.positionOf o).line ≤ (b.positionOf p).line := by
    rw [line_positionOf, line_positionOf, clamp_natCast ho, clamp_natCast hp]
    exact (List.take_prefix_take_left (by omega)).sublist.count_le '\n'
  rcases Nat.lt_or_eq_of_le hline with hlt | heq
  · exact Or.inl hlt
  · -- On one line positions are the offsets less where the line starts.
    refine Or.inr ⟨heq, ?_⟩
    have hostart := b.lineStart_add_column o
    have hpstart := b.lineStart_add_column p
    rw [clamp_natCast ho] at hostart
    rw [clamp_natCast hp, ← heq] at hpstart
    omega

theorem lt_iff_before {o p : Nat} (ho : o ≤ b.text.length) (hp : p ≤ b.text.length) :
    o < p ↔ (b.positionOf o).Before (b.positionOf p) := by
  constructor
  · intro h
    exact before_of_lt h hp
  · intro h
    rcases Nat.lt_trichotomy o p with hlt | rfl | hgt
    · exact hlt
    · exact absurd h h.asymm
    · exact absurd (before_of_lt hgt ho) h.asymm

end Buffer

end GuardClause
