import GuardClause.Proofs.Position.Coordinates
import GuardClause.Proofs.Text.Indents

/-!
# A buffer within a larger one

When whole lines are put before and after a text, its lines stay what they are. A place keeps its
column and its indentation, its line is counted from further up, and stretches of the text are the
same stretches further on.
-/

namespace GuardClause

open Text

/-- A position so many lines further down. -/
def Position.below (lines : Nat) (p : Position) : Position := ⟨p.line + lines, p.column⟩

/-- The text of a buffer stands between whole lines of a larger one that has the same line
ending. -/
structure Buffer.Within (before after : Text) (b b' : Buffer) : Prop where
  text_eq : b'.text = before ++ b.text ++ after
  terminated : before.Terminated
  detached : after.Detached
  hasCrlf_eq : b'.text.hasCrlf = b.text.hasCrlf

namespace Text

/-- Blanks at the front end at the latest where the text is left for another line. -/
theorem takeWhile_isBlank_append {after : Text} (h : after.Detached) (t : Text) :
    (t ++ after).takeWhile isBlank = t.takeWhile isBlank := by
  induction t with
  | nil =>
      rcases detached_iff.mp h with rfl | ⟨u, rfl⟩
      · rfl
      · exact List.takeWhile_cons_of_neg (by decide)
  | cons c t ih => rw [List.cons_append, List.takeWhile_cons, List.takeWhile_cons, ih]

theorem slice_append {t : Text} {start stop : Int} (hstart : 0 ≤ start ∧ start ≤ t.length)
    (hstop : 0 ≤ stop ∧ stop ≤ t.length) (before after : Text) :
    (before ++ t ++ after).slice (start + before.length) (stop + before.length) =
      t.slice start stop := by
  have hlength : (before ++ t ++ after).length = before.length + t.length + after.length := by
    rw [List.length_append, List.length_append]
  have hi : (start + before.length).toNat = before.length + start.toNat := by omega
  have hj : (stop + before.length).toNat = before.length + stop.toNat := by omega
  rw [slice_eq hstart hstop, slice_eq (by omega) (by omega), hi, hj, List.append_assoc,
    List.take_length_add_append, List.drop_length_add_append,
    List.take_append_of_le_length (by omega)]

/-- A place of a text, between whole lines. -/
def Spot.within (p : Spot) {before : Text} (h : before.Terminated) (after : Text) : Spot where
  above := before ++ p.above
  left := p.left
  rest := p.rest ++ after
  terminated := h.append p.terminated
  not_mem := p.not_mem

end Text

namespace Buffer

namespace Within

variable {before after : Text} {b b' : Buffer} {o start stop : Int}

theorem newline_eq (h : b.Within before after b') : b'.newline = b.newline := by
  rw [newline, newline, h.hasCrlf_eq]

/-- A place of the buffer and the same place of the larger one. -/
theorem exists_spot (h : b.Within before after b') (ho : 0 ≤ o ∧ o ≤ b.text.length) :
    ∃ p : Spot, p.text = b.text ∧ (p.offset : Int) = o ∧
      (p.within h.terminated after).text = b'.text ∧
      ((p.within h.terminated after).offset : Int) = o + before.length := by
  obtain ⟨p, hp, hoffset⟩ := b.exists_spot o
  have hclamp : (p.offset : Int) = o := by
    rw [hoffset, clamp]
    omega
  refine ⟨p, hp, hclamp, ?_, ?_⟩
  · rw [h.text_eq, ← hp]
    simp only [Spot.within, Spot.text, List.append_assoc]
  · rw [← hclamp]
    simp only [Spot.within, Spot.offset, List.length_append]
    omega

/-- A place keeps its column and is as many lines further down as were put before it. -/
theorem positionOf_eq (h : b.Within before after b') (ho : 0 ≤ o ∧ o ≤ b.text.length) :
    b'.positionOf (o + before.length) = (b.positionOf o).below (before.count '\n') := by
  obtain ⟨p, hp, hoffset, hp', hoffset'⟩ := h.exists_spot ho
  rw [← hoffset', positionOf_spot hp', ← hoffset, positionOf_spot hp, Spot.within,
    List.count_append, Nat.add_comm, Position.below]

theorem lineIndent_eq (h : b.Within before after b') (ho : 0 ≤ o ∧ o ≤ b.text.length) :
    b'.lineIndent (o + before.length) = b.lineIndent o := by
  obtain ⟨p, hp, hoffset, hp', hoffset'⟩ := h.exists_spot ho
  rw [← hoffset', lineIndent_spot hp', ← hoffset, lineIndent_spot hp, Spot.within,
    ← List.append_assoc, takeWhile_isBlank_append h.detached]

theorem slice_eq (h : b.Within before after b') (hstart : 0 ≤ start ∧ start ≤ b.text.length)
    (hstop : 0 ≤ stop ∧ stop ≤ b.text.length) :
    b'.text.slice (start + before.length) (stop + before.length) = b.text.slice start stop := by
  rw [h.text_eq, slice_append hstart hstop]

end Within

end Buffer

end GuardClause
