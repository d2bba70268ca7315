import GuardClause.Language.Bundled
import GuardClause.Language.Parse
import GuardClause.Proofs.Edits.Offers
import GuardClause.Proofs.Position.Coordinates

/-!
# Both ways of giving a range

A range gives its ends by line and column and by offset. The two conversions of a buffer undo each
other up to moving a place into the buffer, so for nodes that lie in the buffer both ways name the
same stretch of text, and it does not matter by which of them an edit is carried out.
-/

namespace GuardClause

/-- A node begins and ends in the buffer. -/
def Arena.Inside (a : Arena) (n : Node) : Prop :=
  (0 ≤ n.start ∧ n.start ≤ a.buffer.text.length) ∧ 0 ≤ n.stop ∧ n.stop ≤ a.buffer.text.length

instance (a : Arena) (n : Node) : Decidable (a.Inside n) := inferInstanceAs (Decidable (_ ∧ _))

/-- The offset of a position. -/
def Buffer.offsetAt (b : Buffer) (p : Position) : Nat := b.offsetOf p.line p.column

/-- The text after an edit whose range is taken by line and column. -/
def Edit.applyByPosition (e : Edit) (b : Buffer) : Text :=
  b.text.take (b.offsetAt e.range.start) ++ e.newText ++ b.text.drop (b.offsetAt e.range.stop)

theorem Buffer.offsetAt_positionOf {b : Buffer} {o : Int} (h : 0 ≤ o ∧ o ≤ b.text.length) :
    b.offsetAt (b.positionOf o) = o.toNat := by
  rw [offsetAt, offsetOf_positionOf, clamp, Nat.min_eq_left (by omega)]

/-- The positions and the offsets of a range name the same places. -/
theorem Arena.offsetAt_range {a : Arena} {n : Node} {r : Range} (hn : a.Inside n)
    (h : a.rangeOf n = .ok r) :
    a.buffer.offsetAt r.start = r.startOffset ∧ a.buffer.offsetAt r.stop = r.stopOffset := by
  obtain ⟨-, -, rfl⟩ := rangeOf_eq_ok.mp h
  exact ⟨Buffer.offsetAt_positionOf hn.1, Buffer.offsetAt_positionOf hn.2⟩

/-- Offsets and positions are two ways to count the places of a buffer in the same order. The
position of an offset is read off the text before it; each conversion undoes the other up to moving
a place into the buffer; and for every edit on offer in an arena whose nodes lie in the buffer both
ends of the range are the same by position and by offset, and so is the text after the edit. -/
theorem positions_match_offsets (b : Buffer) :
    (∀ o : Int, b.offsetAt (b.positionOf o) = b.clamp o ∧
      (b.positionOf o).line = (b.text.take (b.clamp o)).count '\n' ∧
      (b.positionOf o).column = (Text.lastLine (b.text.take (b.clamp o))).length) ∧
    (∀ l c : Int, ∃ line, b.text.lines[min l.toNat (b.text.lines.length - 1)]? = some line ∧
      b.positionOf (b.offsetOf l c) =
        ⟨min l.toNat (b.text.lines.length - 1), min c.toNat line.length⟩) ∧
    (∀ o p : Nat, o ≤ b.text.length → p ≤ b.text.length →
      (o < p ↔ (b.positionOf o).Before (b.positionOf p))) ∧
    ∀ a : Arena, a.buffer = b → (∀ n ∈ a.nodes, a.Inside n) →
      ∀ (offset width : Int) (es : List Edit), a.propose offset width = .ok es → ∀ e ∈ es,
        b.offsetAt e.range.start = e.range.startOffset ∧
        b.offsetAt e.range.stop = e.range.stopOffset ∧
        e.applyByPosition b = e.apply b.text := by
  refine ⟨?_, b.positionOf_offsetOf, ?_, ?_⟩
  · intro o
    exact ⟨b.offsetOf_positionOf o, b.line_positionOf o, b.column_positionOf o⟩
  · intro o p ho hp
    exact Buffer.lt_iff_before ho hp
  · rintro a rfl hin offset width es h e he
    obtain ⟨kind, n, r, hn, -, hrep⟩ := Arena.of_mem_propose h he
    obtain ⟨hstart, hstop⟩ := Arena.offsetAt_range (hin n (Arena.mem_of_targetOf hn)) hrep.range_eq
    refine ⟨hstart, hstop, ?_⟩
    rw [Edit.applyByPosition, hstart, hstop, Edit.apply]

/-- The tree of a conditional expression that is spread over three lines. -/
def brokenTernary : Concrete :=
  .node ⟨"program", 0, 9, none, true⟩ [
    .node ⟨"ternary_expression", 2, 9, none, true⟩ [
      .node ⟨"identifier", 2, 3, some "condition", true⟩ [],
      .node ⟨"identifier", 5, 6, some "consequence", true⟩ [],
      .node ⟨"identifier", 8, 9, some "alternative", true⟩ []]]

set_option maxRecDepth 4000 in
theorem propose_brokenTernary :
    ∃ a e, Bundled.typescript.grammar.parse "\r\na\n?b\n:c".toList
        ⟨some brokenTernary, false⟩ = .ok a ∧
      (∀ n ∈ a.nodes.toList, a.Inside n) ∧ a.propose 4 1 = .ok [e] :=
  ⟨_, _, rfl, by decide, rfl⟩

theorem positions_match_offsets_brokenTernary :
    ∃ a e, Bundled.typescript.grammar.parse "\r\na\n?b\n:c".toList
        ⟨some brokenTernary, false⟩ = .ok a ∧
      (∀ n ∈ a.nodes, a.Inside n) ∧ a.propose 4 1 = .ok [e] ∧
      a.buffer.offsetAt e.range.start = e.range.startOffset ∧
      a.buffer.offsetAt e.range.stop = e.range.stopOffset ∧
      e.applyByPosition a.buffer = e.apply a.buffer.text := by
  obtain ⟨a, e, h, hin, he⟩ := propose_brokenTernary
  have hinside : ∀ n ∈ a.nodes, a.Inside n := fun n hn => hin n (Array.mem_toList_iff.mpr hn)
  exact ⟨a, e, h, hinside, he,
    (positions_match_offsets a.buffer).2.2.2 a rfl hinside 4 1 [e] he e List.mem_cons_self⟩

end GuardClause
