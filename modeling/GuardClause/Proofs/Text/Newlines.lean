import GuardClause.Text.Lines
import Mathlib

/-!
# Newlines and the lines between them

`Text.lines` cuts a text at its newlines. A text that ends in a newline, or is empty, can be put
before another one without touching the other's lines (`Text.Terminated`); a text that begins with a
newline, or is empty, can be put behind it (`Text.Detached`). Every line of a text stands between
such texts (`exists_row`), and every place of a text in such a line (`exists_spot`).
-/

namespace GuardClause.Text

/-- No line is left unfinished at the end: the text is empty or ends in a newline. -/
def Terminated (t : Text) : Prop := t = [] ∨ t.getLast? = some '\n'

/-- Nothing stands before the first newline: the text is empty or begins with a newline. -/
def Detached (t : Text) : Prop := t = [] ∨ t.head? = some '\n'

instance (t : Text) : Decidable t.Terminated := inferInstanceAs (Decidable (_ ∨ _))

instance (t : Text) : Decidable t.Detached := inferInstanceAs (Decidable (_ ∨ _))

theorem terminated_iff {t : Text} : t.Terminated ↔ t = [] ∨ ∃ u, t = u ++ ['\n'] := by
  rw [Terminated, List.getLast?_eq_some_iff]

theorem detached_iff {t : Text} : t.Detached ↔ t = [] ∨ ∃ u, t = '\n' :: u := by
  rw [Detached, List.head?_eq_some_iff]

theorem Terminated.append {t u : Text} (ht : t.Terminated) (hu : u.Terminated) :
    (t ++ u).Terminated := by
  rcases terminated_iff.mp hu with rfl | ⟨v, rfl⟩
  · rwa [List.append_nil]
  · exact terminated_iff.mpr (Or.inr ⟨t ++ v, (List.append_assoc t v ['\n']).symm⟩)

/-! ## The first line and the last one -/

/-- What stands before the first newline. -/
def firstLine (t : Text) : Text := t.takeWhile (· ≠ '\n')

/-- What follows the first line, beginning with its newline. -/
def belowFirst (t : Text) : Text := t.dropWhile (· ≠ '\n')

/-- What stands after the last newline. -/
def lastLine (t : Text) : Text := t.rtakeWhile (· ≠ '\n')

/-- What stands before the last line, its newline included. -/
def aboveLast (t : Text) : Text := t.rdropWhile (· ≠ '\n')

theorem firstLine_append_belowFirst (t : Text) : t.firstLine ++ t.belowFirst = t :=
  List.takeWhile_append_dropWhile

theorem aboveLast_append_lastLine (t : Text) : t.aboveLast ++ t.lastLine = t :=
  List.rdropWhile_append_rtakeWhile

theorem not_mem_firstLine (t : Text) : '\n' ∉ t.firstLine := by
  intro h
  simpa using List.mem_takeWhile_imp h

theorem not_mem_lastLine (t : Text) : '\n' ∉ t.lastLine := by
  intro h
  simpa using List.mem_rtakeWhile_imp h

theorem firstLine_append {u : Text} (h : '\n' ∉ u) (v : Text) : firstLine (u ++ '\n' :: v) = u := by
  have hall : ∀ c ∈ u, decide (c ≠ '\n') = true := by
    intro c hc
    exact decide_eq_true fun hcn => h (hcn ▸ hc)
  rw [firstLine, List.takeWhile_append_of_pos hall, List.takeWhile_cons_of_neg (by simp),
    List.append_nil]

theorem detached_belowFirst (t : Text) : t.belowFirst.Detached := by
  by_cases h : t.belowFirst = []
  · exact Or.inl h
  · have hhead : t.belowFirst.head h = '\n' :=
      Decidable.not_not.mp (of_decide_eq_false (List.head_dropWhile_not (· ≠ '\n') h))
    exact Or.inr (hhead ▸ List.head?_eq_some_head h)

theorem terminated_aboveLast (t : Text) : t.aboveLast.Terminated := by
  by_cases h : t.aboveLast = []
  · exact Or.inl h
  · have hlast : t.aboveLast.getLast h = '\n' := by
      have hnot := List.rdropWhile_last_not (· ≠ '\n') t h
      exact Decidable.not_not.mp fun hne => hnot (decide_eq_true hne)
    exact Or.inr (hlast ▸ List.getLast?_eq_getLast_of_ne_nil h)

theorem lastLine_append {t u : Text} (ht : t.Terminated) (hu : '\n' ∉ u) :
    (t ++ u).lastLine = u := by
  induction u using List.reverseRecOn with
  | nil =>
      rw [List.append_nil, lastLine, List.rtakeWhile_eq_nil_iff]
      intro hne
      rcases ht with rfl | hlast
      · exact absurd rfl hne
      · rw [List.getLast?_eq_getLast_of_ne_nil hne] at hlast
        simp [Option.some.inj hlast]
  | append_singleton u c ih =>
      rw [List.mem_append, List.mem_singleton, not_or] at hu
      have hc : decide (c ≠ '\n') = true := decide_eq_true (Ne.symm hu.2)
      rw [← List.append_assoc, lastLine, List.rtakeWhile_concat_pos (· ≠ '\n') (t ++ u) c hc]
      exact congrArg (· ++ [c]) (ih hu.1)

/-! ## Lines -/

theorem lines_eq_splitOn (t : Text) : t.lines = t.splitOn '\n' := by
  induction t with
  | nil => rfl
  | cons c t ih =>
      rw [lines, ih, List.splitOn, List.splitOn, List.splitOnP_cons_eq_if_modifyHead]
      simp only [beq_iff_eq]

/-- The newlines of a text are all between its lines. -/
theorem not_mem_of_mem_lines {t l : Text} (h : l ∈ t.lines) : '\n' ∉ l := by
  induction t generalizing l with
  | nil =>
      rw [List.mem_singleton.mp h]
      exact List.not_mem_nil
  | cons c t ih =>
      rw [lines] at h
      split at h
      · rcases List.mem_cons.mp h with rfl | h
        · exact List.not_mem_nil
        · exact ih h
      · rename_i hc
        obtain ⟨k, ks, hk⟩ := List.exists_cons_of_ne_nil (lines_ne_nil t)
        rw [hk, List.modifyHead_cons] at h
        rcases List.mem_cons.mp h with rfl | h
        · have hnot := ih (l := k) (hk ▸ List.mem_cons_self)
          simp [hnot, Ne.symm hc]
        · exact ih (hk ▸ List.mem_cons_of_mem k h)

/-- Joining lines and cutting them apart again loses nothing. -/
theorem lines_unlines {ls : List Text} (hne : ls ≠ []) (h : ∀ l ∈ ls, '\n' ∉ l) :
    (unlines ls).lines = ls := by
  rw [lines_eq_splitOn]
  exact List.splitOn_intercalate '\n' h hne

theorem length_lines (t : Text) : t.lines.length = t.count '\n' + 1 := by
  induction t with
  | nil => rfl
  | cons c t ih =>
      rw [lines]
      split
      · rename_i hc
        rw [hc, List.length_cons, ih, List.count_cons_self]
      · rename_i hc
        rw [List.length_modifyHead, ih, List.count_cons_of_ne hc]

theorem lines_append_newline (t u : Text) : (t ++ '\n' :: u).lines = t.lines ++ u.lines := by
  simp only [lines_eq_splitOn, List.splitOn]
  exact List.splitOnP_append_cons t u (beq_self_eq_true '\n')

theorem unlines_singleton (l : Text) : unlines [l] = l := by
  rw [unlines, joinWith, List.intercalate_singleton]

/-- The lines of texts joined by newlines are those of each of them. -/
theorem lines_unlines_flatMap {ts : List Text} (hne : ts ≠ []) :
    (unlines ts).lines = ts.flatMap lines := by
  induction ts with
  | nil => exact absurd rfl hne
  | cons t ts ih =>
      cases ts with
      | nil => rw [unlines_singleton, List.flatMap_singleton]
      | cons u ts =>
          rw [unlines_cons_cons, lines_append_newline, ih (List.cons_ne_nil u ts)]
          exact List.flatMap_cons.symm

theorem unlines_append {ls ks : List Text} (hls : ls ≠ []) (hks : ks ≠ []) :
    unlines (ls ++ ks) = unlines ls ++ '\n' :: unlines ks := by
  obtain ⟨k, ks, rfl⟩ := List.exists_cons_of_ne_nil hks
  induction ls with
  | nil => exact absurd rfl hls
  | cons l ls ih =>
      cases ls with
      | nil =>
          rw [unlines_singleton]
          exact unlines_cons_cons l k ks
      | cons m ls =>
          have hrest := ih (List.cons_ne_nil m ls)
          rw [List.cons_append] at hrest
          rw [List.cons_append, List.cons_append, unlines_cons_cons, unlines_cons_cons, hrest,
            List.append_assoc, List.cons_append]

theorem joinWith_modifyHead (ending u : Text) {ls : List Text} (h : ls ≠ []) :
    joinWith ending (ls.modifyHead (u ++ ·)) = u ++ joinWith ending ls := by
  obtain ⟨l, rest, rfl⟩ := List.exists_cons_of_ne_nil h
  cases rest with
  | nil => simp [joinWith]
  | cons k rest => simp [joinWith, List.intercalate_cons_cons]

theorem lines_of_not_mem {t : Text} (h : '\n' ∉ t) : t.lines = [t] := by
  rw [lines_eq_splitOn]
  refine List.splitOnP_eq_singleton ?_
  intro c hc
  exact beq_false_of_ne (fun hcn => h (hcn ▸ hc))

/-! ## Characters of lines -/

/-- A character stands in both of two texts that agree on where it stands. -/
theorem mem_iff_of_filter_eq {c : Char} {t u : Text} (h : t.filter (· == c) = u.filter (· == c)) :
    c ∈ t ↔ c ∈ u := by
  have hself : ∀ v : Text, c ∈ v ↔ c ∈ v.filter (· == c) := by
    intro v
    simp
  rw [hself t, h, ← hself u]

/-- Joining lines adds no character of a class that the line ending has none of. -/
theorem filter_joinWith {p : Char → Bool} {ending : Text} (h : ∀ c ∈ ending, p c = false)
    (ls : List Text) : (joinWith ending ls).filter p = ls.flatten.filter p := by
  have hending : ending.filter p = [] := by simpa using h
  induction ls with
  | nil => simp [joinWith]
  | cons l ls ih =>
      cases ls with
      | nil => simp [joinWith]
      | cons k ls =>
          rw [joinWith] at ih
          rw [joinWith, List.intercalate_cons_cons, List.filter_append, List.filter_append, hending,
            ih, List.append_nil, ← List.filter_append]
          rfl

theorem mem_joinWith {c : Char} {ending : Text} (hc : c ∉ ending) (ls : List Text) :
    c ∈ joinWith ending ls ↔ c ∈ ls.flatten := by
  apply mem_iff_of_filter_eq
  apply filter_joinWith
  intro d hd
  exact beq_false_of_ne fun hdc => hc (hdc ▸ hd)

theorem filter_flatten_lines {p : Char → Bool} (hp : p '\n' = false) (t : Text) :
    t.lines.flatten.filter p = t.filter p := by
  have hjoined := filter_joinWith (List.forall_mem_singleton.mpr hp) t.lines
  rw [← hjoined]
  exact congrArg (List.filter p) (unlines_lines t)

theorem mem_flatten_lines {c : Char} (hc : c ≠ '\n') (t : Text) : c ∈ t.lines.flatten ↔ c ∈ t := by
  apply mem_iff_of_filter_eq
  apply filter_flatten_lines
  exact beq_false_of_ne hc.symm

theorem filter_unifyNewlines {p : Char → Bool} (hp : p '\r' = false) (t : Text) :
    t.unifyNewlines.filter p = t.filter p := by
  induction t using unifyNewlines.induct with
  | case1 rest ih => simp [unifyNewlines, List.filter_cons, hp, ih]
  | case2 c rest hnot ih =>
      rw [unifyNewlines.eq_2 c rest hnot, List.filter_cons, List.filter_cons, ih]
  | case3 => rfl

/-! ## Rows -/

/-- A line of a text, with what stands above it and below it. -/
structure Row where
  above : Text
  line : Text
  below : Text
  terminated : above.Terminated
  not_mem : '\n' ∉ line
  detached : below.Detached

namespace Row

/-- The text of which the line is a part. -/
def text (r : Row) : Text := r.above ++ r.line ++ r.below

/-- The number of lines above. -/
def number (r : Row) : Nat := r.above.count '\n'

theorem count_text (r : Row) : r.text.count '\n' = r.number + r.below.count '\n' := by
  rw [text, List.count_append, List.count_append, List.count_eq_zero_of_not_mem r.not_mem,
    Nat.add_zero, number]

theorem number_lt_length_lines (r : Row) : r.number < r.text.lines.length := by
  rw [length_lines, count_text]
  omega

theorem head?_lines_append {l : Text} (hl : '\n' ∉ l) {below : Text} (hb : below.Detached) :
    (l ++ below).lines.head? = some l := by
  rcases detached_iff.mp hb with rfl | ⟨v, rfl⟩
  · rw [List.append_nil, lines_of_not_mem hl]
    rfl
  · rw [lines_append_newline, lines_of_not_mem hl]
    rfl

theorem getElem?_lines (r : Row) : r.text.lines[r.number]? = some r.line := by
  have hhead := head?_lines_append r.not_mem r.detached
  rw [text, number, List.append_assoc]
  rcases terminated_iff.mp r.terminated with h | ⟨u, h⟩
  · rw [h]
    rw [List.head?_eq_getElem?] at hhead
    exact hhead
  · -- The lines above are those of `u`, one for every newline above.
    have hcount : (u ++ ['\n']).count '\n' = u.lines.length := by
      rw [length_lines, List.count_append, List.count_singleton_self]
    rw [h, hcount, List.append_assoc, List.singleton_append, lines_append_newline,
      List.getElem?_append_right (Nat.le_refl _), Nat.sub_self, ← List.head?_eq_getElem?]
    exact hhead

end Row

/-- Every line of a text stands in its row. -/
theorem exists_row {t : Text} {l : Nat} (h : l < t.lines.length) :
    ∃ r : Row, r.text = t ∧ r.number = l := by
  rw [length_lines] at h
  induction l generalizing t with
  | zero =>
      refine ⟨⟨[], t.firstLine, t.belowFirst, Or.inl rfl, not_mem_firstLine t,
        detached_belowFirst t⟩, ?_, rfl⟩
      exact firstLine_append_belowFirst t
  | succ l ih =>
      -- The first line ends in a newline, and the row is found behind it.
      have hmem : '\n' ∈ t := List.count_pos_iff.mp (by omega)
      obtain ⟨u, v, rfl, hu⟩ := List.eq_append_cons_of_mem hmem
      have hcount : (u ++ '\n' :: v).count '\n' = v.count '\n' + 1 := by
        rw [List.count_append, List.count_cons_self, List.count_eq_zero_of_not_mem hu, Nat.zero_add]
      obtain ⟨r, hr, hnum⟩ := ih (t := v) (by omega)
      have hfirst : Terminated (u ++ ['\n']) := terminated_iff.mpr (Or.inr ⟨u, rfl⟩)
      refine ⟨⟨u ++ ['\n'] ++ r.above, r.line, r.below, hfirst.append r.terminated, r.not_mem,
        r.detached⟩, ?_, ?_⟩
      · rw [← hr, Row.text, Row.text]
        simp only [List.append_assoc, List.cons_append, List.nil_append]
      · rw [← hnum, Row.number, Row.number, List.count_append, List.count_append,
          List.count_eq_zero_of_not_mem hu, List.count_singleton_self]
        omega

/-! ## Spots -/

/-- A place in a text: what stands above its line, to its left in the line, and from there on. -/
structure Spot where
  above : Text
  left : Text
  rest : Text
  terminated : above.Terminated
  not_mem : '\n' ∉ left

namespace Spot

/-- The text in which the place lies. -/
def text (p : Spot) : Text := p.above ++ p.left ++ p.rest

/-- The number of characters before the place. -/
def offset (p : Spot) : Nat := p.above.length + p.left.length

/-- The line of a place. -/
def row (p : Spot) : Row where
  above := p.above
  line := p.left ++ p.rest.firstLine
  below := p.rest.belowFirst
  terminated := p.terminated
  not_mem := by
    rw [List.mem_append]
    exact fun h => h.elim p.not_mem (not_mem_firstLine p.rest)
  detached := detached_belowFirst p.rest

theorem text_row (p : Spot) : p.row.text = p.text := by
  rw [Row.text, row, text]
  simp only [List.append_assoc, firstLine_append_belowFirst]

theorem take_text (p : Spot) : p.text.take p.offset = p.above ++ p.left := by
  rw [text, offset, ← List.length_append, List.take_left]

end Spot

/-- A text cut at an offset. -/
def spotAt (t : Text) (o : Nat) : Spot where
  above := aboveLast (t.take o)
  left := lastLine (t.take o)
  rest := t.drop o
  terminated := terminated_aboveLast _
  not_mem := not_mem_lastLine _

@[simp] theorem text_spotAt (t : Text) (o : Nat) : (t.spotAt o).text = t := by
  rw [Spot.text, spotAt, aboveLast_append_lastLine, List.take_append_drop]

theorem offset_spotAt {t : Text} {o : Nat} (h : o ≤ t.length) : (t.spotAt o).offset = o := by
  rw [Spot.offset, spotAt, ← List.length_append, aboveLast_append_lastLine,
    List.length_take_of_le h]

end GuardClause.Text
