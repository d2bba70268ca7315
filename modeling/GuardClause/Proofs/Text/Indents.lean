import GuardClause.Buffer
import GuardClause.Proofs.Text.Newlines

/-!
# Lines moved left and right

Indenting and dedenting add and remove blanks at the start of lines and touch nothing else: what is
left of a line when it is moved left as far as it goes stays the same (`Text.flushLeft`).
-/

namespace GuardClause.Text

/-- A line moved left as far as it goes: without the blanks at its start. -/
def flushLeft (line : Text) : Text := line.dropWhile isBlank

/-- A text of spaces and tabs. -/
def Blank (t : Text) : Prop := ∀ c ∈ t, isBlank c = true

variable {t u indent line : Text} {ls : List Text}

theorem blank_nil : Blank [] := List.forall_mem_nil _

theorem Blank.not_mem (h : Blank t) : '\n' ∉ t := by
  intro hmem
  cases h '\n' hmem

theorem blank_takeWhile (t : Text) : Blank (t.takeWhile isBlank) :=
  fun _ hc => List.mem_takeWhile_imp hc

theorem blank_lineIndent (b : Buffer) (offset : Int) : Blank (b.lineIndent offset) :=
  blank_takeWhile _

theorem flushLeft_append (h : Blank indent) : flushLeft (indent ++ line) = flushLeft line :=
  List.dropWhile_append_of_pos h

theorem flushLeft_indentLine (h : Blank indent) (line : Text) :
    flushLeft (indentLine indent line) = flushLeft line := by
  unfold indentLine
  split
  · rfl
  · exact flushLeft_append h

theorem flushLeft_dedentLine (width : Nat) (line : Text) :
    flushLeft (dedentLine width line) = flushLeft line := by
  induction width generalizing line with
  | zero => rfl
  | succ width ih =>
      cases line with
      | nil => rfl
      | cons c line =>
          unfold dedentLine
          split
          · rename_i hc
            rw [ih, flushLeft, flushLeft, List.dropWhile_cons_of_pos hc]
          · rfl

theorem map_flushLeft_mapContinuations {f : Text → Text}
    (hf : ∀ l, flushLeft (f l) = flushLeft l) (ls : List Text) :
    (mapContinuations f ls).map flushLeft = ls.map flushLeft := by
  cases ls with
  | nil => rfl
  | cons l ls =>
      rw [mapContinuations, List.map_cons, List.map_cons, List.map_map]
      exact congrArg (flushLeft l :: ·) (List.map_congr_left fun m _ => hf m)

theorem mapContinuations_ne_nil {f : Text → Text} (h : ls ≠ []) : mapContinuations f ls ≠ [] := by
  cases ls with
  | nil => exact h
  | cons l ls => exact List.cons_ne_nil _ _

/-! ## Only blanks come and go -/

section

variable {p : Char → Bool} (hp : ∀ c, isBlank c = true → p c = false)
include hp

theorem filter_blank (h : Blank t) : t.filter p = [] := by
  simp only [List.filter_eq_nil_iff, Bool.not_eq_true]
  exact fun c hc => hp c (h c hc)

theorem filter_flushLeft (line : Text) : (flushLeft line).filter p = line.filter p := by
  have hcut : line.takeWhile isBlank ++ flushLeft line = line := List.takeWhile_append_dropWhile
  rw [← hcut, List.filter_append, filter_blank hp (blank_takeWhile line), List.nil_append, hcut]

/-- Lines that differ by the blanks at their starts have the same other characters. -/
theorem filter_flatten_of_map_flushLeft {ks : List Text}
    (h : ls.map flushLeft = ks.map flushLeft) : ls.flatten.filter p = ks.flatten.filter p := by
  have hflush : ∀ ms : List Text, ms.flatten.filter p = (ms.map flushLeft).flatten.filter p := by
    intro ms
    simp only [List.filter_flatten, List.map_map]
    congr 1
    exact List.map_congr_left fun m _ => (filter_flushLeft hp m).symm
  rw [hflush ls, h, ← hflush ks]

end

theorem mem_flatten_of_map_flushLeft {c : Char} (hc : isBlank c = false) {ks : List Text}
    (h : ls.map flushLeft = ks.map flushLeft) : c ∈ ls.flatten ↔ c ∈ ks.flatten := by
  apply mem_iff_of_filter_eq
  apply filter_flatten_of_map_flushLeft _ h
  intro d hd
  apply beq_false_of_ne
  rintro rfl
  cases hc.symm.trans hd

/-- Moved left, a line ends in the same character unless it is blank. -/
theorem getLast?_flushLeft {c : Char} (hc : isBlank c = false) (line : Text) :
    (flushLeft line).getLast? = some c ↔ line.getLast? = some c := by
  have hcut : line.takeWhile isBlank ++ flushLeft line = line := List.takeWhile_append_dropWhile
  have hblank : (line.takeWhile isBlank).getLast? ≠ some c := by
    intro hlast
    cases hc.symm.trans (blank_takeWhile line c (List.mem_of_getLast? hlast))
  rw [← hcut, List.getLast?_append, hcut]
  cases h : (flushLeft line).getLast? with
  | none => simp [hblank]
  | some d => simp

/-! ## No newline comes in -/

theorem not_mem_indentLine (hindent : '\n' ∉ indent) (hline : '\n' ∉ line) :
    '\n' ∉ indentLine indent line := by
  unfold indentLine
  split
  · exact hline
  · rw [List.mem_append]
    exact fun h => h.elim hindent hline

theorem dedentLine_suffix (width : Nat) (line : Text) : dedentLine width line <:+ line := by
  induction width generalizing line with
  | zero => exact List.suffix_rfl
  | succ width ih =>
      cases line with
      | nil => exact List.suffix_rfl
      | cons c line =>
          unfold dedentLine
          split
          · exact (ih line).trans (List.suffix_cons c line)
          · exact List.suffix_rfl

theorem not_mem_dedentLine (width : Nat) (hline : '\n' ∉ line) : '\n' ∉ dedentLine width line :=
  fun h => hline ((dedentLine_suffix width line).subset h)

theorem not_mem_mapContinuations {f : Text → Text} (hf : ∀ l, '\n' ∉ l → '\n' ∉ f l)
    (hls : ∀ l ∈ ls, '\n' ∉ l) : ∀ l ∈ mapContinuations f ls, '\n' ∉ l := by
  cases ls with
  | nil => exact hls
  | cons k ls =>
      intro l hl
      rcases List.mem_cons.mp hl with rfl | hl
      · exact hls l List.mem_cons_self
      · obtain ⟨m, hm, rfl⟩ := List.mem_map.mp hl
        exact hf m (hls m (List.mem_cons_of_mem k hm))

/-! ## Taking an indentation away and putting it back -/

theorem indentLine_nil : indentLine [] = id := by
  funext line
  unfold indentLine
  split <;> rfl

theorem indentLine_of_ne_nil (h : line ≠ []) : indentLine indent line = indent ++ line := by
  rw [indentLine, if_neg]
  simpa using h

/-- Moved right twice, a line is moved right by both indentations. -/
theorem indentLine_indentLine (indent indent' line : Text) :
    indentLine indent (indentLine indent' line) = indentLine (indent ++ indent') line := by
  cases line with
  | nil => rfl
  | cons c line => simp [indentLine]

theorem dedentLine_nil (width : Nat) : dedentLine width [] = [] := by
  cases width <;> rfl

theorem dedentLine_append (h : Blank indent) (line : Text) :
    dedentLine indent.length (indent ++ line) = line := by
  induction indent with
  | nil => rfl
  | cons c indent ih =>
      have hc : isBlank c = true := h c List.mem_cons_self
      rw [List.length_cons, List.cons_append, dedentLine, if_pos hc]
      exact ih fun d hd => h d (List.mem_cons_of_mem c hd)

/-- A line comes back as it was when it was empty or indented so, with something behind the
indentation. -/
theorem indentLine_dedentLine_eq_iff (h : Blank indent) :
    indentLine indent (dedentLine indent.length line) = line ↔
      line = [] ∨ indent <+: line ∧ indent.length < line.length := by
  constructor
  · intro heq
    cases hrest : dedentLine indent.length line with
    | nil =>
        rw [hrest] at heq
        exact Or.inl heq.symm
    | cons c rest =>
        -- Something is left of the line, so it stands behind the indentation again.
        rw [hrest] at heq
        have hcut : indent ++ c :: rest = line := heq
        subst hcut
        simp
  · rintro (rfl | ⟨⟨rest, rfl⟩, hlt⟩)
    · rw [dedentLine_nil]
      rfl
    · rw [dedentLine_append h, indentLine, if_neg]
      rintro hempty
      simp_all

theorem length_mapContinuations (f : Text → Text) (ls : List Text) :
    (mapContinuations f ls).length = ls.length := by
  cases ls <;> simp [mapContinuations]

theorem head?_mapContinuations (f : Text → Text) (ls : List Text) :
    (mapContinuations f ls).head? = ls.head? := by
  cases ls <;> rfl

theorem mapContinuations_mapContinuations (f g : Text → Text) (ls : List Text) :
    mapContinuations f (mapContinuations g ls) = mapContinuations (f ∘ g) ls := by
  cases ls <;> simp [mapContinuations]

theorem mapContinuations_eq_self_iff {f : Text → Text} :
    mapContinuations f ls = ls ↔ ∀ l ∈ ls.tail, f l = l := by
  cases ls with
  | nil => simp [mapContinuations]
  | cons l ls =>
      have hself := List.map_inj_left (l := ls) (f := f) (g := id)
      simpa [mapContinuations] using hself

end GuardClause.Text
