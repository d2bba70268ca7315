import GuardClause.Text.Slice
import GuardClause.Text.Unicode
import Mathlib

/-!
# What lower-casing does to a text

How long the lower case of a text is depends on its characters alone, not on what stands around
them, so that the lower case of a text is longer than that of each shorter end of it
(`length_lowerCase_lt`). A text in lower case stays as it is when it is lower-cased again
(`lowerCase_lowerCase`), because no form in the case table has a lower-case form of its own. For the
last fact the table is laid out as two sets of bits, the characters that have a form and the forms,
and the two have no bit in common.
-/

namespace GuardClause.Text

/-! ## Lengths -/

/-- Only one character has two characters in lower case. -/
theorem length_lowerInContext (before : List Char) (c : Char) (after : List Char) :
    (lowerInContext before c after).length = if c = 'İ' then 2 else 1 := by
  unfold lowerInContext
  by_cases hsigma : c = 'Σ'
  · have hne : 'Σ' ≠ 'İ' := by decide
    rw [if_pos hsigma, hsigma, if_neg hne]
    cases meetsCased before && !meetsCased after <;> rfl
  · rw [if_neg hsigma]
    split <;> rfl

theorem length_lowerAfter (before t : List Char) :
    (lowerAfter before t).length = t.length + t.count 'İ' := by
  induction t generalizing before with
  | nil => rfl
  | cons c t ih =>
      rw [lowerAfter, List.length_append, length_lowerInContext, ih, List.length_cons]
      by_cases hc : c = 'İ'
      · rw [if_pos hc, hc, List.count_cons_self]
        omega
      · rw [if_neg hc, List.count_cons_of_ne hc]
        omega

theorem length_lowerCase (t : Text) :
    (lowerCase (String.ofList t)).length = t.length + t.count 'İ' := by
  rw [lowerCase, String.length_ofList, length_lowerAfter, String.toList_ofList]

/-- The lower case of a shorter end of a text is shorter. -/
theorem length_lowerCase_lt {t u : Text} (h : u <:+ t) (hlt : u.length < t.length) :
    (lowerCase (String.ofList u)).length < (lowerCase (String.ofList t)).length := by
  have hcount : u.count 'İ' ≤ t.count 'İ' := h.sublist.count_le 'İ'
  rw [length_lowerCase, length_lowerCase]
  omega

/-! ## Characters in lower case -/

/-- A run of the case table. -/
abbrev CaseRun := Nat × Nat × Nat × Int

/-- The code points that a run gives forms for. -/
def CaseRun.points (r : CaseRun) : List Nat :=
  (List.range ((r.2.1 - r.1) / r.2.2.1 + 1)).map fun k => r.1 + k * r.2.2.1

/-- The code points of the forms that a run gives. -/
def CaseRun.forms (r : CaseRun) : List Nat :=
  r.points.map fun n : Nat => ((n : Int) + r.2.2.2).toNat

theorem CaseRun.mem_points {r : CaseRun} {n : Nat} (hfirst : r.1 ≤ n) (hlast : n ≤ r.2.1)
    (hstep : (n - r.1) % r.2.2.1 = 0) : n ∈ r.points := by
  refine List.mem_map.mpr ⟨(n - r.1) / r.2.2.1, List.mem_range.mpr ?_, ?_⟩
  · exact Nat.lt_succ_of_le (Nat.div_le_div_right (by omega))
  · rw [Nat.div_mul_cancel (Nat.dvd_of_mod_eq_zero hstep)]
    omega

/-- A number with a bit for every code point of some groups of code points. -/
def bitSet (groups : List (List Nat)) : Nat :=
  groups.foldr (fun points bits => points.foldr (fun n bits => 1 <<< n ||| bits) 0 ||| bits) 0

theorem testBit_foldr_or {β : Type} {f : β → Nat} {l : List β} {b : β} {n : Nat} (hb : b ∈ l)
    (hn : (f b).testBit n = true) : (l.foldr (fun b bits => f b ||| bits) 0).testBit n = true := by
  induction l with
  | nil => exact absurd hb List.not_mem_nil
  | cons c l ih =>
      rw [List.foldr_cons, Nat.testBit_or]
      rcases List.mem_cons.mp hb with rfl | hb
      · rw [hn, Bool.true_or]
      · rw [ih hb, Bool.or_true]

theorem testBit_bitSet {groups : List (List Nat)} {points : List Nat} {n : Nat}
    (hpoints : points ∈ groups) (hn : n ∈ points) : (bitSet groups).testBit n = true := by
  refine testBit_foldr_or (f := fun points => points.foldr (fun n bits => 1 <<< n ||| bits) 0)
    hpoints (testBit_foldr_or (f := fun n => 1 <<< n) hn ?_)
  rw [Nat.testBit_shiftLeft, Nat.sub_self]
  simp

/-- The characters that change in lower case: those of the table and two that are treated apart. -/
def changing : List (List Nat) := ['Σ', 'İ'].map Char.toNat :: lowerRuns.map CaseRun.points

/-- The characters that come out of a change: the forms of the table and those of the other two. -/
def changed : List (List Nat) :=
  ['ς', 'σ', 'i', '\u0307'].map Char.toNat :: lowerRuns.map CaseRun.forms

/-- No character that comes out of a change changes again. -/
theorem bitSet_changing_and_changed : bitSet changing &&& bitSet changed = 0 := by
  decide +kernel

/-- A character that stays as it is in lower case, wherever it stands. -/
structure IsLower (c : Char) : Prop where
  ne_sigma : c ≠ 'Σ'
  ne_dotted : c ≠ 'İ'
  lowerSimple_eq : lowerSimple c = c

theorem bounds_of_isUpper {c : Char} (h : c.isUpper = true) : 0x41 ≤ c.toNat ∧ c.toNat ≤ 0x5A := by
  obtain ⟨hfirst, hlast⟩ := of_decide_eq_true h
  exact ⟨UInt32.le_iff_toNat_le.mp hfirst, UInt32.le_iff_toNat_le.mp hlast⟩

/-- The upper-case letters of one byte are the first run of the table. -/
theorem exists_points_of_isUpper {c : Char} (h : c.isUpper = true) :
    ∃ r ∈ lowerRuns, c.toNat ∈ CaseRun.points r ∧ r.2.2.2 = 32 := by
  obtain ⟨hfirst, hlast⟩ := bounds_of_isUpper h
  refine ⟨(0x41, 0x5A, 1, 32), ?_, CaseRun.mem_points hfirst hlast (Nat.mod_one _), rfl⟩
  unfold lowerRuns
  exact List.mem_cons_self

/-- The run that is found for a code point covers it. -/
theorem mem_points_of_find? {n : Nat} {r : CaseRun}
    (h : (lowerRuns.find? fun r => r.1 ≤ n && n ≤ r.2.1 && (n - r.1) % r.2.2.1 == 0) = some r) :
    n ∈ r.points := by
  have hfound := List.find?_some h
  simp only [Bool.and_eq_true, decide_eq_true_eq, beq_iff_eq] at hfound
  obtain ⟨⟨hfirst, hlast⟩, hstep⟩ := hfound
  exact CaseRun.mem_points hfirst hlast hstep

/-- A character stays as it is, or a run of the table covers it and gives its form. -/
theorem lowerSimple_cases (c : Char) :
    lowerSimple c = c ∨ ∃ r ∈ lowerRuns, ∃ n ∈ CaseRun.forms r, lowerSimple c = Char.ofNat n := by
  unfold lowerSimple
  split_ifs with hupper
  · obtain ⟨r, hr, hpoint, hmove⟩ := exists_points_of_isUpper hupper
    refine Or.inr ⟨r, hr, c.toNat + 32, List.mem_map.mpr ⟨_, hpoint, ?_⟩,
      Char.toLower_eq_of_isUpper hupper⟩
    rw [hmove]
    rfl
  · exact Or.inl rfl
  · dsimp only
    split
    · rename_i r hr
      have hpoint := mem_points_of_find? hr
      exact Or.inr ⟨r, List.mem_of_find?_eq_some hr, _, List.mem_map_of_mem hpoint, rfl⟩
    · exact Or.inl rfl

/-- A character that no run covers stays as it is. -/
theorem lowerSimple_eq_self {c : Char} (h : ∀ r ∈ lowerRuns, c.toNat ∉ CaseRun.points r) :
    lowerSimple c = c := by
  unfold lowerSimple
  split_ifs with hupper
  · obtain ⟨r, hr, hpoint, -⟩ := exists_points_of_isUpper hupper
    exact absurd hpoint (h r hr)
  · rfl
  · dsimp only
    split
    · rename_i r hr
      exact absurd (mem_points_of_find? hr) (h r (List.mem_of_find?_eq_some hr))
    · rfl

/-- A character whose bit is not in the set of those that change stays as it is. -/
theorem isLower_of_testBit {c : Char} (h : (bitSet changing).testBit c.toNat = false) :
    IsLower c := by
  have hnot : ∀ points ∈ changing, c.toNat ∉ points := by
    intro points hpoints hmem
    rw [testBit_bitSet hpoints hmem] at h
    cases h
  have hapart := hnot _ List.mem_cons_self
  refine ⟨?_, ?_, lowerSimple_eq_self fun r hr => ?_⟩
  · rintro rfl
    exact hapart (by simp)
  · rintro rfl
    exact hapart (by simp)
  · exact hnot _ (List.mem_cons_of_mem _ (List.mem_map_of_mem hr))

theorem isLower_of_mem_changed {points : List Nat} (hpoints : points ∈ changed) {n : Nat}
    (hn : n ∈ points) : IsLower (Char.ofNat n) := by
  apply isLower_of_testBit
  rw [Char.toNat_ofNat]
  split_ifs
  · have hform := testBit_bitSet hpoints hn
    have hboth := congrArg (Nat.testBit · n) bitSet_changing_and_changed
    simpa [Nat.testBit_and, hform] using hboth
  · -- A number that is no code point stands for the first character, which does not change.
    decide +kernel

/-! ## Texts in lower case -/

theorem lowerInContext_of_isLower {c : Char} (h : IsLower c) (before after : List Char) :
    lowerInContext before c after = [c] := by
  rw [lowerInContext, if_neg h.ne_sigma, if_neg h.ne_dotted, h.lowerSimple_eq]

theorem lowerAfter_of_isLower {t : List Char} (h : ∀ c ∈ t, IsLower c) (before : List Char) :
    lowerAfter before t = t := by
  induction t generalizing before with
  | nil => rfl
  | cons c t ih =>
      rw [lowerAfter, lowerInContext_of_isLower (h c List.mem_cons_self),
        ih fun d hd => h d (List.mem_cons_of_mem c hd)]
      rfl

theorem isLower_of_mem_lowerInContext {before after : List Char} {c d : Char}
    (h : d ∈ lowerInContext before c after) : IsLower d := by
  have hapart : ∀ d ∈ ['ς', 'σ', 'i', '\u0307'], IsLower d := by
    intro d hd
    have hlower := isLower_of_mem_changed List.mem_cons_self (List.mem_map_of_mem hd)
    rwa [Char.ofNat_toNat] at hlower
  unfold lowerInContext at h
  split_ifs at h with hsigma hfinal hdotted
  · exact hapart d (by simp_all)
  · exact hapart d (by simp_all)
  · exact hapart d (by simp_all)
  · obtain rfl := List.mem_singleton.mp h
    rcases lowerSimple_cases c with hself | ⟨r, hr, n, hn, hform⟩
    · rw [hself]
      exact ⟨hsigma, hdotted, hself⟩
    · rw [hform]
      exact isLower_of_mem_changed (List.mem_cons_of_mem _ (List.mem_map_of_mem hr)) hn

theorem isLower_of_mem_lowerAfter {before t : List Char} {d : Char} (h : d ∈ lowerAfter before t) :
    IsLower d := by
  induction t generalizing before with
  | nil => exact absurd h List.not_mem_nil
  | cons c t ih =>
      rw [lowerAfter] at h
      rcases List.mem_append.mp h with h | h
      · exact isLower_of_mem_lowerInContext h
      · exact ih h

/-- Lower case is not changed by lower-casing. -/
theorem lowerCase_lowerCase (s : String) : lowerCase (lowerCase s) = lowerCase s := by
  rw [lowerCase, lowerCase, String.toList_ofList,
    lowerAfter_of_isLower fun _ hc => isLower_of_mem_lowerAfter hc]

end GuardClause.Text
