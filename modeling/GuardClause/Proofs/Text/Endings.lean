import GuardClause.Proofs.Text.Indents

/-!
# Line endings of two characters

In a text with pure line endings a carriage return and a newline stand together or not at all
(`Text.Paired`). Joining lines by such endings gives a text of this kind exactly when no line holds
a carriage return (`paired_joinWith`). A stretch of such a text may begin or stop between the two
characters of an ending. Unifying its newlines leaves a carriage return only when it stops there
(`cr_mem_unifyNewlines`).

In a text whose newlines all follow carriage returns (`Text.FullEndings`) other carriage returns may
stand anywhere. Such a text comes back when its lines are joined by endings of two characters
(`joinWith_lines_of_fullEndings`), and it is the only sort of text that does.
-/

namespace GuardClause.Text

/-- Every newline directly follows a carriage return, and every carriage return stands directly
before a newline. -/
structure Paired (t : Text) : Prop where
  before_newline : ∀ u v, t = u ++ '\n' :: v → u.getLast? = some '\r'
  after_return : ∀ u v, t = u ++ '\r' :: v → v.head? = some '\n'

/-- Two characters may stand side by side: the first is a carriage return exactly when the second is
a newline. -/
def Fits (c d : Char) : Prop := c = '\r' ↔ d = '\n'

instance : DecidableRel Fits := fun c d => inferInstanceAs (Decidable (c = '\r' ↔ d = '\n'))

variable {t u l : Text} {ls ks : List Text}

/-- Line endings are pure when no ending is torn, neither inside the text nor at either end. -/
theorem paired_iff :
    t.Paired ↔ t.IsChain Fits ∧ t.head? ≠ some '\n' ∧ t.getLast? ≠ some '\r' := by
  constructor
  · intro h
    refine ⟨List.isChain_iff_forall_rel_of_append_cons_cons.mpr ?_, ?_, ?_⟩
    · rintro c d u v rfl
      constructor
      · rintro rfl
        exact Option.some.inj (h.after_return u (d :: v) rfl)
      · rintro rfl
        have hlast := h.before_newline (u ++ [c]) v (List.append_cons u c ('\n' :: v))
        rw [List.getLast?_concat] at hlast
        exact Option.some.inj hlast
    · intro hhead
      obtain ⟨v, rfl⟩ := List.head?_eq_some_iff.mp hhead
      cases h.before_newline [] v rfl
    · intro hlast
      obtain ⟨u, rfl⟩ := List.getLast?_eq_some_iff.mp hlast
      cases h.after_return u [] rfl
  · rintro ⟨hchain, hhead, hlast⟩
    constructor
    · rintro u v rfl
      rcases List.eq_nil_or_concat' u with rfl | ⟨w, c, rfl⟩
      · exact absurd rfl hhead
      · rw [List.getLast?_concat]
        have hfit : Fits c '\n' :=
          List.isChain_iff_forall_rel_of_append_cons_cons.mp hchain (List.append_assoc w [c] _)
        exact congrArg some (hfit.mpr rfl)
    · rintro u v rfl
      cases v with
      | nil => exact absurd List.getLast?_concat hlast
      | cons d v =>
          have hfit : Fits '\r' d :=
            List.isChain_iff_forall_rel_of_append_cons_cons.mp hchain rfl
          exact congrArg some (hfit.mp rfl)

instance (t : Text) : Decidable t.Paired := decidable_of_iff _ paired_iff.symm

/-! ## Joining -/

theorem Paired.append (ht : t.Paired) (hu : u.Paired) : (t ++ u).Paired := by
  obtain ⟨htc, hth, htl⟩ := paired_iff.mp ht
  obtain ⟨huc, huh, hul⟩ := paired_iff.mp hu
  refine paired_iff.mpr ⟨htc.append huc ?_, ?_, ?_⟩
  · intro c hc d hd
    exact iff_of_false (fun hcr => htl (hcr ▸ hc)) (fun hdn => huh (hdn ▸ hd))
  · rw [List.head?_append]
    cases h : t.head? with
    | none => exact huh
    | some c =>
        rw [h] at hth
        exact hth
  · rw [List.getLast?_append]
    cases h : u.getLast? with
    | none => exact htl
    | some c =>
        rw [h] at hul
        exact hul

/-- A line is pure when it holds no carriage return. -/
theorem paired_line (hl : '\n' ∉ l) : l.Paired ↔ '\r' ∉ l := by
  constructor
  · intro h hmem
    obtain ⟨u, v, rfl⟩ := List.append_of_mem hmem
    have hv := List.mem_of_head? (h.after_return u v rfl)
    exact hl (List.mem_append_right u (List.mem_cons_of_mem _ hv))
  · intro hr
    constructor
    · rintro u v rfl
      exact absurd (List.mem_append_right u List.mem_cons_self) hl
    · rintro u v rfl
      exact absurd (List.mem_append_right u List.mem_cons_self) hr

/-- A line before an ending is pure when it holds no carriage return, not even at its end. -/
theorem paired_append_ending (hl : '\n' ∉ l) :
    (l ++ (['\r', '\n'] ++ t)).Paired ↔ '\r' ∉ l ∧ t.Paired := by
  constructor
  · intro h
    constructor
    · intro hmem
      obtain ⟨u, v, rfl⟩ := List.append_of_mem hmem
      have hnext := h.after_return u (v ++ (['\r', '\n'] ++ t)) (by simp)
      cases v with
      | nil => cases hnext
      | cons d v =>
          obtain rfl : d = '\n' := Option.some.inj hnext
          exact hl (List.mem_append_right u (by simp))
    · constructor
      · rintro u v rfl
        have hlast := h.before_newline (l ++ (['\r', '\n'] ++ u)) v (by simp)
        rcases List.eq_nil_or_concat' u with rfl | ⟨w, c, rfl⟩
        · simp at hlast
        · rw [← List.append_assoc, ← List.append_assoc, List.getLast?_concat] at hlast
          rw [List.getLast?_concat, hlast]
      · rintro u v rfl
        exact h.after_return (l ++ (['\r', '\n'] ++ u)) v (by simp)
  · rintro ⟨hr, ht⟩
    have hending : Paired ['\r', '\n'] := by decide
    exact ((paired_line hl).mpr hr).append (hending.append ht)

/-- Lines joined by pure endings are pure exactly when no carriage return is left in them. -/
theorem paired_joinWith (hls : ∀ l ∈ ls, '\n' ∉ l) :
    (joinWith ['\r', '\n'] ls).Paired ↔ '\r' ∉ ls.flatten := by
  induction ls with
  | nil => exact iff_of_true (by decide) List.not_mem_nil
  | cons l ls ih =>
      have hl := hls l List.mem_cons_self
      cases ls with
      | nil =>
          rw [joinWith, List.intercalate_singleton, List.flatten_singleton]
          exact paired_line hl
      | cons k ls =>
          have hrest := ih fun m hm => hls m (List.mem_cons_of_mem l hm)
          rw [joinWith, List.intercalate_cons_cons, List.append_assoc, paired_append_ending hl,
            List.flatten_cons, List.mem_append, not_or]
          exact and_congr_right fun _ => hrest

/-! ## Stretches -/

theorem isChain_slice (h : t.IsChain Fits) (i j : Int) : (t.slice i j).IsChain Fits :=
  (h.take _).drop _

theorem mem_of_mem_slice {c : Char} {i j : Int} (h : c ∈ t.slice i j) : c ∈ t :=
  List.mem_of_mem_take (List.mem_of_mem_drop h)

/-- Of a stretch without torn endings inside it, unifying leaves only a carriage return at the
end. -/
theorem cr_mem_unifyNewlines (h : t.IsChain Fits) :
    '\r' ∈ t.unifyNewlines ↔ t.getLast? = some '\r' := by
  induction t using unifyNewlines.induct with
  | case1 rest ih =>
      have hrest := ih h.tail.tail
      rw [unifyNewlines, List.mem_cons, hrest]
      cases rest with
      | nil => simp
      | cons d rest => simp
  | case2 c rest hnot ih =>
      have hrest := ih h.tail
      rw [unifyNewlines.eq_2 c rest hnot, List.mem_cons, hrest]
      cases rest with
      | nil => simp [eq_comm]
      | cons d rest =>
          -- The carriage return of an ending would have been dropped.
          have hc : '\r' ≠ c := by
            intro hcr
            have hd : d = '\n' := (List.isChain_cons_cons.mp h).1.mp hcr.symm
            exact hnot rest hcr.symm (hd ▸ rfl)
          simp [hc]
  | case3 => simp [unifyNewlines]

theorem mem_of_mem_unifyNewlines {c : Char} (h : c ∈ t.unifyNewlines) : c ∈ t := by
  induction t using unifyNewlines.induct with
  | case1 rest ih =>
      rw [unifyNewlines, List.mem_cons] at h
      rcases h with rfl | h
      · simp
      · simp [ih h]
  | case2 d rest hnot ih =>
      rw [unifyNewlines.eq_2 d rest hnot, List.mem_cons] at h
      rcases h with rfl | h
      · exact List.mem_cons_self
      · exact List.mem_cons_of_mem d (ih h)
  | case3 => exact h

/-! ## The ending that a buffer has -/

theorem hasCrlf_append (u v : Text) : hasCrlf (u ++ '\r' :: '\n' :: v) = true := by
  induction u using hasCrlf.induct with
  | case1 rest => rfl
  | case2 c rest hnot ih =>
      by_cases hc : c = '\r' ∧ ∃ w, rest ++ '\r' :: '\n' :: v = '\n' :: w
      · obtain ⟨rfl, w, hw⟩ := hc
        rw [List.cons_append, hw]
        rfl
      · rw [List.cons_append, hasCrlf]
        · exact ih
        · intro w hcr hw
          exact hc ⟨hcr, w, hw⟩
  | case3 => rfl

theorem cr_mem_of_hasCrlf (h : t.hasCrlf = true) : '\r' ∈ t := by
  induction t using hasCrlf.induct with
  | case1 rest => exact List.mem_cons_self
  | case2 c rest hnot ih =>
      rw [hasCrlf] at h
      · exact List.mem_cons_of_mem c (ih h)
      · exact hnot
  | case3 => cases h

theorem Paired.hasCrlf (h : t.Paired) (hmem : '\n' ∈ t) : t.hasCrlf = true := by
  obtain ⟨u, v, rfl⟩ := List.append_of_mem hmem
  obtain ⟨w, rfl⟩ := List.getLast?_eq_some_iff.mp (h.before_newline u v rfl)
  rw [List.append_assoc]
  exact hasCrlf_append w v

/-! ## Endings that are all of two characters -/

/-- Every newline follows a carriage return. -/
def FullEndings (t : Text) : Prop := ∀ u v, t = u ++ '\n' :: v → u.getLast? = some '\r'

theorem fullEndings_of_not_mem (h : '\n' ∉ t) : t.FullEndings := by
  rintro u v rfl
  simp at h

theorem FullEndings.append (ht : t.FullEndings) (hu : u.FullEndings) : (t ++ u).FullEndings := by
  intro x y heq
  rcases List.append_eq_append_iff.mp heq with ⟨w, rfl, hw⟩ | ⟨w, rfl, hw⟩
  · rw [List.getLast?_append, hu w y hw]
    rfl
  · cases w with
    | nil =>
        have hfirst := hu [] y hw.symm
        cases hfirst
    | cons c w =>
        obtain ⟨rfl, rfl⟩ := List.cons.inj hw
        exact ht x w rfl

theorem fullEndings_joinWith (hls : ∀ l ∈ ls, '\n' ∉ l) :
    (joinWith ['\r', '\n'] ls).FullEndings := by
  have hending : FullEndings ['\r', '\n'] := (show Paired ['\r', '\n'] by decide).before_newline
  induction ls with
  | nil => exact fullEndings_of_not_mem List.not_mem_nil
  | cons l ls ih =>
      have hl := fullEndings_of_not_mem (hls l List.mem_cons_self)
      cases ls with
      | nil =>
          rw [joinWith, List.intercalate_singleton]
          exact hl
      | cons k ls =>
          have hrest := ih fun m hm => hls m (List.mem_cons_of_mem l hm)
          rw [joinWith, List.intercalate_cons_cons]
          exact (hl.append hending).append hrest

/-- A text comes back from its lines when their endings were all of two characters. -/
theorem joinWith_lines_of_fullEndings (h : t.FullEndings) :
    joinWith ['\r', '\n'] t.unifyNewlines.lines = t := by
  induction t using unifyNewlines.induct with
  | case1 rest ih =>
      have hrest : FullEndings rest := by
        rintro u v rfl
        have hlast := h ('\r' :: '\n' :: u) v rfl
        cases u with
        | nil => cases hlast
        | cons c u => simpa using hlast
      obtain ⟨l, ls, hls⟩ := List.exists_cons_of_ne_nil (lines_ne_nil (unifyNewlines rest))
      have hjoin := ih hrest
      rw [hls] at hjoin
      rw [unifyNewlines, lines, if_pos rfl, hls, joinWith, List.intercalate_cons_cons, ← joinWith,
        hjoin]
      rfl
  | case2 c rest hnot ih =>
      have hc : c ≠ '\n' := by
        rintro rfl
        cases h [] rest rfl
      have hrest : FullEndings rest := by
        rintro u v rfl
        have hlast := h (c :: u) v rfl
        cases u with
        | nil =>
            -- The newline after `c` would be an ending of two characters.
            exact absurd rfl (hnot v (Option.some.inj hlast))
        | cons d u => simpa using hlast
      have hhead := joinWith_modifyHead ['\r', '\n'] [c] (lines_ne_nil (unifyNewlines rest))
      rw [ih hrest] at hhead
      rw [unifyNewlines.eq_2 c rest hnot, lines, if_neg hc]
      exact hhead
  | case3 => rfl

theorem unifyNewlines_of_not_mem (h : '\n' ∉ l) : l.unifyNewlines = l := by
  induction l using unifyNewlines.induct with
  | case1 rest => simp at h
  | case2 c rest hnot ih =>
      rw [unifyNewlines.eq_2 c rest hnot, ih fun hmem => h (List.mem_cons_of_mem c hmem)]
  | case3 => rfl

theorem unifyNewlines_append_ending (h : '\n' ∉ l) (t : Text) :
    (l ++ (['\r', '\n'] ++ t)).unifyNewlines = l ++ '\n' :: t.unifyNewlines := by
  induction l with
  | nil => rfl
  | cons c l ih =>
      have hl : '\n' ∉ l := fun hmem => h (List.mem_cons_of_mem c hmem)
      rw [List.cons_append, unifyNewlines.eq_2, ih hl, List.cons_append]
      rintro rest rfl hrest
      cases l with
      | nil => simp at hrest
      | cons d l =>
          obtain rfl : d = '\n' := (List.cons.inj hrest).1
          exact hl List.mem_cons_self

/-- Reading endings of two characters as newlines gives the lines that were joined. -/
theorem lines_unifyNewlines_joinWith (hne : ls ≠ []) (hls : ∀ l ∈ ls, '\n' ∉ l) :
    (joinWith ['\r', '\n'] ls).unifyNewlines.lines = ls := by
  induction ls with
  | nil => exact absurd rfl hne
  | cons l ls ih =>
      have hl := hls l List.mem_cons_self
      cases ls with
      | nil => rw [joinWith, List.intercalate_singleton, unifyNewlines_of_not_mem hl,
          lines_of_not_mem hl]
      | cons k ls =>
          have hrest := ih (List.cons_ne_nil k ls) fun m hm => hls m (List.mem_cons_of_mem l hm)
          rw [joinWith, List.intercalate_cons_cons, List.append_assoc,
            unifyNewlines_append_ending hl, lines_append_newline, lines_of_not_mem hl]
          exact congrArg (l :: ·) hrest

/-! ## Texts without such endings -/

theorem unifyNewlines_of_hasCrlf_eq_false (h : t.hasCrlf = false) : t.unifyNewlines = t := by
  induction t using unifyNewlines.induct with
  | case1 rest => cases h
  | case2 c rest hnot ih =>
      rw [hasCrlf] at h
      · rw [unifyNewlines.eq_2 c rest hnot, ih h]
      · exact hnot
  | case3 => rfl

theorem exists_of_hasCrlf (h : t.hasCrlf = true) : ∃ u v, t = u ++ '\r' :: '\n' :: v := by
  induction t using hasCrlf.induct with
  | case1 rest => exact ⟨[], rest, rfl⟩
  | case2 c rest hnot ih =>
      rw [hasCrlf] at h
      · obtain ⟨u, v, rfl⟩ := ih h
        exact ⟨c :: u, v, rfl⟩
      · exact hnot
  | case3 => cases h

theorem hasCrlf_of_not_mem (h : '\n' ∉ t) : t.hasCrlf = false := by
  refine Bool.eq_false_of_not_eq_true ?_
  intro hcrlf
  obtain ⟨u, v, rfl⟩ := exists_of_hasCrlf hcrlf
  simp at h

theorem hasCrlf_slice (h : t.hasCrlf = false) (i j : Int) : (t.slice i j).hasCrlf = false := by
  refine Bool.eq_false_of_not_eq_true ?_
  intro hcrlf
  obtain ⟨u, v, hslice⟩ := exists_of_hasCrlf hcrlf
  obtain ⟨x, y, hcut⟩ := t.slice_infix i j
  rw [hslice] at hcut
  have hwhole : t = (x ++ u) ++ '\r' :: '\n' :: (v ++ y) := by
    rw [← hcut]
    simp
  rw [hwhole, hasCrlf_append] at h
  cases h

theorem hasCrlf_append_newline (hl : '\n' ∉ l) (t : Text) :
    (l ++ '\n' :: t).hasCrlf = (decide (l.getLast? = some '\r') || t.hasCrlf) := by
  induction l with
  | nil => rfl
  | cons c l ih =>
      have hrest := ih fun hmem => hl (List.mem_cons_of_mem c hmem)
      cases l with
      | nil =>
          by_cases hc : c = '\r'
          · subst hc
            rfl
          · rw [List.cons_append, hasCrlf, hrest]
            · simp [hc]
            · exact fun _ hcr _ => hc hcr
      | cons d l =>
          rw [List.cons_append, hasCrlf, hrest, List.getLast?_cons_cons]
          intro rest _ hd
          obtain rfl : d = '\n' := (List.cons.inj hd).1
          simp at hl

/-- Moving lines to the left or to the right brings no ending of two characters about. -/
theorem hasCrlf_unlines_congr (hls : ∀ l ∈ ls, '\n' ∉ l) (hks : ∀ l ∈ ks, '\n' ∉ l)
    (h : ls.map flushLeft = ks.map flushLeft) : (unlines ls).hasCrlf = (unlines ks).hasCrlf := by
  induction ls generalizing ks with
  | nil =>
      obtain rfl := List.map_eq_nil_iff.mp h.symm
      rfl
  | cons l ls ih =>
      obtain ⟨k, ks, rfl⟩ : ∃ k ks', ks = k :: ks' := by
        cases ks with
        | nil => cases h
        | cons k ks => exact ⟨k, ks, rfl⟩
      obtain ⟨hfirst, hrest⟩ := List.cons.inj h
      have hl := hls l List.mem_cons_self
      have hk := hks k List.mem_cons_self
      have hih := ih (fun m hm => hls m (List.mem_cons_of_mem l hm))
        (fun m hm => hks m (List.mem_cons_of_mem k hm)) hrest
      have hlast : l.getLast? = some '\r' ↔ k.getLast? = some '\r' := by
        rw [← getLast?_flushLeft (by decide) l, hfirst, getLast?_flushLeft (by decide)]
      cases ls with
      | nil =>
          obtain rfl := List.map_eq_nil_iff.mp hrest.symm
          simp [unlines, joinWith, hasCrlf_of_not_mem hl, hasCrlf_of_not_mem hk]
      | cons m ls =>
          cases ks with
          | nil => cases hrest
          | cons m' ks =>
              rw [unlines_cons_cons, unlines_cons_cons, hasCrlf_append_newline hl,
                hasCrlf_append_newline hk, hih, decide_eq_decide.mpr hlast]

end GuardClause.Text
