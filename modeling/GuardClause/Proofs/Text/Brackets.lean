import GuardClause.Proofs.Text.Indents

/-!
# Brackets

A text is balanced when its round, square and curly brackets match and nest, whatever else stands
between them. Whether it is can be told with a stack of the closing brackets that are due
(`balanced_iff`), and a balanced text leaves the stack as it found it. So a balanced text may take
the place of another one anywhere, in a text that is balanced or not (`balanced_replace`).
-/

namespace GuardClause.Text

/-- The bracket that closes an opening one. -/
def closerOf? : Char → Option Char
  | '(' => some ')'
  | '[' => some ']'
  | '\x7b' => some '\x7d'
  | _ => none

def isCloser (c : Char) : Bool := c = ')' || c = ']' || c = '\x7d'

/-- A bracket, opening or closing. -/
def isBracket (c : Char) : Bool := (closerOf? c).isSome || isCloser c

/-- The brackets of a text match and nest. Other characters may stand anywhere. -/
inductive Balanced : Text → Prop where
  | nil : Balanced []
  | other {c : Char} {t : Text} (hc : isBracket c = false) (ht : Balanced t) : Balanced (c :: t)
  | nest {o c : Char} {t u : Text} (hc : closerOf? o = some c) (ht : Balanced t)
      (hu : Balanced u) : Balanced (o :: (t ++ c :: u))

variable {t u v b b' due : Text} {c o : Char}

theorem closes_of_closerOf? (h : closerOf? o = some c) :
    closerOf? c = none ∧ isCloser c = true := by
  unfold closerOf? at h
  split at h
  · obtain rfl := Option.some.inj h
    decide
  · obtain rfl := Option.some.inj h
    decide
  · obtain rfl := Option.some.inj h
    decide
  · cases h

theorem exists_closerOf? (h : isCloser c = true) : ∃ o, closerOf? o = some c := by
  simp only [isCloser, Bool.or_eq_true, decide_eq_true_eq] at h
  rcases h with (rfl | rfl) | rfl
  · exact ⟨'(', rfl⟩
  · exact ⟨'[', rfl⟩
  · exact ⟨'\x7b', rfl⟩

/-! ## Closing brackets that are due -/

/-- The closing brackets that are due after a character, the next one first, when those of a stack
were due before it. A closing bracket that is not the next one due is a mismatch. -/
def dueAfter? (due : Text) (c : Char) : Option Text :=
  match closerOf? c with
  | some close => some (close :: due)
  | none =>
      if isCloser c then
        if due.head? = some c then some due.tail else none
      else some due

/-- The closing brackets that are due after a text. -/
def due? (due t : Text) : Option Text := t.foldlM dueAfter? due

theorem due?_open (h : closerOf? o = some c) (due t : Text) :
    due? due (o :: t) = due? (c :: due) t := by
  simp [due?, dueAfter?, h]

theorem due?_close (h : closerOf? o = some c) (due t : Text) :
    due? (c :: due) (c :: t) = due? due t := by
  simp [due?, dueAfter?, closes_of_closerOf? h]

theorem due?_other (h : isBracket c = false) (due t : Text) : due? due (c :: t) = due? due t := by
  simp only [isBracket, Bool.or_eq_false_iff, Option.isSome_eq_false_iff,
    Option.isNone_iff_eq_none] at h
  simp [due?, dueAfter?, h]

theorem due?_append (due t u : Text) : due? due (t ++ u) = (due? due t).bind (due? · u) :=
  List.foldlM_append

/-- A balanced text leaves due what was due. -/
theorem Balanced.due?_append (h : Balanced b) (due u : Text) : due? due (b ++ u) = due? due u := by
  induction h generalizing due u with
  | nil => rfl
  | other hc _ ih => rw [List.cons_append, due?_other hc, ih]
  | nest hc _ _ iht ihu =>
      rw [List.cons_append, List.append_assoc, due?_open hc, iht, List.cons_append, due?_close hc,
        ihu]

/-- A text closes the brackets that are due, in order, with balanced texts around them. -/
def Closes : Text → Text → Prop
  | [], t => Balanced t
  | c :: due, t => ∃ b u, Balanced b ∧ t = b ++ c :: u ∧ Closes due u

theorem Closes.other (h : Closes due t) (hc : isBracket c = false) : Closes due (c :: t) := by
  cases due with
  | nil => exact .other hc h
  | cons d due =>
      obtain ⟨b, u, hb, rfl, hu⟩ := h
      exact ⟨c :: b, u, .other hc hb, rfl, hu⟩

theorem Closes.nest (h : Closes due u) (hc : closerOf? o = some c) (hb : Balanced b) :
    Closes due (o :: (b ++ c :: u)) := by
  cases due with
  | nil => exact .nest hc hb h
  | cons d due =>
      obtain ⟨b', v, hb', rfl, hv⟩ := h
      exact ⟨o :: (b ++ c :: b'), v, .nest hc hb hb', by simp, hv⟩

theorem closes_of_due? (h : due? due t = some []) : Closes due t := by
  induction t generalizing due with
  | nil =>
      obtain rfl := Option.some.inj h
      exact .nil
  | cons c t ih =>
      cases hopen : closerOf? c with
      | some d =>
          rw [due?_open hopen] at h
          obtain ⟨b, u, hb, rfl, hu⟩ := ih h
          exact hu.nest hopen hb
      | none =>
          cases hclose : isCloser c with
          | true =>
              obtain ⟨o, ho⟩ := exists_closerOf? hclose
              cases due with
              | nil => simp [due?, dueAfter?, hopen, hclose] at h
              | cons d due =>
                  by_cases hd : d = c
                  · subst hd
                    rw [due?_close ho] at h
                    exact ⟨[], t, .nil, rfl, ih h⟩
                  · simp [due?, dueAfter?, hopen, hclose, hd] at h
          | false =>
              have hother : isBracket c = false := by simp [isBracket, hopen, hclose]
              rw [due?_other hother] at h
              exact (ih h).other hother

/-- A text is balanced when nothing is due after it. -/
theorem balanced_iff : Balanced t ↔ due? [] t = some [] := by
  constructor
  · intro h
    have hdue := h.due?_append [] []
    rwa [List.append_nil] at hdue
  · exact closes_of_due?

instance (t : Text) : Decidable t.Balanced := decidable_of_iff _ balanced_iff.symm

/-! ## Putting balanced texts together -/

theorem Balanced.append (ht : Balanced t) (hu : Balanced u) : Balanced (t ++ u) := by
  rw [balanced_iff, ht.due?_append]
  exact balanced_iff.mp hu

theorem Balanced.enclose (h : Balanced t) (hc : closerOf? o = some c) :
    Balanced (o :: (t ++ [c])) :=
  .nest hc h .nil

/-- Where a balanced text stands, another one may stand as well. -/
theorem balanced_replace (hb : Balanced b) (hb' : Balanced b') (u v : Text) :
    Balanced (u ++ b ++ v) ↔ Balanced (u ++ b' ++ v) := by
  have hcut : ∀ w : Text, Balanced w → due? [] (u ++ w ++ v) = (due? [] u).bind (due? · v) := by
    intro w hw
    rw [List.append_assoc, due?_append]
    simp only [hw.due?_append]
  rw [balanced_iff, balanced_iff, hcut b hb, hcut b' hb']

/-! ## Only brackets count -/

/-- The brackets of a text, in order. -/
def brackets (t : Text) : Text := t.filter isBracket

theorem due?_brackets (due t : Text) : due? due t.brackets = due? due t := by
  induction t generalizing due with
  | nil => rfl
  | cons c t ih =>
      cases hc : isBracket c with
      | true =>
          rw [brackets, List.filter_cons_of_pos hc]
          simp only [due?, List.foldlM_cons]
          cases dueAfter? due c with
          | none => rfl
          | some rest => exact ih rest
      | false =>
          rw [brackets, List.filter_cons_of_neg (by simp [hc]), due?_other hc]
          exact ih due

theorem balanced_congr (h : t.brackets = u.brackets) : Balanced t ↔ Balanced u := by
  rw [balanced_iff, balanced_iff, ← due?_brackets [] t, h, due?_brackets]

@[simp] theorem brackets_append (t u : Text) : (t ++ u).brackets = t.brackets ++ u.brackets :=
  List.filter_append ..

theorem isBracket_of_isBlank (c : Char) (h : isBlank c = true) : isBracket c = false := by
  simp only [isBlank, Bool.or_eq_true, decide_eq_true_eq] at h
  rcases h with rfl | rfl <;> rfl

theorem Blank.balanced (h : Blank t) : Balanced t :=
  (balanced_congr (u := []) (filter_blank isBracket_of_isBlank h)).mpr .nil

end GuardClause.Text
