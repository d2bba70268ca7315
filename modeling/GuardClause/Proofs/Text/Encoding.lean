import GuardClause.Text.Utf8
import Mathlib

/-!
# Bytes of a text and their characters

`Text.encode` is the text in UTF-8. A byte is held by the character whose encoding contains it
(`Text.Holds`), and the byte behind the last one by the end of the text. Every byte of a text is
held by exactly one place, later bytes by later places, and the byte table lists these places
(`getElem?_byteTable`). When there are as many bytes as characters, every character has one byte
and holds the byte of its own number, which is why no table is needed then.
-/

namespace GuardClause.Text

/-- The bytes of a text in UTF-8. -/
def encode (t : Text) : List UInt8 := t.flatMap String.utf8EncodeChar

/-- The number of bytes that come before character `o`. -/
def bytesBefore (t : Text) (o : Nat) : Nat := (encode (t.take o)).length

/-- Character `o` is the one whose encoding contains byte `b`. The end of the text holds the byte
behind the last one. -/
def Holds (t : Text) (o b : Nat) : Prop :=
  (o < t.length ∧ t.bytesBefore o ≤ b ∧ b < t.bytesBefore (o + 1)) ∨
    (o = t.length ∧ b = t.encode.length)

/-- Byte `b` is where a character or the end of the text begins. -/
def Boundary (t : Text) (b : Nat) : Prop := ∃ o ≤ t.length, t.bytesBefore o = b

theorem encode_cons (c : Char) (t : Text) :
    encode (c :: t) = String.utf8EncodeChar c ++ encode t := rfl

theorem encode_append (t u : Text) : encode (t ++ u) = encode t ++ encode u :=
  List.flatMap_append

theorem length_encode (t : Text) : t.encode.length = t.byteLength := by
  induction t with
  | nil => rfl
  | cons c t ih =>
      rw [encode_cons, List.length_append, String.length_utf8EncodeChar, ih, byteLength]

@[simp] theorem bytesBefore_zero (t : Text) : t.bytesBefore 0 = 0 := rfl

theorem bytesBefore_succ (c : Char) (t : Text) (o : Nat) :
    bytesBefore (c :: t) (o + 1) = c.utf8Size + bytesBefore t o := by
  rw [bytesBefore, List.take_succ_cons, encode_cons, List.length_append,
    String.length_utf8EncodeChar, bytesBefore]

theorem encode_eq_append (t : Text) (o : Nat) :
    t.encode = encode (t.take o) ++ encode (t.drop o) := by
  rw [← encode_append, List.take_append_drop]

/-- The bytes before a place are the bytes of the text before it. -/
theorem encode_take (t : Text) (o : Nat) : encode (t.take o) = t.encode.take (t.bytesBefore o) := by
  rw [encode_eq_append t o, bytesBefore, List.take_left]

theorem encode_drop (t : Text) (o : Nat) : encode (t.drop o) = t.encode.drop (t.bytesBefore o) := by
  rw [encode_eq_append t o, bytesBefore, List.drop_left]

/-! ## Every byte has one place -/

theorem holds_cons_zero (c : Char) (t : Text) (b : Nat) :
    Holds (c :: t) 0 b ↔ b < c.utf8Size := by
  have hc := c.utf8Size_pos
  simp only [Holds, bytesBefore_succ, bytesBefore_zero, List.length_cons]
  constructor
  · rintro (⟨-, -, h⟩ | ⟨h, -⟩)
    · omega
    · omega
  · intro h
    exact Or.inl ⟨by omega, by omega, by omega⟩

theorem holds_cons_succ (c : Char) (t : Text) (o b : Nat) :
    Holds (c :: t) (o + 1) b ↔ c.utf8Size ≤ b ∧ Holds t o (b - c.utf8Size) := by
  simp only [Holds, bytesBefore_succ, List.length_cons, encode_cons, List.length_append,
    String.length_utf8EncodeChar]
  constructor
  · rintro (⟨ho, hl, hr⟩ | ⟨ho, hb⟩)
    · exact ⟨by omega, Or.inl ⟨by omega, by omega, by omega⟩⟩
    · exact ⟨by omega, Or.inr ⟨by omega, by omega⟩⟩
  · rintro ⟨hc, ⟨ho, hl, hr⟩ | ⟨ho, hb⟩⟩
    · exact Or.inl ⟨by omega, by omega, by omega⟩
    · exact Or.inr ⟨by omega, by omega⟩

theorem Holds.le_length {t : Text} {o b : Nat} (h : t.Holds o b) : o ≤ t.length := by
  rcases h with ⟨ho, -, -⟩ | ⟨ho, -⟩ <;> omega

theorem Holds.le_length_encode {t : Text} {o b : Nat} (h : t.Holds o b) :
    b ≤ t.encode.length := by
  rcases h with ⟨-, -, hb⟩ | ⟨-, rfl⟩
  · have : t.bytesBefore (o + 1) ≤ t.encode.length := by
      rw [bytesBefore, encode_take]
      exact List.length_take_le' _ _
    omega
  · exact Nat.le_refl _

/-- Later bytes are held by later places. -/
theorem Holds.mono {t : Text} {o p b c : Nat} (ho : t.Holds o b) (hp : t.Holds p c)
    (h : b ≤ c) : o ≤ p := by
  induction t generalizing o p b c with
  | nil =>
      have := ho.le_length
      exact Nat.le_trans this (Nat.zero_le p)
  | cons d t ih =>
      cases o with
      | zero => exact Nat.zero_le p
      | succ o =>
          obtain ⟨hd, ho⟩ := (holds_cons_succ d t o b).mp ho
          cases p with
          | zero =>
              have := (holds_cons_zero d t c).mp hp
              omega
          | succ p =>
              obtain ⟨-, hp⟩ := (holds_cons_succ d t p c).mp hp
              exact Nat.succ_le_succ (ih ho hp (by omega))

theorem Holds.unique {t : Text} {o p b : Nat} (ho : t.Holds o b) (hp : t.Holds p b) : o = p :=
  Nat.le_antisymm (ho.mono hp (Nat.le_refl b)) (hp.mono ho (Nat.le_refl b))

/-- The byte table lists for every byte the place that holds it. -/
theorem exists_getElem?_byteTableFrom (t : Text) (i b : Nat) (h : b ≤ t.encode.length) :
    ∃ o, (byteTableFrom i t)[b]? = some (i + o) ∧ t.Holds o b := by
  induction t generalizing i b with
  | nil =>
      obtain rfl : b = 0 := Nat.le_zero.mp h
      exact ⟨0, rfl, Or.inr ⟨rfl, rfl⟩⟩
  | cons c t ih =>
      rw [encode_cons, List.length_append, String.length_utf8EncodeChar] at h
      rw [byteTableFrom]
      -- The first entries belong to `c`, the others to the rest of the text.
      by_cases hb : b < c.utf8Size
      · refine ⟨0, ?_, (holds_cons_zero c t b).mpr hb⟩
        rw [List.getElem?_append_left (by rwa [List.length_replicate]),
          List.getElem?_replicate, if_pos hb, Nat.add_zero]
      · obtain ⟨o, ht, ho⟩ := ih (i + 1) (b - c.utf8Size) (by omega)
        refine ⟨o + 1, ?_, (holds_cons_succ c t o b).mpr ⟨by omega, ho⟩⟩
        rw [List.getElem?_append_right (by rw [List.length_replicate]; omega),
          List.length_replicate, ht]
        congr 1
        omega

theorem getElem?_byteTable {t : Text} {o b : Nat} (h : t.Holds o b) :
    t.byteTable[b]? = some o := by
  obtain ⟨p, hp, hold⟩ := exists_getElem?_byteTableFrom t 0 b h.le_length_encode
  rw [byteTable, hp, Nat.zero_add, hold.unique h]

theorem exists_holds {t : Text} {b : Nat} (h : b ≤ t.encode.length) : ∃ o, t.Holds o b := by
  obtain ⟨o, -, ho⟩ := exists_getElem?_byteTableFrom t 0 b h
  exact ⟨o, ho⟩

/-! ## One byte for every character -/

theorem length_le_byteLength (t : Text) : t.length ≤ t.byteLength := by
  induction t with
  | nil => exact Nat.le_refl 0
  | cons c t ih =>
      have := c.utf8Size_pos
      rw [List.length_cons, byteLength]
      omega

/-- When there are as many bytes as characters, every character holds the byte of its number. -/
theorem holds_of_byteLength_eq {t : Text} (ht : t.byteLength = t.length) {b : Nat}
    (h : b ≤ t.length) : t.Holds b b := by
  induction t generalizing b with
  | nil =>
      obtain rfl : b = 0 := Nat.le_zero.mp h
      exact Or.inr ⟨rfl, rfl⟩
  | cons c t ih =>
      have hc := c.utf8Size_pos
      have hle := length_le_byteLength t
      rw [List.length_cons, byteLength] at ht
      have hone : c.utf8Size = 1 := by omega
      cases b with
      | zero => exact (holds_cons_zero c t 0).mpr hc
      | succ b =>
          refine (holds_cons_succ c t b (b + 1)).mpr ⟨by omega, ?_⟩
          rw [hone, Nat.add_sub_cancel]
          exact ih (by omega) (Nat.le_of_succ_le_succ h)

/-! ## Stretches of a text -/

/-- The place that holds a boundary begins there. -/
theorem Holds.bytesBefore_eq {t : Text} {o b : Nat} (h : t.Holds o b) (hb : t.Boundary b) :
    t.bytesBefore o = b := by
  obtain ⟨p, hp, rfl⟩ := hb
  -- Place `p` holds the byte where it begins, and no other place does.
  have hold : t.Holds p (t.bytesBefore p) := by
    rcases Nat.lt_or_eq_of_le hp with hlt | rfl
    · refine Or.inl ⟨hlt, Nat.le_refl _, ?_⟩
      rw [bytesBefore, bytesBefore, List.take_succ_eq_append_getElem hlt, encode_append,
        List.length_append, encode_cons, List.length_append, String.length_utf8EncodeChar]
      have := t[p].utf8Size_pos
      omega
    · exact Or.inr ⟨rfl, by rw [bytesBefore, List.take_length]⟩
  rw [h.unique hold]

/-- The bytes of a stretch between two boundaries are the stretch of bytes between them. -/
theorem encode_slice {t : Text} {o p b c : Nat} (ho : t.Holds o b) (hp : t.Holds p c)
    (hb : t.Boundary b) (hc : t.Boundary c) (h : b ≤ c) :
    encode (t.slice o p) = (t.encode.take c).drop b := by
  have hop : o ≤ p := ho.mono hp h
  have hbefore : bytesBefore (t.take p) o = b := by
    rw [← ho.bytesBefore_eq hb, bytesBefore, bytesBefore, List.take_take, Nat.min_eq_left hop]
  rw [slice, cutPlace_natCast ho.le_length, cutPlace_natCast hp.le_length, encode_drop, hbefore,
    encode_take, hp.bytesBefore_eq hc]

end GuardClause.Text
