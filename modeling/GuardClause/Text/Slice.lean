/-!
# Counting from either end

A position in a sequence is an integer: a non-negative one counts from the front and a negative
one from the back, so `-1` is the last place. Reading one element at a position outside the
sequence fails (`place?`); cutting a stretch between two positions never does (`Text.slice`),
because the bounds are first moved into the sequence.
-/

namespace GuardClause

/-- A text is the list of its characters. Lengths and offsets count characters, not bytes. -/
abbrev Text := List Char

/-- The place that position `i` names in a sequence of `size` elements, if there is one. -/
def place? (size : Nat) (i : Int) : Option Nat :=
  let j := if i < 0 then i + size else i
  if 0 ≤ j ∧ j < size then some j.toNat else none

/-- The place where a cut at position `i` falls in a sequence of `size` elements: positions
before the front fall at the front and positions past the back at the back. -/
def cutPlace (size : Nat) (i : Int) : Nat :=
  min (if i < 0 then i + size else i).toNat size

@[simp] theorem place?_natCast {size n : Nat} (h : n < size) : place? size n = some n := by
  unfold place?
  have h0 : ¬ ((n : Int) < 0) := by omega
  simp [h0, h]

theorem cutPlace_natCast {size n : Nat} (h : n ≤ size) : cutPlace size n = n := by
  unfold cutPlace
  have h0 : ¬ ((n : Int) < 0) := by omega
  simp [h0, Nat.min_eq_left h]

/-- The stretch of `t` between two positions, empty when they are in the wrong order. -/
def Text.slice (t : Text) (start stop : Int) : Text :=
  (t.take (cutPlace t.length stop)).drop (cutPlace t.length start)

theorem Text.slice_eq {t : Text} {start stop : Int} (hstart : 0 ≤ start ∧ start ≤ t.length)
    (hstop : 0 ≤ stop ∧ stop ≤ t.length) :
    t.slice start stop = (t.take stop.toNat).drop start.toNat := by
  obtain ⟨i, rfl⟩ := Int.eq_ofNat_of_zero_le hstart.1
  obtain ⟨j, rfl⟩ := Int.eq_ofNat_of_zero_le hstop.1
  rw [slice, cutPlace_natCast (Int.ofNat_le.mp hstart.2),
    cutPlace_natCast (Int.ofNat_le.mp hstop.2)]
  rfl

theorem Text.slice_infix (t : Text) (i j : Int) : t.slice i j <:+: t :=
  (List.drop_suffix _ _).isInfix.trans (List.take_prefix _ _).isInfix

/-- A text is put together again from a stretch and what stands before it and after it. -/
theorem Text.take_append_slice_append_drop {t : Text} {start stop : Int} (hstart : 0 ≤ start)
    (hle : start ≤ stop) (hstop : stop ≤ t.length) :
    t.take start.toNat ++ t.slice start stop ++ t.drop stop.toNat = t := by
  have htake : t.take start.toNat = (t.take stop.toNat).take start.toNat := by
    rw [List.take_take, Nat.min_eq_left (by omega)]
  rw [slice_eq (by omega) (by omega), htake, List.take_append_drop, List.take_append_drop]

end GuardClause
