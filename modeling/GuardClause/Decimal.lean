/-!
# Decimal and binary numbers

A decimal number is a sign, a natural number of digits and a power of ten. The sign is kept apart
so that zero may carry one.

Measured times are binary floating-point numbers: a mantissa of at most 53 bits times a power of
two that is at least `2 ^ -1074`. `Binary.nearest` finds the binary number nearest to a fraction
and `Binary.shortest` the shortest decimal number that lies nearer to a given binary number than to
any other. All arithmetic is exact.
-/

namespace GuardClause

def twoTo (e : Nat) : Nat := Nat.pow 2 e

def tenTo (e : Nat) : Nat := Nat.pow 10 e

/-- The number `digits · 10 ^ exponent`, negated if `negative`. -/
structure Decimal where
  negative : Bool
  digits : Nat
  exponent : Int
deriving DecidableEq, Repr

namespace Decimal

/-- The magnitude as a fraction: numerator and denominator. -/
def fraction (d : Decimal) : Nat × Nat :=
  if 0 ≤ d.exponent then (d.digits * tenTo d.exponent.toNat, 1)
  else (d.digits, tenTo (-d.exponent).toNat)

def toInt? (d : Decimal) : Option Int :=
  let (num, den) := d.fraction
  if num % den = 0 then
    some (if d.negative then -((num / den : Nat) : Int) else (num / den : Nat))
  else none

/-- The same number without zeros at the end of its digits; `fuel` bounds their count. -/
def trimFuel : Nat → Nat → Int → Nat × Int
  | 0, n, e => (n, e)
  | fuel + 1, n, e => if n ≠ 0 ∧ n % 10 = 0 then trimFuel fuel (n / 10) (e + 1) else (n, e)

def trim (d : Decimal) : Decimal :=
  let (n, e) := trimFuel (Nat.log2 d.digits + 1) d.digits d.exponent
  if n = 0 then ⟨d.negative, 0, 0⟩ else ⟨d.negative, n, e⟩

/-! ## Binary numbers of 53 bits -/

/-- The nearest integer to a fraction, an even one where two are equally near. -/
def roundDiv (num den : Nat) : Nat :=
  let q := num / den
  let r := num % den
  if 2 * r < den then q
  else if den < 2 * r then q + 1
  else if q % 2 = 0 then q else q + 1

/-- The magnitude `mantissa · 2 ^ exponent`. -/
structure Binary where
  mantissa : Nat
  exponent : Int
deriving DecidableEq, Repr

namespace Binary

def fraction (b : Binary) : Nat × Nat :=
  if 0 ≤ b.exponent then (b.mantissa * twoTo b.exponent.toNat, 1)
  else (b.mantissa, twoTo (-b.exponent).toNat)

/-- Whether `2 ^ e` is at most a fraction. -/
def powerLe (e : Int) (num den : Nat) : Bool :=
  if 0 ≤ e then twoTo e.toNat * den ≤ num else den ≤ num * twoTo (-e).toNat

/-- The greatest `e` with `2 ^ e` at most the positive fraction. -/
def floorLog (num den : Nat) : Int :=
  let e : Int := (Nat.log2 num : Int) - Nat.log2 den
  if powerLe e num den then e else e - 1

/-- The binary number nearest to a fraction. -/
def nearest (num den : Nat) : Binary :=
  if num = 0 then ⟨0, -1074⟩
  else
    let q := max (floorLog num den - 52) (-1074)
    let m := if 0 ≤ q then roundDiv num (den * twoTo q.toNat)
      else roundDiv (num * twoTo (-q).toNat) den
    if m = twoTo 53 then ⟨twoTo 52, q + 1⟩ else ⟨m, q⟩

/-- Compares `d · 10 ^ k` with `x` quarters of the last place `2 ^ exponent` of a binary number:
the two sides of the comparison as natural numbers. -/
def scaled (exponent : Int) (d : Nat) (k : Int) (x : Nat) : Nat × Nat :=
  let u := exponent - 2
  (d * tenTo k.toNat * twoTo (-u).toNat, x * tenTo (-k).toNat * twoTo u.toNat)

/-- The least and the greatest number that round to `b`, in quarters of its last place. -/
def neighbourhood (b : Binary) : Nat × Nat :=
  let low := if b.mantissa = twoTo 52 ∧ -1074 < b.exponent then 4 * b.mantissa - 1
    else 4 * b.mantissa - 2
  (low, 4 * b.mantissa + 2)

/-- Whether `d · 10 ^ k` rounds to `b`. The two ends of the neighbourhood do if the mantissa is
even. -/
def readsBack (b : Binary) (d : Nat) (k : Int) : Bool :=
  let (low, high) := b.neighbourhood
  let (dl, l) := scaled b.exponent d k low
  let (dh, h) := scaled b.exponent d k high
  if b.mantissa % 2 = 0 then l ≤ dl && dh ≤ h else l < dl && dh < h

/-- The least `n` up to `fuel` with `num · 10 ^ n` at least `den`. -/
def leadingZeros (fuel num den : Nat) : Nat :=
  match fuel with
  | 0 => 0
  | fuel + 1 => if den ≤ num then 0 else leadingZeros fuel (num * 10) den + 1

/-- The greatest `e` with `10 ^ e` at most the positive fraction. -/
def floorLogTen (num den : Nat) : Int :=
  if den ≤ num then ((Nat.toDigits 10 (num / den)).length : Int) - 1
  else -(leadingZeros 400 num den : Int)

/-- Of the two numbers of `n` digits next to `b` the one that reads back, the nearer one if both
do. -/
def candidate? (b : Binary) (top : Int) (n : Nat) : Option (Nat × Int) :=
  let k : Int := top - n + 1
  let (num, den) := b.fraction
  let (num, den) := if 0 ≤ k then (num, den * tenTo k.toNat) else (num * tenTo (-k).toNat, den)
  let d := num / den
  let near := roundDiv num den
  let far := if near = d then d + 1 else d
  if b.readsBack near k then some (near, k)
  else if b.readsBack far k then some (far, k)
  else none

/-- The decimal number with the fewest digits that rounds to `b`. -/
def shortest (negative : Bool) (b : Binary) : Decimal :=
  if b.mantissa = 0 then ⟨negative, 0, 0⟩
  else
    let (num, den) := b.fraction
    let top := floorLogTen num den
    match (List.range 17).findSome? fun n => candidate? b top (n + 1) with
    | some (d, k) => trim ⟨negative, d, k⟩
    | none => trim ⟨negative, num, 0⟩

end Binary

/-- The binary magnitude that a decimal numeral stands for. -/
def toBinary (d : Decimal) : Binary :=
  let (num, den) := d.fraction
  Binary.nearest num den

/-- The shortest numeral of the binary number that a numeral stands for. -/
def normal (d : Decimal) : Decimal := d.toBinary.shortest d.negative

/-- The binary number that the numeral stands for, rounded to `places` places after the point
(of two equally near numbers to the one with an even last digit) and written in its shortest
form. -/
def round (places : Nat) (d : Decimal) : Decimal :=
  let (num, den) := d.toBinary.fraction
  let units := roundDiv (num * tenTo places) den
  (Binary.nearest units (tenTo places)).shortest d.negative

end Decimal

end GuardClause
