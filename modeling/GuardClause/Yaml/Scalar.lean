import GuardClause.Decimal
import GuardClause.Text.Slice
import GuardClause.Value

/-!
# What plain scalars stand for

A scalar without quotes stands for null, a truth value, a number, or else for its own text. All
readers of numbers take the digits of their base with any number of `_` between them.
-/

namespace GuardClause.Yaml

/-- The number that a digit stands for in a base. -/
def digitIn? (base : Nat) (c : Char) : Option Nat :=
  let d? := if '0' ≤ c ∧ c ≤ '9' then some (c.toNat - '0'.toNat)
    else if 'a' ≤ c ∧ c ≤ 'f' then some (c.toNat - 'a'.toNat + 10)
    else if 'A' ≤ c ∧ c ≤ 'F' then some (c.toNat - 'A'.toNat + 10)
    else none
  d?.filter (· < base)

/-- The number that digits stand for in a base; `_` between them means nothing. -/
def digitsIn? (base : Nat) (cs : List Char) : Option Nat :=
  cs.foldlM (fun acc c => if c = '_' then some acc else (digitIn? base c).map (acc * base + ·)) 0

def startsWithDigit : List Char → Bool
  | c :: _ => c.isDigit
  | [] => false

/-- The number of one part of a number in base sixty. -/
def sixtieth? (cs : List Char) : Option Nat :=
  if cs.isEmpty || 2 < cs.length then none else (digitsIn? 10 cs).filter (· < 60)

/-- The natural number that a numeral without a sign spells. -/
def natural? : List Char → Option Nat
  | ['0'] => some 0
  | '0' :: 'b' :: cs => if cs.isEmpty then none else digitsIn? 2 cs
  | '0' :: 'x' :: cs => if cs.isEmpty then none else digitsIn? 16 cs
  | '0' :: cs => digitsIn? 8 cs
  | cs =>
      if !startsWithDigit cs then none
      else match cs.splitOnP (· = ':') with
        | [whole] => digitsIn? 10 whole
        | whole :: parts => do
            let n ← digitsIn? 10 whole
            let ps ← parts.mapM sixtieth?
            pure (ps.foldl (fun acc p => acc * 60 + p) n)
        | [] => none

/-- A sign, if there is one, and what follows it. -/
def takeSign : List Char → Bool × List Char
  | '-' :: cs => (true, cs)
  | '+' :: cs => (false, cs)
  | cs => (false, cs)

def integer? (cs : List Char) : Option Int :=
  let (negative, cs) := takeSign cs
  (natural? cs).map fun n => if negative then -(n : Int) else n

/-- The power of ten after a number: nothing, or `e`, a sign and digits. -/
def exponent? : List Char → Option Int
  | [] => some 0
  | e :: sign :: cs =>
      if (e = 'e' || e = 'E') && (sign = '+' || sign = '-') && !cs.isEmpty && cs.all Char.isDigit
      then (digitsIn? 10 cs).map fun n => if sign = '-' then -(n : Int) else n
      else none
  | [_] => none

/-- Whether a character may stand among the digits of a number. -/
def isNumeralChar (c : Char) : Bool := c.isDigit || c = '_'

/-- The number with a point that a numeral spells. The digits before the point may be missing if
there is no sign. -/
def decimal? (cs : List Char) : Option Decimal := do
  let signed := cs.head? = some '-' || cs.head? = some '+'
  let (negative, cs) := takeSign cs
  let whole := cs.takeWhile isNumeralChar
  let rest := cs.dropWhile isNumeralChar
  match rest with
  | '.' :: cs =>
      let places := cs.takeWhile isNumeralChar
      if if whole.isEmpty then signed || !startsWithDigit places else !startsWithDigit whole then
        none
      else
        let e ← exponent? (cs.dropWhile isNumeralChar)
        let n ← digitsIn? 10 (whole ++ places)
        pure ⟨negative, n, e - (places.filter (· ≠ '_')).length⟩
  | _ => none

def nullNames : List String := ["", "~", "null", "Null", "NULL"]

def trueNames : List String :=
  ["true", "True", "TRUE", "yes", "Yes", "YES", "on", "On", "ON"]

def falseNames : List String :=
  ["false", "False", "FALSE", "no", "No", "NO", "off", "Off", "OFF"]

/-- What a plain scalar stands for. -/
def resolve (cs : List Char) : Value :=
  let s := String.ofList cs
  if nullNames.contains s then .null
  else if trueNames.contains s then .bool true
  else if falseNames.contains s then .bool false
  else match integer? cs with
    | some i => .int i
    | none =>
        match decimal? cs with
        | some d => .real d.normal
        | none => .text s

/-- The text under which a scalar serves as the name of a field. -/
def fieldName? : Value → Option String
  | .null => some "null"
  | .bool b => some (if b then "true" else "false")
  | .int i => some (toString i)
  | .real d => some (Value.displayReal d)
  | .text s => some s
  | .list _ | .record _ => none

end GuardClause.Yaml
