import GuardClause.Decimal
import GuardClause.Table
import GuardClause.Text.Unicode

/-!
# Dynamic values

Request bodies, configuration documents and the extra fields of log records hold values of any
shape: `Value`. `Value.display` is the text of a value inside a message.
-/

namespace GuardClause

/-- A value of any shape. -/
inductive Value where
  | null
  | bool (b : Bool)
  | int (i : Int)
  | real (d : Decimal)
  | text (s : String)
  | list (items : List Value)
  | record (fields : List (String × Value))

namespace Value

/-- A truth value in a message. -/
def displayBool (b : Bool) : String := if b then "True" else "False"

/-- The digits of a natural number, at least `width` of them. -/
def paddedDigits (width n : Nat) : String :=
  let ds := Nat.toDigits 10 n
  String.ofList (List.replicate (width - ds.length) '0' ++ ds)

/-- A decimal number in a message: positional between `0.0001` and `10 ^ 16`, otherwise with an
exponent of at least two digits. -/
def displayReal (d : Decimal) : String :=
  let d := d.trim
  let ds := Nat.toDigits 10 d.digits
  let top : Int := d.exponent + ds.length - 1
  let sign := if d.negative then "-" else ""
  if d.digits = 0 then sign ++ "0.0"
  else if -4 ≤ top ∧ top < 16 then
    let scale := (-d.exponent).toNat
    if 0 ≤ d.exponent then
      sign ++ String.ofList (ds ++ List.replicate d.exponent.toNat '0') ++ ".0"
    else
      sign ++ toString (d.digits / tenTo scale) ++ "." ++
        paddedDigits scale (d.digits % tenTo scale)
  else
    let mantissa := match ds with
      | [] => ""
      | [c] => String.ofList [c]
      | c :: rest => String.ofList (c :: '.' :: rest)
    sign ++ mantissa ++ "e" ++ (if 0 ≤ top then "+" else "-") ++ paddedDigits 2 top.natAbs

/-- The name of a value's type in a message. -/
def typeName : Value → String
  | null => "NoneType"
  | bool _ => "bool"
  | int _ => "int"
  | real _ => "float"
  | text _ => "str"
  | list _ => "list"
  | record _ => "dict"

mutual

/-- A value as it stands inside a list in a message; texts are quoted. -/
def display : Value → String
  | null => "None"
  | bool b => displayBool b
  | int i => toString i
  | real d => displayReal d
  | text s => Text.quoted s
  | list items => "[" ++ String.intercalate ", " (displayItems items) ++ "]"
  | record fields => "\x7b" ++ String.intercalate ", " (displayFields fields) ++ "\x7d"

def displayItems : List Value → List String
  | [] => []
  | v :: rest => display v :: displayItems rest

def displayFields : List (String × Value) → List String
  | [] => []
  | (k, v) :: rest => (Text.quoted k ++ ": " ++ display v) :: displayFields rest

end

/-- A value on its own in a message: a text stands without quotes. -/
def displayPlain : Value → String
  | text s => s
  | v => display v

mutual

/-- How deep values are nested in a value. -/
def depth : Value → Nat
  | list items => depthItems items + 1
  | record fields => depthFields fields + 1
  | _ => 0

def depthItems : List Value → Nat
  | [] => 0
  | v :: rest => max (depth v) (depthItems rest)

def depthFields : List (String × Value) → Nat
  | [] => 0
  | (_, v) :: rest => max (depth v) (depthFields rest)

end

def texts (names : List String) : Value := .list (names.map .text)

end Value

end GuardClause
