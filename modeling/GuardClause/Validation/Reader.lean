import GuardClause.Text.Unicode
import GuardClause.Validation.Complaint
import GuardClause.Value

/-!
# Checked reading of values

A reader takes a dynamic value to a typed one or to the complaints about it. Integers are read
leniently: from integers, truth values, numbers without a fractional part, and texts that spell
an integer. A record reader collects the complaints of all its fields, in the order in which it
names them.
-/

namespace GuardClause

/-- A typed value, or the complaints about the input in order. -/
abbrev Checked (α : Type) := Except (List Complaint) α

namespace Reader

/-- The value of decimal digits, `_` allowed singly between two of them. -/
def digitsValue? : (acc : Nat) → (afterDigit : Bool) → List Char → Option Nat
  | acc, true, [] => some acc
  | _, false, [] => none
  | acc, afterDigit, c :: rest =>
      if '0' ≤ c ∧ c ≤ '9' then digitsValue? (acc * 10 + (c.toNat - '0'.toNat)) true rest
      else if c = '_' ∧ afterDigit then digitsValue? acc false rest
      else none

/-- A numeral without the point and the zeros after it, if it ends in some; nothing if the point
is followed by anything else. -/
def dropZeroFraction? (cs : List Char) : Option (List Char) :=
  match cs.dropWhile (· ≠ '.') with
  | [] => some cs
  | _ :: zeros =>
      if !zeros.isEmpty && zeros.all (· = '0') then some (cs.takeWhile (· ≠ '.')) else none

/-- The integer that a text spells: white space at both ends is ignored, then come an optional
sign, digits, and possibly a point with zeros after it. -/
def spelledInt? (s : String) : Option Int := do
  let cs := Text.trimSpace s.toList
  let (negative, cs) := match cs with
    | '-' :: rest => (true, rest)
    | '+' :: rest => (false, rest)
    | _ => (false, cs)
  let cs ← dropZeroFraction? cs
  let n ← digitsValue? 0 false cs
  pure (if negative then -(n : Int) else n)

/-- A complaint about the value itself. -/
def complain {α : Type} (d : Defect) : Checked α := .error [⟨[], d⟩]

def text : Value → Checked String
  | .text s => pure s
  | _ => complain .notText

/-- Reads an integer leniently. -/
def integer : Value → Checked Int
  | .int i => pure i
  | .bool b => pure (if b then 1 else 0)
  | .real d =>
      match d.toInt? with
      | some i => pure i
      | none => complain .fractional
  | .text s =>
      match spelledInt? s with
      | some i => pure i
      | none => complain .unreadableInteger
  | _ => complain .notInteger

/-- Reads an integer that is not negative. -/
def natural (v : Value) : Checked Nat := do
  let i ← integer v
  if 0 ≤ i then pure i.toNat else complain .negative

/-- Reads null or what the reader reads. -/
def optional {α : Type} (read : Value → Checked α) : Value → Checked (Option α)
  | .null => pure none
  | v => some <$> read v

/-- Reads one of the named choices. -/
def choice {α : Type} (choices : List (String × α)) (v : Value) : Checked α :=
  let found := match v with
    | .text s => choices.lookup s
    | _ => none
  match found with
  | some a => pure a
  | none => complain (.noChoice (choices.map (·.1)))

/-- What a reader says, seen from one step further out. -/
def under {α : Type} (step : PathStep) (r : Checked α) : Checked α :=
  r.mapError (·.map (Complaint.under step))

/-- Reads the field `name` of a record, which must be there. -/
def required {α : Type} (read : Value → Checked α) (name : String) (r : Table Value) :
    Checked α :=
  under (.field name) <| match r.get? name with
    | some v => read v
    | none => complain .missing

/-- Reads the field `name` of a record if it is there. -/
def withDefault {α : Type} (value : α) (read : Value → Checked α) (name : String)
    (r : Table Value) : Checked α :=
  match r.get? name with
  | some v => under (.field name) (read v)
  | none => pure value

/-- Both results, or all complaints of both. -/
def both {α β : Type} : Checked α → Checked β → Checked (α × β)
  | .ok a, .ok b => .ok (a, b)
  | .error e, .ok _ => .error e
  | .ok _, .error e => .error e
  | .error e, .error e' => .error (e ++ e')

/-- All results, or all complaints. -/
def all {α : Type} : List (Checked α) → Checked (List α)
  | [] => .ok []
  | r :: rest => (both r (all rest)).map fun p => p.1 :: p.2

def items {α : Type} (read : Value → Checked α) : Value → Checked (List α)
  | .list vs => all (vs.mapIdx fun i v => under (.item i) (read v))
  | _ => complain .notList

def fields {α : Type} (read : Value → Checked α) : Value → Checked (Table α)
  | .record fs => all (fs.map fun f => (under (.field f.1) (read f.2)).map fun a => (f.1, a))
  | _ => complain .notTable

/-- Reads a record as a whole. -/
def record {α : Type} (read : Table Value → Checked α) : Value → Checked α
  | .record fs => read fs
  | _ => complain .notRecord

/-- Reads a record of a named type as a whole. -/
def typed {α : Type} (type : String) (read : Table Value → Checked α) : Value → Checked α
  | .record fs => read fs
  | _ => complain (.notOfType type)

end Reader

end GuardClause
