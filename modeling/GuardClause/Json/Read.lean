import GuardClause.Decimal
import GuardClause.Text.Slice
import GuardClause.Value

/-!
# Reading JSON notation

`Json.read?` reads a value in JSON notation. A number with a point or an exponent stands for the
binary number nearest to it. Of fields with equal names the last one counts.
-/

namespace GuardClause.Json

def isSpace (c : Char) : Bool := c = ' ' || c = '\n' || c = '\r' || c = '\t'

/-- The text without white space at its front. -/
def skip (t : Text) : Text := t.dropWhile isSpace

def hexDigit? (c : Char) : Option Nat :=
  if '0' ≤ c ∧ c ≤ '9' then some (c.toNat - '0'.toNat)
  else if 'a' ≤ c ∧ c ≤ 'f' then some (c.toNat - 'a'.toNat + 10)
  else if 'A' ≤ c ∧ c ≤ 'F' then some (c.toNat - 'A'.toNat + 10)
  else none

/-- The value of four hexadecimal digits. -/
def unit? (a b c d : Char) : Option Nat :=
  [a, b, c, d].foldlM (fun n x => (hexDigit? x).map (n * 16 + ·)) 0

/-- The characters that escapes of one letter stand for. -/
def letterEscape? (c : Char) : Option Char :=
  [('"', '"'), ('\\', '\\'), ('/', '/'), ('n', '\n'), ('r', '\r'), ('t', '\t'), ('b', '\x08'),
    ('f', '\x0c')].lookup c

/-- The character that two UTF-16 units stand for. -/
def joinUnits? (high low : Nat) : Option Char :=
  if 0xD800 ≤ high ∧ high < 0xDC00 ∧ 0xDC00 ≤ low ∧ low < 0xE000 then
    some (Char.ofNat (0x10000 + (high - 0xD800) * 0x400 + (low - 0xDC00)))
  else none

/-- The text of a string after its first quote, and what follows the string. The characters
already read come first, latest first. -/
def string? : Text → Text → Option (Text × Text)
  | _, [] => none
  | read, '"' :: rest => some (read.reverse, rest)
  | read, '\\' :: 'u' :: a :: b :: c :: d :: '\\' :: 'u' :: e :: f :: g :: h :: rest =>
      match unit? a b c d, unit? e f g h with
      | some high, some low =>
          match joinUnits? high low with
          | some x => string? (x :: read) rest
          | none => string? (Char.ofNat high :: read) ('\\' :: 'u' :: e :: f :: g :: h :: rest)
      | _, _ => none
  | read, '\\' :: 'u' :: a :: b :: c :: d :: rest =>
      match unit? a b c d with
      | some n => string? (Char.ofNat n :: read) rest
      | none => none
  | read, '\\' :: c :: rest =>
      match letterEscape? c with
      | some x => string? (x :: read) rest
      | none => none
  | read, c :: rest => string? (c :: read) rest

/-! ## Numbers -/

def digits (cs : List Char) : Nat := cs.foldl (fun n c => n * 10 + (c.toNat - '0'.toNat)) 0

/-- The power of ten after a number. -/
def exponent? : List Char → Option Int
  | [] => some 0
  | e :: cs =>
      if e = 'e' || e = 'E' then
        let (negative, cs) := match cs with
          | '-' :: cs => (true, cs)
          | '+' :: cs => (false, cs)
          | cs => (false, cs)
        if cs.isEmpty || !cs.all Char.isDigit then none
        else some (if negative then -(digits cs : Int) else digits cs)
      else none

/-- The number that a numeral stands for. -/
def number? (cs : List Char) : Option Value := do
  let (negative, cs) := match cs with
    | '-' :: cs => (true, cs)
    | cs => (false, cs)
  let whole := cs.takeWhile Char.isDigit
  if whole.isEmpty then none
  else
    match cs.dropWhile Char.isDigit with
    | [] => pure (.int (if negative then -(digits whole : Int) else digits whole))
    | '.' :: rest =>
        let places := rest.takeWhile Char.isDigit
        if places.isEmpty then none
        else
          let e ← exponent? (rest.dropWhile Char.isDigit)
          pure (.real (Decimal.normal ⟨negative, digits (whole ++ places), e - places.length⟩))
    | rest => do
        let e ← exponent? rest
        pure (.real (Decimal.normal ⟨negative, digits whole, e⟩))

/-- A character of a numeral or of a word. -/
def isWordChar (c : Char) : Bool := c.isAlphanum || c = '+' || c = '-' || c = '.'

/-- The value that a word or a numeral stands for. -/
def word? (cs : List Char) : Option Value :=
  match String.ofList cs with
  | "null" => some .null
  | "true" => some (.bool true)
  | "false" => some (.bool false)
  | _ => number? cs

/-! ## Values -/

mutual

/-- A value and what follows it; `fuel` bounds the number of values and separators. -/
def value? (fuel : Nat) (t : Text) : Option (Value × Text) :=
  match fuel with
  | 0 => none
  | fuel + 1 =>
      match skip t with
      | '[' :: rest =>
          match skip rest with
          | ']' :: rest => some (.list [], rest)
          | rest => items? fuel [] rest
      | '\x7b' :: rest =>
          match skip rest with
          | '\x7d' :: rest => some (.record [], rest)
          | rest => fields? fuel [] rest
      | '"' :: rest => (string? [] rest).map fun p => (.text (String.ofList p.1), p.2)
      | t => (word? (t.takeWhile isWordChar)).map fun v => (v, t.dropWhile isWordChar)

/-- The items of a list up to its end, after those already read (latest first). -/
def items? (fuel : Nat) (read : List Value) (t : Text) : Option (Value × Text) :=
  match fuel with
  | 0 => none
  | fuel + 1 =>
      match value? fuel t with
      | none => none
      | some (v, rest) =>
          match skip rest with
          | ',' :: rest => items? fuel (v :: read) rest
          | ']' :: rest => some (.list (v :: read).reverse, rest)
          | _ => none

/-- The fields of a record up to its end, after those already read (latest first). -/
def fields? (fuel : Nat) (read : List (String × Value)) (t : Text) : Option (Value × Text) :=
  match fuel with
  | 0 => none
  | fuel + 1 =>
      match skip t with
      | '"' :: rest =>
          match string? [] rest with
          | none => none
          | some (name, rest) =>
              match skip rest with
              | ':' :: rest =>
                  match value? fuel rest with
                  | none => none
                  | some (v, rest) =>
                      let read := (String.ofList name, v) :: read
                      match skip rest with
                      | ',' :: rest => fields? fuel read rest
                      | '\x7d' :: rest => some (.record (Table.merge [] read.reverse), rest)
                      | _ => none
              | _ => none
      | _ => none

end

/-- The value of a text in JSON notation. -/
def read? (s : String) : Option Value :=
  let t := s.toList
  match value? (t.length + 1) t with
  | some (v, rest) => if (skip rest).isEmpty then some v else none
  | none => none

end GuardClause.Json
