import GuardClause.Value

/-!
# Values in JSON notation

`Json.print` writes a value in one line of ASCII characters. Other characters are written as
escapes of their UTF-16 units, so those beyond the basic plane take two.
-/

namespace GuardClause.Json

/-- The escape of a UTF-16 unit. -/
def escapeUnit (n : Nat) : List Char := '\\' :: 'u' :: Text.hexDigits 4 n

/-- The escape of a character by its code. -/
def escapeCode (c : Char) : List Char :=
  let n := c.toNat
  if n < 0x10000 then escapeUnit n
  else escapeUnit (0xD800 + (n - 0x10000) / 0x400) ++ escapeUnit (0xDC00 + (n - 0x10000) % 0x400)

/-- Characters with escapes of one letter. -/
def letterEscapes : List (Char × Char) :=
  [('"', '"'), ('\\', '\\'), ('\n', 'n'), ('\r', 'r'), ('\t', 't'), ('\x08', 'b'), ('\x0c', 'f')]

/-- A character as it stands in a string. -/
def printChar (c : Char) : List Char :=
  match letterEscapes.lookup c with
  | some e => ['\\', e]
  | none => if ' ' ≤ c ∧ c ≤ '~' then [c] else escapeCode c

/-- A text as a string. -/
def printText (s : String) : String :=
  String.ofList ('"' :: s.toList.flatMap printChar ++ ['"'])

mutual

def print : Value → String
  | .null => "null"
  | .bool b => if b then "true" else "false"
  | .int i => toString i
  | .real d => Value.displayReal d
  | .text s => printText s
  | .list items => "[" ++ String.intercalate ", " (printItems items) ++ "]"
  | .record fields => "\x7b" ++ String.intercalate ", " (printFields fields) ++ "\x7d"

def printItems : List Value → List String
  | [] => []
  | v :: rest => print v :: printItems rest

def printFields : List (String × Value) → List String
  | [] => []
  | (k, v) :: rest => (printText k ++ ": " ++ print v) :: printFields rest

end

end GuardClause.Json
