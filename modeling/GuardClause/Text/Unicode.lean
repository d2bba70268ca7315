import GuardClause.Text.CaseTable
import GuardClause.Text.PrintTable
import GuardClause.Text.Slice

/-!
# Characters by the Unicode standard

White space, lower case, and texts between quotes.

Lower-casing replaces each character by its lower-case form. Two characters need more than a
table of single forms: the capital I with a dot becomes two characters, and the capital sigma
becomes a final sigma at the end of a word, that is, when a cased character stands before it and
none after it, passing over characters that the standard ignores for case.

Messages quote a text between single quotes, or between double quotes if it holds a single quote
and no double one. Inside, the backslash and the quote in use are escaped, the tab, the newline
and the carriage return have short escapes, and any other character that is not printable is
written by its code in two, four or eight hexadecimal digits.
-/

namespace GuardClause

/-! ## White space -/

/-- A white-space character of the Unicode standard. -/
def isSpace (c : Char) : Bool :=
  let n := c.toNat
  (0x09 ≤ n && n ≤ 0x0D) || n == 0x20 || n == 0x85 || n == 0xA0 || n == 0x1680 ||
    (0x2000 ≤ n && n ≤ 0x200A) || n == 0x2028 || n == 0x2029 || n == 0x202F || n == 0x205F ||
    n == 0x3000

namespace Text

/-- The text without white space at its end. -/
def trimEnd (t : Text) : Text := (t.reverse.dropWhile isSpace).reverse

/-- The text without white space at either end. -/
def trimSpace (t : Text) : Text := trimEnd (t.dropWhile isSpace)

/-! ## Lower case -/

def inRanges (ranges : List (Nat × Nat)) (code : Nat) : Bool :=
  ranges.any fun r => r.1 ≤ code && code ≤ r.2

/-- A character that has a case and that a look around for case does not pass over. -/
def isCased (c : Char) : Bool := inRanges casedRanges c.toNat

/-- A character that a look around for case passes over. -/
def isCaseIgnorable (c : Char) : Bool := inRanges ignorableRanges c.toNat

/-- The lower-case form of a character whose form is one character; other characters stay. -/
def lowerSimple (c : Char) : Char :=
  if c.isUpper then c.toLower
  else if c.toNat < 0x80 then c
  else
    let n := c.toNat
    match lowerRuns.find? fun r => r.1 ≤ n && n ≤ r.2.1 && (n - r.1) % r.2.2.1 == 0 with
    | some r => Char.ofNat ((n : Int) + r.2.2.2).toNat
    | none => c

/-- Whether the first character that counts for case, if there is one, is cased. -/
def meetsCased (cs : List Char) : Bool :=
  match cs.dropWhile isCaseIgnorable with
  | c :: _ => isCased c
  | [] => false

/-- The lower-case form of a character after `before` (nearest first) and before `after`. -/
def lowerInContext (before : List Char) (c : Char) (after : List Char) : List Char :=
  if c = 'Σ' then
    if meetsCased before && !meetsCased after then ['ς'] else ['σ']
  else if c = 'İ' then ['i', '\u0307']
  else [lowerSimple c]

/-- Lower case of the characters that follow `before` (nearest first). -/
def lowerAfter (before : List Char) : List Char → List Char
  | [] => []
  | c :: rest => lowerInContext before c rest ++ lowerAfter (c :: before) rest

/-- A name in lower case. -/
def lowerCase (s : String) : String := String.ofList (lowerAfter [] s.toList)

/-! ## Quoted texts -/

/-- Whether a character is printed as it is. -/
def isPrintable (c : Char) : Bool :=
  if c.toNat < 0x80 then 0x20 ≤ c.toNat && c.toNat < 0x7F else inRanges printableRanges c.toNat

/-- The lowest `width` hexadecimal digits of a number. -/
def hexDigits : Nat → Nat → List Char
  | 0, _ => []
  | width + 1, n => hexDigits width (n / 16) ++ [Nat.digitChar (n % 16)]

/-- The code of a character after the shortest of three escapes that has room for it. -/
def escapeCode (c : Char) : List Char :=
  let n := c.toNat
  if n < 0x100 then '\\' :: 'x' :: hexDigits 2 n
  else if n < 0x10000 then '\\' :: 'u' :: hexDigits 4 n
  else '\\' :: 'U' :: hexDigits 8 n

/-- A character as it stands between quotes of kind `quote`. -/
def quoteChar (quote c : Char) : List Char :=
  if c = '\\' || c = quote then ['\\', c]
  else if c = '\t' then ['\\', 't']
  else if c = '\n' then ['\\', 'n']
  else if c = '\r' then ['\\', 'r']
  else if isPrintable c then [c]
  else escapeCode c

/-- The kind of quotes that a text is put between. -/
def quoteFor (cs : List Char) : Char :=
  if cs.contains '\'' && !cs.contains '"' then '"' else '\''

/-- A text between quotes. -/
def quoted (s : String) : String :=
  let cs := s.toList
  let quote := quoteFor cs
  String.ofList (quote :: cs.flatMap (quoteChar quote) ++ [quote])

/-- A list of texts, each between quotes, in brackets. -/
def quotedList (names : List String) : String :=
  "[" ++ String.intercalate ", " (names.map quoted) ++ "]"

end Text

end GuardClause
