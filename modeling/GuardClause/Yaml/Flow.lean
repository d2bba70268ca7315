import GuardClause.Yaml.Scalar

/-!
# Values within a line

Quoted and plain scalars, lists in square brackets and records in braces. Such a value may go on
over several lines, which the reader sees joined by newlines; a newline then counts as a space.
A scan ends in one of three ways: with a value and the rest of the text, at the end of the text
before the value is complete, or at something that no value can hold.
-/

namespace GuardClause.Yaml

/-- The outcome of a scan. -/
inductive Scan (α : Type) where
  /-- A complete result, and the text after it. -/
  | done (value : α) (rest : Text)
  | unfinished
  /-- Nothing that can follow makes this a result. -/
  | malformed

namespace Scan

/-- The scan with its result changed. -/
def map {α β : Type} (f : α → β) : Scan α → Scan β
  | done a rest => done (f a) rest
  | unfinished => unfinished
  | malformed => malformed

end Scan

/-- A space, or the end of a line. -/
def isGap (c : Char) : Bool := c = ' ' || c = '\n'

/-- The text after spaces, line ends and comments. A comment runs from a `#` to the end of its
line. -/
def skipGaps : (inComment : Bool) → Text → Text
  | _, [] => []
  | true, c :: rest => skipGaps (c ≠ '\n') rest
  | false, c :: rest =>
      if isGap c then skipGaps false rest
      else if c = '#' then skipGaps true rest
      else c :: rest

/-! ## Scalars -/

/-- The text between single quotes, after the first one. A quote inside is written twice. -/
def singleQuoted : Text → Scan Text
  | [] => .unfinished
  | '\'' :: '\'' :: rest => (singleQuoted rest).map ('\'' :: ·)
  | '\'' :: rest => .done [] rest
  | c :: rest => (singleQuoted rest).map ((if c = '\n' then ' ' else c) :: ·)

/-- The characters that short escapes stand for. -/
def shortEscapes : List (Char × Char) :=
  [('0', '\x00'), ('a', '\x07'), ('b', '\x08'), ('t', '\t'), ('\t', '\t'), ('n', '\n'),
    ('v', '\x0b'), ('f', '\x0c'), ('r', '\r'), ('e', '\x1b'), (' ', ' '), ('"', '"'),
    ('\\', '\\'), ('/', '/'), ('N', '\x85'), ('_', '\xa0'), ('L', '\u2028'), ('P', '\u2029')]

/-- The number of hexadecimal digits of a long escape. -/
def longEscape? (c : Char) : Option Nat :=
  [('x', 2), ('u', 4), ('U', 8)].lookup c

/-- How far a scan between double quotes has come: outside an escape, after a backslash, or
within a long escape, with the digits to come and the value of those before. -/
inductive Escape where
  | outside
  | start
  | digits (left value : Nat)

/-- The text between double quotes, after the first one. -/
def doubleQuoted : Escape → Text → Scan Text
  | _, [] => .unfinished
  | .outside, c :: rest =>
      if c = '"' then .done [] rest
      else if c = '\\' then doubleQuoted .start rest
      else (doubleQuoted .outside rest).map ((if c = '\n' then ' ' else c) :: ·)
  | .start, c :: rest =>
      match shortEscapes.lookup c, longEscape? c with
      | some e, _ => (doubleQuoted .outside rest).map (e :: ·)
      | none, some n => doubleQuoted (.digits n 0) rest
      | none, none => if c = '\n' then doubleQuoted .outside rest else .malformed
  | .digits left value, c :: rest =>
      match digitIn? 16 c with
      | none => .malformed
      | some d =>
          let value := value * 16 + d
          if 1 < left then doubleQuoted (.digits (left - 1) value) rest
          else if value.isValidChar then
            (doubleQuoted .outside rest).map (Char.ofNat value :: ·)
          else .malformed

/-- Punctuation of lists and records. -/
def flowMarks : List Char := [',', '[', ']', '\x7b', '\x7d']

/-- Characters that have a meaning of their own at the start of a value. -/
def indicators : List Char :=
  flowMarks ++ ['#', '&', '*', '!', '|', '>', '\'', '"', '%', '@', '\x60', '\t']

/-- Whether nothing, a gap or a tab comes next. -/
def atGap : Text → Bool
  | [] => true
  | c :: _ => isGap c || c = '\t'

/-- Whether a colon with this text after it separates a name from its value. -/
def separates (inFlow : Bool) (rest : Text) : Bool :=
  atGap rest || (inFlow && rest.head?.any (flowMarks.contains ·))

/-- Whether a plain scalar can start here. -/
def startsPlain (inFlow : Bool) : Text → Bool
  | [] => false
  | c :: rest =>
      if c = '-' || c = '?' || c = ':' then !separates inFlow rest
      else !indicators.contains c

/-- A plain scalar and the text after it. The scalar ends before a colon that separates, before a
comment, and within a list or record before its punctuation. -/
def plainSpan (inFlow : Bool) : (afterGap : Bool) → Text → Text × Text
  | _, [] => ([], [])
  | afterGap, c :: rest =>
      if c = '\t' || (c = '#' && afterGap) || (c = ':' && separates inFlow rest) ||
          (inFlow && (c = '?' || flowMarks.contains c)) then ([], c :: rest)
      else
        let (t, r) := plainSpan inFlow (isGap c) rest
        (c :: t, r)

/-- A plain scalar without the gap after it; line ends inside count as spaces. -/
def plainText (t : Text) : Text :=
  ((t.reverse.dropWhile isGap).reverse).map fun c => if c = '\n' then ' ' else c

/-! ## Lists and records -/

/-- An entry of a list or record: a value, or a name and a value. -/
abbrev Entry := Value × Option Value

/-- An entry as an item of a list. -/
def entryItem? : Entry → Option Value
  | (v, none) => some v
  | (k, some v) => (fieldName? k).map fun name => .record [(name, v)]

/-- An entry as a field of a record. -/
def entryField? : Entry → Option (String × Value)
  | (k, v) => (fieldName? k).map fun name => (name, v.getD .null)

/-- The value of a list or record, in brackets or braces, with the given entries. -/
def ofEntries (closer : Char) (es : List Entry) : Option Value :=
  if closer = ']' then (es.mapM entryItem?).map .list
  else (es.mapM entryField?).map fun fs => .record (Table.merge [] fs)

mutual

/-- A value; `fuel` bounds the number of values and separators. -/
def flowValue (fuel : Nat) (cs : Text) : Scan Value :=
  match fuel with
  | 0 => .malformed
  | fuel + 1 =>
      match cs with
      | [] => .unfinished
      | '[' :: rest => flowEntries fuel ']' [] (skipGaps false rest)
      | '\x7b' :: rest => flowEntries fuel '\x7d' [] (skipGaps false rest)
      | '"' :: rest => (doubleQuoted .outside rest).map fun t => .text (String.ofList t)
      | '\'' :: rest => (singleQuoted rest).map fun t => .text (String.ofList t)
      | _ =>
          if startsPlain true cs then
            let (t, rest) := plainSpan true false cs
            .done (resolve (plainText t)) rest
          else .malformed

/-- The entries up to the closer, after those already read (latest first). -/
def flowEntries (fuel : Nat) (closer : Char) (read : List Entry) (cs : Text) : Scan Value :=
  match fuel with
  | 0 => .malformed
  | fuel + 1 =>
      match cs with
      | [] => .unfinished
      | c :: rest =>
          if c = closer then
            match ofEntries closer read.reverse with
            | some v => .done v rest
            | none => .malformed
          else
            match flowEntry fuel cs with
            | .unfinished => .unfinished
            | .malformed => .malformed
            | .done e rest =>
                match skipGaps false rest with
                | [] => .unfinished
                | ',' :: rest => flowEntries fuel closer (e :: read) (skipGaps false rest)
                | c :: rest =>
                    if c = closer then flowEntries fuel closer (e :: read) (c :: rest)
                    else .malformed

def flowEntry (fuel : Nat) (cs : Text) : Scan Entry :=
  match fuel with
  | 0 => .malformed
  | fuel + 1 =>
      match flowValue fuel cs with
      | .unfinished => .unfinished
      | .malformed => .malformed
      | .done k rest =>
          match skipGaps false rest with
          | ':' :: after =>
              match skipGaps false after with
              | [] => .unfinished
              | c :: after =>
                  if c = ',' || c = ']' || c = '\x7d' then .done (k, some .null) (c :: after)
                  else (flowValue fuel (c :: after)).map fun v => (k, some v)
          | rest => .done (k, none) rest

end

end GuardClause.Yaml
