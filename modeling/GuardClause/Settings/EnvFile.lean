import GuardClause.Table
import GuardClause.Text.Unicode

/-!
# Environment files

An environment file holds bindings `NAME=value`, one on a line, with blank lines and comments
between them. A name may follow the word `export` or stand between single quotes. A value may
stand between quotes and then go on over several lines; otherwise it ends at the end of its line
or before a comment. A line that is no binding is skipped. Values may refer to other names as
`${NAME}` or, with a text in case the name is unbound, as `${NAME:-text}`.
-/

namespace GuardClause.EnvFile

/-- White space, which here includes the four separators of information. -/
def isBlankChar (c : Char) : Bool := isSpace c || (0x1C ≤ c.toNat && c.toNat ≤ 0x1F)

def isLineEnd (c : Char) : Bool := c = '\n' || c = '\r'

/-- White space within a line. -/
def isInnerBlank (c : Char) : Bool := isBlankChar c && !isLineEnd c

/-- A text without the white space at its front that lies within the line. -/
def skipBlanks (t : Text) : Text := t.dropWhile isInnerBlank

/-- The text after the present line. -/
def skipLine (t : Text) : Text := (t.dropWhile (!isLineEnd ·)).drop 1

/-- The text after the present line, of which nothing but a comment may be left. -/
def endLine? (t : Text) : Option Text :=
  let t := match skipBlanks t with
    | '#' :: rest => rest.dropWhile (!isLineEnd ·)
    | rest => rest
  match t with
  | [] => some []
  | '\r' :: '\n' :: rest => some rest
  | c :: rest => if isLineEnd c then some rest else none

/-- The text after the word `export` and the blanks that follow it, if these come first. -/
def skipExport (t : Text) : Text :=
  let word := "export".toList
  if word.isPrefixOf t then
    let rest := t.drop word.length
    if rest.head?.any isInnerBlank then skipBlanks rest else t
  else t

/-- A name and the text after it; a comment has no name. -/
def name? (t : Text) : Option (Option Text × Text) :=
  match t with
  | '#' :: _ => some (none, t)
  | '\'' :: rest =>
      let name := rest.takeWhile (· ≠ '\'')
      match rest.dropWhile (· ≠ '\'') with
      | _ :: rest => if name.isEmpty then none else some (some name, rest)
      | [] => none
  | _ =>
      let stops := fun c => c = '=' || c = '#' || isBlankChar c
      let name := t.takeWhile (!stops ·)
      if name.isEmpty then none else some (some name, t.dropWhile (!stops ·))

/-! ## Values -/

/-- The text up to the first quote that no backslash precedes, and the text after that quote. -/
def closeAtBare? (quote : Char) : (afterBackslash : Bool) → Text → Option (Text × Text)
  | _, [] => none
  | afterBackslash, c :: rest =>
      if c = quote && !afterBackslash then some ([], rest)
      else (closeAtBare? quote (c = '\\') rest).map fun p => (c :: p.1, p.2)

/-- The text up to the last quote, and the text after it. -/
def closeAtLast? (quote : Char) (t : Text) : Option (Text × Text) :=
  match t.reverse.dropWhile (· ≠ quote) with
  | [] => none
  | _ :: front => some (front.reverse, (t.reverse.takeWhile (· ≠ quote)).reverse)

/-- The text between quotes, after the first one. A quote after a backslash closes the text only
if no other one does. -/
def close? (quote : Char) (t : Text) : Option (Text × Text) :=
  (closeAtBare? quote false t).or (closeAtLast? quote t)

/-- The characters that escapes stand for between single quotes. -/
def singleEscapes : List (Char × Char) := [('\\', '\\'), ('\'', '\'')]

/-- The characters that escapes stand for between double quotes. -/
def doubleEscapes : List (Char × Char) :=
  singleEscapes ++ [('"', '"'), ('a', '\x07'), ('b', '\x08'), ('f', '\x0c'), ('n', '\n'),
    ('r', '\r'), ('t', '\t'), ('v', '\x0b')]

/-- A text with its escapes carried out; other backslashes stay. -/
def unescape (escapes : List (Char × Char)) : Text → Text
  | [] => []
  | '\\' :: c :: rest =>
      match escapes.lookup c with
      | some e => e :: unescape escapes rest
      | none => '\\' :: unescape escapes (c :: rest)
  | c :: rest => c :: unescape escapes rest

/-- A text up to the first `#` after white space. -/
def dropComment : (afterBlank : Bool) → Text → Text
  | _, [] => []
  | afterBlank, c :: rest =>
      if c = '#' && afterBlank then [] else c :: dropComment (isBlankChar c) rest

/-- The value at the front of a text, and the text after it. -/
def value? (t : Text) : Option (Text × Text) :=
  match t with
  | '\'' :: rest => (close? '\'' rest).map fun p => (unescape singleEscapes p.1, p.2)
  | '"' :: rest => (close? '"' rest).map fun p => (unescape doubleEscapes p.1, p.2)
  | _ =>
      let line := t.takeWhile (!isLineEnd ·)
      let value := ((dropComment false line).reverse.dropWhile isBlankChar).reverse
      some (value, t.dropWhile (!isLineEnd ·))

/-! ## Bindings -/

/-- A name with its value, if it has one. -/
abbrev Binding := Text × Option Text

/-- The outcome of a step, or the text at which the step failed. -/
def expect {α : Type} (t : Text) : Option α → Except Text α
  | some a => .ok a
  | none => .error t

/-- What stands on a line, if it is a binding or a comment, and the text after the line. If it is
neither, the text from the first character that does not fit. -/
def line (t : Text) : Except Text (Option Binding × Text) := do
  let t := skipExport t
  let (name, rest) ← expect t (name? t)
  let rest := skipBlanks rest
  let (value, rest) ← match rest with
    | '=' :: after => do
        let after := skipBlanks after
        let (value, rest) ← expect after (value? after)
        pure (some value, rest)
    | _ => pure (none, rest)
  let rest ← expect rest (endLine? rest)
  pure (name.map fun n => (n, value), rest)

/-- The bindings of a text in order; `fuel` bounds the number of lines. -/
def bindingsFuel : Nat → Text → List Binding
  | 0, _ => []
  | fuel + 1, t =>
      match t.dropWhile isBlankChar with
      | [] => []
      | t =>
          match line t with
          | .ok (some b, rest) => b :: bindingsFuel fuel rest
          | .ok (none, rest) => bindingsFuel fuel rest
          | .error rest => bindingsFuel fuel (skipLine rest)

def bindings (t : Text) : List Binding := bindingsFuel (t.length + 1) t

/-! ## References -/

/-- A reference and the text after it: the name, the text in case it is unbound, the rest. -/
def reference? (t : Text) : Option (Text × Text × Text) :=
  let ends := fun c => c = '\x7d' || c = ':'
  let name := t.takeWhile (!ends ·)
  match t.dropWhile (!ends ·) with
  | '\x7d' :: rest => some (name, [], rest)
  | ':' :: '-' :: rest =>
      match rest.dropWhile (· ≠ '\x7d') with
      | _ :: after => some (name, rest.takeWhile (· ≠ '\x7d'), after)
      | [] => none
  | _ => none

/-- A value with its references carried out; `fuel` bounds its length. -/
def expandFuel (lookup : String → Option String) : Nat → Text → Text
  | 0, t => t
  | _, [] => []
  | fuel + 1, c :: rest =>
      let found := match c, rest with
        | '$', '\x7b' :: rest => reference? rest
        | _, _ => none
      match found with
      | some (name, otherwise, after) =>
          ((lookup (String.ofList name)).map String.toList).getD otherwise
            ++ expandFuel lookup fuel after
      | none => c :: expandFuel lookup fuel rest

/-- The table of an environment file. References see the names bound before, then the
environment. A later binding of a name replaces an earlier one. -/
def table (environment : Table String) (t : Text) : Table (Option String) :=
  (bindings t).foldl
    (fun bound b =>
      let lookup := fun name =>
        match bound.get? name with
        | some value => some (value.getD "")
        | none => environment.get? name
      bound.put (String.ofList b.1)
        (b.2.map fun value => String.ofList (expandFuel lookup value.length value)))
    []

end GuardClause.EnvFile
