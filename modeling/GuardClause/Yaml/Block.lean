import GuardClause.Text.Lines
import GuardClause.Yaml.Flow

/-!
# Documents

A document is a value laid out by indentation: a record has one field on each line, a list one
item after each dash, and what belongs to a field or an item stands further to the right. The
dashes of a list may stand in the column of the field that holds the list. A value on one line may
go on over the lines after it as far as these stand further to the right.
-/

namespace GuardClause.Yaml

/-- A line that holds more than spaces: its column, and its text from there on. -/
structure Line where
  column : Nat
  text : Text

namespace Line

/-- A line, unless it is empty. Spaces at its end do not count. -/
def ofText? (t : Text) : Option Line :=
  let column := (t.takeWhile (· = ' ')).length
  let text := ((t.drop column).reverse.dropWhile (· = ' ')).reverse
  if text.isEmpty then none else some ⟨column, text⟩

def isComment (l : Line) : Bool := l.text.head? = some '#'

def isItem (l : Line) : Bool := l.text.head? = some '-' && atGap l.text.tail

/-- The line from the first character after `width` characters that is no space, if there is
one. -/
def skip? (l : Line) (width : Nat) : Option Line :=
  (ofText? (l.text.drop width)).map fun rest =>
    { rest with column := l.column + width + rest.column }

/-- The name of a field and the text after its colon, if the line starts a field. -/
def field? (l : Line) : Option (String × Text) := do
  let (key, rest) ← match l.text with
    | '"' :: rest =>
        match doubleQuoted .outside rest with
        | .done t rest => some (Value.text (String.ofList t), rest)
        | _ => none
    | '\'' :: rest =>
        match singleQuoted rest with
        | .done t rest => some (Value.text (String.ofList t), rest)
        | _ => none
    | t =>
        if startsPlain false t then
          let (name, rest) := plainSpan false false t
          some (resolve (plainText name), rest)
        else none
  match rest.dropWhile (· = ' ') with
  | ':' :: rest =>
      if atGap rest then
        let name ← fieldName? key
        some (name, rest)
      else none
  | _ => none

end Line

/-- The lines from the first one that is no comment. -/
def skipComments (ls : List Line) : List Line := ls.dropWhile Line.isComment

/-- Whether nothing but a comment is left on a line. -/
def isDone (rest : Text) : Bool :=
  match rest.dropWhile (· = ' ') with
  | [] => true
  | c :: _ => c = '#'

/-- A plain scalar on a line and on the lines after it that stand at column `limit` or further to
the right. -/
def plainLines (limit : Nat) (t : Text) : List Line → Option (Text × List Line)
  | [] =>
      let (text, rest) := plainSpan false false t
      if isDone rest then some (plainText text, []) else none
  | l :: ls =>
      let (text, rest) := plainSpan false false t
      if !isDone rest then none
      else if !rest.isEmpty || l.column < limit || l.isComment then
        some (plainText text, l :: ls)
      else (plainLines limit l.text ls).map fun p => (plainText text ++ ' ' :: p.1, p.2)

/-- A quoted scalar, a list in brackets or a record in braces, on a line and as many of the lines
after it as it takes. -/
def flowLines (t : Text) : List Line → Option (Value × List Line)
  | [] =>
      match flowValue (2 * t.length + 2) t with
      | .done v rest => if isDone rest then some (v, []) else none
      | _ => none
  | l :: ls =>
      match flowValue (2 * t.length + 2) t with
      | .done v rest => if isDone rest then some (v, l :: ls) else none
      | .unfinished => flowLines (t ++ '\n' :: l.text) ls
      | .malformed => none

/-- Whether a value starts with a quote, a bracket or a brace. -/
def startsFlow (t : Text) : Bool :=
  t.head?.any (['[', '\x7b', '"', '\''].contains ·)

/-- A value that starts in the middle of a line. -/
def inlineValue (limit : Nat) (t : Text) (ls : List Line) : Option (Value × List Line) :=
  if startsFlow t then flowLines t ls
  else if startsPlain false t then
    (plainLines limit t ls).map fun p => (resolve p.1, p.2)
  else none

mutual

/-- The value on the lines from the first one on; null if that line stands left of column
`limit`. `fuel` bounds the number of fields, items and values. -/
def blockValue (fuel limit : Nat) (ls : List Line) : Option (Value × List Line) :=
  match fuel with
  | 0 => none
  | fuel + 1 =>
      match skipComments ls with
      | [] => some (.null, [])
      | l :: rest =>
          if l.column < limit then some (.null, l :: rest)
          else if l.isItem then
            (blockItems fuel l.column (l :: rest)).map fun p => (.list p.1, p.2)
          else if l.field?.isSome then
            (blockFields fuel l.column (l :: rest)).map fun p => (.record (Table.merge [] p.1), p.2)
          else inlineValue limit l.text rest

/-- The items of a list whose dashes stand at a column. -/
def blockItems (fuel column : Nat) (ls : List Line) : Option (List Value × List Line) :=
  match fuel with
  | 0 => none
  | fuel + 1 =>
      match skipComments ls with
      | [] => some ([], [])
      | l :: rest =>
          if l.column = column && l.isItem then do
            let inner := match l.skip? 1 with
              | some tail => tail :: rest
              | none => rest
            let (v, rest) ← blockValue fuel (column + 1) inner
            let (vs, rest) ← blockItems fuel column rest
            pure (v :: vs, rest)
          else some ([], l :: rest)

/-- The fields of a record whose names stand at a column. -/
def blockFields (fuel column : Nat) (ls : List Line) :
    Option (List (String × Value) × List Line) :=
  match fuel with
  | 0 => none
  | fuel + 1 =>
      match skipComments ls with
      | [] => some ([], [])
      | l :: rest =>
          if l.column < column then some ([], l :: rest)
          else if column < l.column then none
          else
            match l.field? with
            | none => none
            | some (name, after) => do
                let (v, rest) ← fieldValue fuel column (after.dropWhile (· = ' ')) rest
                let (fs, rest) ← blockFields fuel column rest
                pure ((name, v) :: fs, rest)

/-- The value of a field whose name stands at a column, from the text after the colon. -/
def fieldValue (fuel column : Nat) (after : Text) (ls : List Line) :
    Option (Value × List Line) :=
  match fuel with
  | 0 => none
  | fuel + 1 =>
      if !isDone after then inlineValue (column + 1) after ls
      else
        match skipComments ls with
        | [] => some (.null, [])
        | l :: rest =>
            if l.column = column && l.isItem then
              (blockItems fuel column (l :: rest)).map fun p => (.list p.1, p.2)
            else blockValue fuel (column + 1) (l :: rest)

end

/-! ## Texts -/

def isAllowed (c : Char) : Bool :=
  let n := c.toNat
  n = 0x09 || n = 0x0A || n = 0x0D || (0x20 ≤ n && n ≤ 0x7E) || n = 0x85 ||
    (0xA0 ≤ n && n ≤ 0xFFFD) || 0x10000 ≤ n

def isLineEnd (c : Char) : Bool :=
  c = '\n' || c = '\r' || c = '\x85' || c = '\u2028' || c = '\u2029'

/-- The lines of a text that hold more than spaces. -/
def linesOf (t : Text) : List Line := (t.splitOnP isLineEnd).filterMap Line.ofText?

/-- The lines between the marks for the start and the end of a document, where these stand. -/
def body (ls : List Line) : List Line :=
  let isMark (mark : String) (l : Line) : Bool :=
    l.column = 0 && l.text.take 3 = mark.toList && atGap (l.text.drop 3)
  let ls := match skipComments ls with
    | l :: rest =>
        if isMark "---" l then
          match l.skip? 3 with
          | some tail => tail :: rest
          | none => rest
        else ls
    | [] => []
  ls.takeWhile fun l => !isMark "..." l

/-- The value that a document holds, unless it is malformed. -/
def read? (s : String) : Option Value :=
  if !s.toList.all isAllowed then none
  else
    match blockValue (4 * s.length + 4) 0 (body (linesOf s.toList)) with
    | some (v, rest) => if (skipComments rest).isEmpty then some v else none
    | none => none

end GuardClause.Yaml
