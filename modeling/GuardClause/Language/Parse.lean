import GuardClause.Language.Layout
import GuardClause.Log.Record

/-!
# Parsing

Parsing a text in a language is reading the concrete syntax tree that a parser found for it. A
language without a name cannot even report a fault, so it fails in a way of its own.
-/

namespace GuardClause

def UnknownKind.message (k : UnknownKind) : String :=
  Text.quoted k.name ++ " is not a valid NodeKind"

namespace ReadFault

def message : ReadFault → String
  | noRoot => "tree-sitter returned no root node"
  | absent setting => Text.quoted setting.name
  | offsetOutside => "list index out of range"

end ReadFault

/-- Why a text cannot be parsed. -/
inductive ParseError where
  | unnamed
  | unreadable (language : String) (fault : ReadFault)
deriving DecidableEq, Repr

def ParseError.message : ParseError → String
  | unnamed => Text.quoted "name"
  | unreadable language fault => "Failed to parse " ++ language ++ " source: " ++ fault.message

namespace Grammar

/-- The arena of a text, from what the parser answered. -/
def parse (g : Grammar) (text : Text) (parsed : Parsed) : Except ParseError Arena :=
  match g.name with
  | none => .error .unnamed
  | some language =>
      match parsed.root with
      | none => .error (.unreadable language .noRoot)
      | some root =>
          match g.nodesOf text root with
          | .error fault => .error (.unreadable language fault)
          | .ok nodes => .ok ⟨language, ⟨text⟩, nodes.toArray, 0⟩

def parseLogger : String := "plugins.base"

/-- What is logged while a text is parsed: that the parser met an error, and a failure. -/
def parseLog (g : Grammar) (text : Text) (parsed : Parsed) : List Log.Record :=
  match g.name with
  | none => []
  | some language =>
      let note := if parsed.root.isSome && parsed.hasError then
          [Log.Record.plain .debug parseLogger (language ++ " source contains syntax errors")]
        else []
      match g.parse text parsed with
      | .error (.unreadable _ fault) =>
          note ++ [Log.Record.plain .error parseLogger
            ("Error parsing " ++ language ++ " source: " ++ fault.message)]
      | _ => note

end Grammar

end GuardClause
