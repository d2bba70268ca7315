import GuardClause.Language.Bundled
import GuardClause.Language.Parse
import GuardClause.Proposal
import GuardClause.Settings.Basic

/-!
# The service

A query names a buffer, a cursor and possibly the language or the file of the buffer. The service
picks the language, parses the buffer and proposes edits. It keeps nothing between two queries.
-/

namespace GuardClause

/-- Languages to choose from, and the limits of the service. -/
structure Service where
  registry : Registry Grammar
  indentWidth : Int
  maxSourceChars : Int
  defaultLanguage : String

/-- A request for the edits at a cursor. -/
structure Query where
  content : Text
  line : Int
  column : Int
  /-- The name of the language; it wins over the file. -/
  language : Option String := none
  /-- The path of the buffer's file. -/
  file : Option String := none

/-- Why no language was picked. -/
inductive Unsupported where
  | language (name : String)
  | file (path : String)
deriving DecidableEq, Repr

def Unsupported.message : Unsupported → String
  | language name => "Unsupported language: " ++ name
  | file path => "No language plugin for file: " ++ path

/-- Why a query is not answered. -/
inductive QueryFault where
  /-- The buffer has more characters than are accepted. -/
  | tooLarge (size : Nat) (limit : Int)
  | unsupported (u : Unsupported)
  | unparsed (e : ParseError)
  /-- A refactoring cannot be carried out. -/
  | failed (f : Fault)
deriving DecidableEq, Repr

namespace QueryFault

def message : QueryFault → String
  | tooLarge size limit =>
      "Source has " ++ toString size ++ " characters, limit is " ++ toString limit
  | unsupported u => u.message
  | unparsed e => e.message
  | failed f => f.message

end QueryFault

namespace Service

/-- The service over the bundled languages with some settings. -/
def ofSettings (s : Settings) : Service :=
  ⟨Registry.bundled, s.indentWidth, s.maxSourceChars, s.defaultLanguage⟩

/-- A hint of a query; an empty one is none. -/
def hint (given : Option String) : Option String := given.filter (!·.isEmpty)

def byName (s : Service) (name : String) : Except Unsupported (Registration Grammar) :=
  match s.registry.find? name with
  | some found => .ok found
  | none => .error (.language name)

/-- The language for some hints: that of the given name, else that of the file, else the default
one. -/
def select (s : Service) (language file : Option String) :
    Except Unsupported (Registration Grammar) :=
  match hint language, hint file with
  | some name, _ => s.byName name
  | none, some path =>
      match s.registry.ofFile? path with
      | some found => .ok found
      | none => .error (.file path)
  | none, none => s.byName s.defaultLanguage

/-- The edits for a buffer in a language, from what the parser answered. -/
def editsIn (s : Service) (language : Grammar) (q : Query) (parsed : Parsed) :
    Except QueryFault (List Edit) :=
  match language.parse q.content parsed with
  | .error e => .error (.unparsed e)
  | .ok a => (a.propose (a.buffer.offsetOf q.line q.column) s.indentWidth).mapError .failed

def checkSize (s : Service) (content : Text) : Except QueryFault Unit :=
  if s.maxSourceChars < content.length then .error (.tooLarge content.length s.maxSourceChars)
  else .ok ()

/-- The edits for a query, from what the parser answered. -/
def propose (s : Service) (q : Query) (parsed : Parsed) : Except QueryFault (List Edit) := do
  s.checkSize q.content
  let found ← (s.select q.language q.file).mapError .unsupported
  s.editsIn found.content q parsed

end Service

end GuardClause
