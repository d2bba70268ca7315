import GuardClause.Log.Record
import GuardClause.Table
import GuardClause.Text.Slice
import GuardClause.Text.Unicode

/-!
# The registry of languages

A registry holds languages by name and knows which language owns which file extension. A language
that is registered later takes over the extensions that it lists. Every change is logged, and so
is a file whose suffixes nobody owns.

The language of a buffer may be told from the name of its file. The name is the last component of
a path; its suffixes are the tails of the name that start at a point, where points at the front
of the name do not count. A name such as `button.d.ts` has the tails `.d.ts` and `.ts`, and the
longer one is looked up first.
-/

namespace GuardClause

/-! ## File names and their suffixes -/

namespace FileName

/-- The components of a path; empty ones and single points name nothing. -/
def components (path : Text) : List Text :=
  (path.splitOnP (· = '/')).filter fun c => !(c.isEmpty || c = ['.'])

/-- The last component of a path; a path without components has an empty name. -/
def ofPath (path : Text) : Text := (components path).getLast?.getD []

/-- The tails of a text that start at a point, the longest first. -/
def dottedTails : Text → List Text
  | [] => []
  | c :: rest => if c = '.' then (c :: rest) :: dottedTails rest else dottedTails rest

/-- The joined suffixes of a file name, the longest first. A name that ends in a point has
none. -/
def suffixes (name : Text) : List Text :=
  if name.getLast? = some '.' then [] else dottedTails (name.dropWhile (· = '.'))

/-- The joined suffixes of the file at a path as they are looked up: in lower case. -/
def lookupKeys (path : String) : List String :=
  (suffixes (ofPath path.toList)).map fun t => Text.lowerCase (String.ofList t)

/-- The last suffix of a file name for messages: what follows the last point, with that point,
unless the point is the first or the last character of the name. -/
def lastSuffix (name : Text) : Text :=
  match (dottedTails name).getLast? with
  | some tail => if tail.length = name.length || tail.length = 1 then [] else tail
  | none => []

end FileName

/-! ## Registries -/

/-- A language to be registered: its name, its file extensions, and what is to be found. -/
structure Registration (α : Type) where
  name : String
  extensions : List String
  content : α

/-- Languages by name, and the owners of file extensions. -/
structure Registry (α : Type) where
  entries : Table (Registration α) := []
  owners : Table String := []

namespace Registry

variable {α : Type}

def empty : Registry α := {}

def logger : String := "plugins.manager"

def names (r : Registry α) : List String := r.entries.keys

def extensions (r : Registry α) : List String := r.owners.keys

/-- The language that owns an extension. -/
def owner? (r : Registry α) (extension : String) : Option String := r.owners.get? extension

/-- Whether a name is registered, exactly as it is spelled. -/
def has (r : Registry α) (name : String) : Bool := r.entries.has name

/-- Extensions given to a language one after another. -/
def assign (owners : Table String) (name : String) (extensions : List String) : Table String :=
  extensions.foldl (fun t e => t.put e name) owners

/-- The registry after a registration. -/
def register (r : Registry α) (e : Registration α) : Registry α :=
  ⟨r.entries.put e.name e, assign r.owners e.name e.extensions⟩

/-- Extensions taken from a language one after another, as far as it owns them. -/
def withdraw (owners : Table String) (name : String) (extensions : List String) : Table String :=
  extensions.foldl (fun t e => if t.get? e = some name then t.erase e else t) owners

/-- The removal of a name: whether it was registered, and the registry afterwards. Nothing happens
if it was not. -/
def remove (r : Registry α) (name : String) : Bool × Registry α :=
  match r.entries.get? name with
  | none => (false, r)
  | some e => (true, ⟨r.entries.erase name, withdraw r.owners name e.extensions⟩)

/-- The registry after the removal of a name. -/
def unregister (r : Registry α) (name : String) : Registry α := (r.remove name).2

/-- The language with a name, whose letters may be of either case; registered names are found
only if they are in lower case. -/
def find? (r : Registry α) (name : String) : Option (Registration α) :=
  r.entries.get? (Text.lowerCase name)

/-- The owner of the first key that a named language owns. -/
def ownerOf? (r : Registry α) (keys : List String) : Option String :=
  keys.findSome? fun key => (r.owner? key).filter (!·.isEmpty)

/-- The language of the file at a path: the owner of its longest suffix that anyone owns. -/
def ofFile? (r : Registry α) (path : String) : Option (Registration α) :=
  (r.ownerOf? (FileName.lookupKeys path)).bind r.entries.get?

/-! ## What is logged -/

/-- The warnings about extensions that change hands. -/
def assignLog (owners : Table String) (name : String) : List String → List Log.Record
  | [] => []
  | e :: rest =>
      (match owners.get? e with
        | some old => [Log.Record.plain .warning logger
            ("Extension '" ++ e ++ "' already mapped to '" ++ old ++ "', overwriting with '" ++
              name ++ "'")]
        | none => [])
      ++ assignLog (owners.put e name) name rest

def registerLog (r : Registry α) (e : Registration α) : List Log.Record :=
  (if r.has e.name then
    [Log.Record.plain .warning logger
      ("Plugin for language '" ++ e.name ++ "' already registered, overwriting")]
  else [])
  ++ assignLog r.owners e.name e.extensions
  ++ [Log.Record.plain .info logger
      ("Registered plugin for language '" ++ e.name ++ "' with extensions: " ++
        Text.quotedList e.extensions)]

def unregisterLog (r : Registry α) (name : String) : List Log.Record :=
  if r.has name then
    [Log.Record.plain .info logger ("Unregistered plugin for language '" ++ name ++ "'")]
  else []

def ofFileLog (r : Registry α) (path : String) : List Log.Record :=
  if (r.ownerOf? (FileName.lookupKeys path)).isSome then []
  else
    [Log.Record.plain .debug logger
      ("No plugin found for file extension '" ++
        String.ofList (FileName.lastSuffix (FileName.ofPath path.toList)) ++
        "' (file: " ++ path ++ ")")]

end Registry

end GuardClause
