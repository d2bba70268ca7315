import GuardClause.Language.Registry
import GuardClause.Yaml.Block

/-!
# The shelf of configurations

The configuration of a language is a document on disk. A document that has all the required
entries is kept on a shelf under its path and is never read again from disk. A document of
another shape than a record may pass too: in a list the entries are looked for among its items,
and in a text among its parts.
-/

namespace GuardClause

/-- Why a configuration cannot be loaded. -/
inductive ConfigFault where
  | notFound (path : String)
  | malformed
  | missing (entry path : String)
  /-- The document is a value of a type in which nothing can be looked for. -/
  | notSearchable (type : String)
deriving DecidableEq, Repr

namespace ConfigFault

def message : ConfigFault → String
  | notFound path => "Plugin configuration not found: " ++ path
  | malformed => "malformed document"
  | missing entry path => "Missing required field '" ++ entry ++ "' in " ++ path
  | notSearchable type => "argument of type '" ++ type ++ "' is not iterable"

end ConfigFault

namespace Config

/-- The entries that every configuration must have. -/
def requiredEntries : List String := ["name", "version", "file_extensions", "node_kinds"]

/-- Whether a stretch of a text equals another text. -/
def isPart (part : Text) : Text → Bool
  | [] => part.isEmpty
  | c :: rest => part.isPrefixOf (c :: rest) || isPart part rest

def isText (s : String) : Value → Bool
  | .text t => t = s
  | _ => false

/-- Whether a document has an entry. -/
def hasEntry (entry : String) : Value → Except ConfigFault Bool
  | .record fields => .ok (Table.has entry fields)
  | .list items => .ok (items.any (isText entry))
  | .text s => .ok (isPart entry.toList s.toList)
  | v => .error (.notSearchable v.typeName)

/-- Checks that a document has some entries. -/
def checkEntries (path : String) (document : Value) : List String → Except ConfigFault Unit
  | [] => .ok ()
  | entry :: rest => do
      if ← hasEntry entry document then checkEntries path document rest
      else .error (.missing entry path)

/-- The document that a text on disk holds, checked. -/
def read (path : String) : Option String → Except ConfigFault Value
  | none => .error (.notFound path)
  | some s =>
      match Yaml.read? s with
      | none => .error .malformed
      | some document => do
          checkEntries path document requiredEntries
          pure document

/-- The path of the configuration in a folder below another one. -/
def pathIn (root folder : String) : String :=
  let parts := (FileName.components folder.toList).map String.ofList
  String.intercalate "/" (root :: parts ++ ["config.yaml"])

def loadedLog (path : String) : List Log.Record :=
  [Log.Record.plain .info Registry.logger ("Loaded plugin configuration from " ++ path)]

end Config

/-- Configurations by path. -/
abbrev Shelf := Table Value

namespace Shelf

/-- The configuration at a path: the one on the shelf, or else the text on disk. -/
def load (s : Shelf) (path : String) (onDisk : Option String) : Except ConfigFault Value :=
  match s.get? path with
  | some document => .ok document
  | none => Config.read path onDisk

/-- The shelf after a configuration was asked for. -/
def afterLoad (s : Shelf) (path : String) (onDisk : Option String) : Shelf :=
  match s.load path onDisk with
  | .ok document => s.put path document
  | .error _ => s

def loadLog (s : Shelf) (path : String) (onDisk : Option String) : List Log.Record :=
  match s.get? path, s.load path onDisk with
  | none, .ok _ => Config.loadedLog path
  | _, _ => []

end Shelf

end GuardClause
