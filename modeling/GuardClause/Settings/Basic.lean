import GuardClause.Settings.EnvFile
import GuardClause.Text.Unicode
import GuardClause.Validation.Reader

/-!
# Settings

The settings of the service come from the environment and from an environment file; the
environment wins. Names may be of either case. An unknown name is ignored in the environment,
which serves other programs too, and refused in the file.
-/

namespace GuardClause

/-- The settings of the service. -/
structure Settings where
  /-- The number of spaces by which new code is moved right for each level. -/
  indentWidth : Int := 4
  /-- The number of characters of the largest buffer that is accepted. -/
  maxSourceChars : Int := 2000000
  /-- The language of a buffer of which nothing else is known. -/
  defaultLanguage : String := "typescript"
  host : String := "0.0.0.0"
  /-- The number at which the host listens. -/
  listenPort : Int := 8000
  logLevel : String := "INFO"
deriving DecidableEq, Repr

namespace Settings

def names : List String :=
  ["indent_width", "max_source_chars", "default_language", "host", "port", "log_level"]

/-- A table with its names in lower case; of names that become equal the last one counts. -/
def withLowerNames {β : Type} (t : Table β) : Table β :=
  t.foldl (fun low e => low.put (Text.lowerCase e.1) e.2) []

/-- Reads the settings from given values; a setting without a value has its default. -/
def ofTable (given : Table Value) : Checked Settings :=
  let d : Settings := {}
  (Reader.both (Reader.withDefault d.indentWidth Reader.integer "indent_width" given)
    (Reader.both (Reader.withDefault d.maxSourceChars Reader.integer "max_source_chars" given)
      (Reader.both (Reader.withDefault d.defaultLanguage Reader.text "default_language" given)
        (Reader.both (Reader.withDefault d.host Reader.text "host" given)
          (Reader.both (Reader.withDefault d.listenPort Reader.integer "port" given)
            (Reader.withDefault d.logLevel Reader.text "log_level" given)))))).map
    fun (indentWidth, maxSourceChars, defaultLanguage, host, listenPort, logLevel) =>
      { indentWidth, maxSourceChars, defaultLanguage, host, listenPort, logLevel }

/-- The unknown names to which a file gives a value. -/
def unknownNames (file : Table (Option String)) : List String :=
  (file.filter fun e => !names.contains e.1 && e.2.any (!·.isEmpty)).map (·.1)

/-- Refuses names. -/
def refuse (unknown : List String) : Checked Unit :=
  if unknown.isEmpty then .ok ()
  else .error (unknown.map fun name => ⟨[.field name], .unknownField⟩)

/-- The values that a file gives to names. -/
def valuesOf (file : Table (Option String)) : Table Value :=
  file.filterMap fun e => e.2.map fun value => (e.1, .text value)

/-- The settings from an environment and the text of an environment file, if there is one. -/
def load (environment : Table String) (file : Option String) : Checked Settings :=
  let bound := match file with
    | some t => withLowerNames (EnvFile.table environment t.toList)
    | none => []
  let given := Table.merge (valuesOf bound)
    (withLowerNames (environment.map fun e => (e.1, .text e.2)))
  (Reader.both (ofTable given) (refuse (unknownNames bound))).map (·.1)

end Settings

end GuardClause
