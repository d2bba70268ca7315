import GuardClause.Log.ErrorText

/-!
# Log records

A record has a level, the name of its logger, a message, further fields, and possibly an error. It
is written as one line (`Record.line`), which also says when and where the record was made
(`Stamp`). Three fields stand at the top level of the line, the others under `context`.

Fields are attributes of a record, and so is the way in which its message is asked for. A field that
takes that name hides it, and then the record cannot be written.
-/

namespace GuardClause.Log

/-! ## Severities -/

/-- How severe a record is. -/
inductive Level where
  | debug
  | info
  | warning
  | error
  | critical
deriving DecidableEq, Repr

namespace Level

def name : Level → String
  | debug => "DEBUG"
  | info => "INFO"
  | warning => "WARNING"
  | error => "ERROR"
  | critical => "CRITICAL"

def severity : Level → Nat
  | debug => 10
  | info => 20
  | warning => 30
  | error => 40
  | critical => 50

end Level

/-- The names of thresholds, with their severities. Less severe records than the threshold are
dropped. -/
def thresholds : List (String × Nat) :=
  [("CRITICAL", 50), ("FATAL", 50), ("ERROR", 40), ("WARN", 30), ("WARNING", 30), ("INFO", 20),
    ("DEBUG", 10), ("NOTSET", 0)]

def threshold? (name : String) : Option Nat := thresholds.lookup name

/-! ## The attributes of a record -/

/-- The fields that stand at the top level of a written record. -/
def topFields : List String := ["request_id", "language", "file_path"]

/-- The names of a record's own attributes, which no further field may take. -/
def reservedFields : List String :=
  ["message", "asctime", "name", "msg", "args", "levelname", "levelno", "pathname", "filename",
    "module", "exc_info", "exc_text", "stack_info", "lineno", "funcName", "created", "msecs",
    "relativeCreated", "thread", "threadName", "processName", "process"]

/-- A field that is accepted and not written. -/
def silentField : String := "taskName"

/-- The attribute by which a record is asked for its message. It is not reserved. -/
def messageField : String := "getMessage"

structure Record where
  level : Level
  logger : String
  message : String
  fields : Table Value
  error : Option ErrorInfo

/-- When and where a record was made. -/
structure Stamp where
  time : String
  file : String
  line : Nat
  function : String

def Stamp.source (s : Stamp) : Value :=
  .record [("file", .text s.file), ("line", .int s.line), ("function", .text s.function)]

/-- Why a record cannot be written: in place of its message stands a value, of some type. -/
structure FormatFault where
  type : String
deriving DecidableEq, Repr

def FormatFault.message (f : FormatFault) : String := "'" ++ f.type ++ "' object is not callable"

namespace Record

/-- A record without further fields and without an error. -/
def plain (level : Level) (logger message : String) : Record :=
  ⟨level, logger, message, [], none⟩

/-! ## How a record is written -/

/-- The message that a record gives when it is asked for it. -/
def message? (r : Record) : Except FormatFault String :=
  match r.fields.get? messageField with
  | none => .ok r.message
  | some v => .error ⟨v.typeName⟩

/-- The fields of a record that stand at the top level of its written form. -/
def top (r : Record) : Table Value :=
  topFields.filterMap fun name => (r.fields.get? name).map fun v => (name, v)

/-- The fields of a record that stand under `context` in its written form. -/
def context (r : Record) : Table Value :=
  r.fields.filter fun f => !(topFields.contains f.1 || f.1 = silentField)

/-- The part of the written form that is told by the record alone. -/
def render (r : Record) : Table Value :=
  [("level", .text r.level.name), ("logger", .text r.logger), ("message", .text r.message)]
    ++ r.top
    ++ (if r.context.isEmpty then [] else [("context", .record r.context)])
    ++ (match r.error with
        | some e => [("error", e.render)]
        | none => [])

/-- The written form of a record, unless it does not give its message. -/
def line (r : Record) (s : Stamp) : Except FormatFault (Table Value) := do
  let message ← r.message?
  pure ([("timestamp", .text s.time)] ++ { r with message := message }.render
    ++ [("source", s.source)])

end Record

end GuardClause.Log
