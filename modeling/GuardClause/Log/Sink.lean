import GuardClause.Log.Record

/-!
# Loggers with context, and where their records go

An adapter is a logger that adds its own fields, its context, to every record. Where a record
brings a field of the same name, the context wins. A scope replaces the context of an adapter for
a while: entering it keeps the present context aside and leaving it brings that context back.

Records pass two thresholds: that of their logger and that of the output. Before the first setup
there is no output. A setup gives both the output and the loggers one threshold, except that two
talkative loggers and those below them drop everything less severe than a warning.
-/

namespace GuardClause.Log

/-! ## Adapters and scopes -/

/-- Why a record cannot be made. -/
inductive RecordFault where
  /-- A field has the name of one of the record's own attributes. -/
  | reserved (field : String)
  /-- The further fields are given as null. -/
  | noFields
deriving DecidableEq, Repr

def RecordFault.message : RecordFault → String
  | reserved field => "Attempt to overwrite " ++ Text.quoted field ++ " in LogRecord"
  | noFields => "'NoneType' object has no attribute 'update'"

/-- A logger with a context. -/
structure Adapter where
  logger : String
  context : Table Value

namespace Adapter

/-- An adapter of the same logger with further fields in its context. -/
def withContext (a : Adapter) (fields : Table Value) : Adapter :=
  { a with context := a.context.merge fields }

/-- What becomes of the fields that a call gives: those of the context come in, in place of fields
of the same names. -/
def process (a : Adapter) (own : Table Value) : Table Value := own.merge a.context

/-- The record that the adapter makes, unless a field has a reserved name. -/
def record (a : Adapter) (level : Level) (message : String) (own : Table Value)
    (error : Option ErrorInfo) : Except RecordFault Record :=
  let fields := a.process own
  match fields.keys.find? (reservedFields.contains ·) with
  | some field => .error (.reserved field)
  | none => .ok ⟨level, a.logger, message, fields, error⟩

end Adapter

/-- The context that an adapter had when a scope was entered. -/
structure Scope where
  saved : Table Value

namespace Scope

/-- Entering a scope adds fields to the context of an adapter. -/
def enter (a : Adapter) (fields : Table Value) : Scope × Adapter :=
  (⟨a.context⟩, a.withContext fields)

/-- Leaving a scope brings the saved context back, whatever happened since. -/
def leave (s : Scope) (a : Adapter) : Adapter := { a with context := s.saved }

end Scope

/-! ## Thresholds -/

/-- The thresholds in force. -/
structure Sink where
  general : Nat := Level.warning.severity
  /-- The threshold of the output, once there is one. -/
  output : Option Nat := none

/-- The loggers that are kept quiet. -/
def quietLoggers : List String := ["uvicorn.access", "httpx"]

/-- Whether one logger is another or lies below it in the hierarchy of dotted names. -/
def isWithin (ancestor logger : String) : Bool :=
  logger = ancestor || (ancestor ++ ".").toList.isPrefixOf logger.toList

/-- The name that the records of a logger bear. -/
def loggerName (name : String) : String := if name.isEmpty then "root" else name

namespace Sink

/-- The thresholds after a setup; no setup has an unknown threshold. -/
def setup? (threshold : String) : Option Sink :=
  (threshold? threshold).map fun t => ⟨t, some t⟩

def thresholdOf (s : Sink) (logger : String) : Nat :=
  if s.output.isSome && quietLoggers.any (isWithin · logger) then Level.warning.severity
  else s.general

/-- Whether a record is made at all. -/
def isEnabled (s : Sink) (logger : String) (level : Level) : Bool :=
  s.thresholdOf logger ≤ level.severity

/-- Whether a record that was made comes to the output. -/
def writes (s : Sink) (level : Level) : Bool :=
  match s.output with
  | some t => t ≤ level.severity
  | none => false

/-- The records that are written when one was made: none if it does not come to the output, and
none if it cannot be written there. The caller is not told. -/
def emit (s : Sink) (r : Record) : List Record :=
  if s.writes r.level && r.message?.isOk then [r] else []

/-- The records written for one call. Nothing is looked at unless the logger's threshold is
reached. -/
def log (s : Sink) (a : Adapter) (level : Level) (message : String) (own : Option (Table Value))
    (error : Option ErrorInfo) : Except RecordFault (List Record) :=
  if s.isEnabled a.logger level then
    match own with
    | none => .error .noFields
    | some fields => do
        let r ← a.record level message fields error
        pure (s.emit r)
  else pure []

end Sink

end GuardClause.Log
