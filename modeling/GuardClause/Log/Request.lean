import GuardClause.Decimal
import GuardClause.Log.Memory

/-!
# Requests and errors in the log

A request that was answered is logged with its place in the buffer, the number of proposed edits
and possibly the time it took, in milliseconds to two places. An error is logged with further fields
that the caller chooses.
-/

namespace GuardClause.Log

/-- What is logged about an answered request. -/
structure RequestSummary where
  requestId : Value
  language : Value
  line : Int
  column : Int
  editCount : Int
  duration : Option Value

namespace RequestSummary

/-- A time to two places; an integer stays as it is. -/
def roundDuration : Value → Value
  | .real d => .real (d.round 2)
  | v => v

def message (s : RequestSummary) : String :=
  "Proposed " ++ toString s.editCount ++ " refactoring(s) at " ++ toString s.line ++ ":" ++
    toString s.column

def fields (s : RequestSummary) : Table Value :=
  [("request_id", s.requestId), ("language", s.language), ("line", .int s.line),
    ("column", .int s.column), ("edit_count", .int s.editCount)]
    ++ (match s.duration with
        | some d => [("duration_ms", roundDuration d)]
        | none => [])

end RequestSummary

namespace Memory

/-- A call that logs an answered request. -/
def logRequest (m : Memory) (s : Sink) (h : Handle) (r : RequestSummary) :
    Except RecordFault (List Record) × Memory :=
  m.logFresh s h .info r.message r.fields none

/-- A call that logs an error. -/
def logError (m : Memory) (s : Sink) (h : Handle) (message : String) (error : Option ErrorInfo)
    (context : Table Value) : Except RecordFault (List Record) × Memory :=
  m.logFresh s h .error message context error

end Memory

end GuardClause.Log
