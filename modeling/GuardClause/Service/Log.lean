import GuardClause.Log.Request
import GuardClause.Service.Basic

/-!
# What the service logs

A query leaves the records of the search for a language, of the parser and of the refactorings
that do not apply, and at the end one record that says how it went. The last record bears the
identifier of the request.
-/

namespace GuardClause

/-- The kinds of failures that logs name. -/
def QueryFault.kind : QueryFault → String
  | tooLarge _ _ => "flipper.services.refactoring_service.SourceTooLargeError"
  | unsupported _ => "flipper.services.refactoring_service.UnsupportedLanguageError"
  | unparsed .unnamed => "KeyError"
  | unparsed (.unreadable _ _) => "ValueError"
  | failed (.shape _) => "flipper.engine.errors.PreconditionError"
  | failed .danglingLink => "IndexError"
  | failed .circularLinks => "RecursionError"
  | failed (.invalid _) => "ValidationError"

/-- A failure as it stands in a log record. -/
def QueryFault.errorInfo (f : QueryFault) : Log.ErrorInfo := ⟨f.kind, f.message⟩

namespace Service

def logger : String := "flipper.services.refactoring_service"

def selectLog (s : Service) (language file : Option String) : List Log.Record :=
  match hint language, hint file with
  | none, some path => s.registry.ofFileLog path
  | _, _ => []

/-- The logger of one request. -/
def requestLogger (requestId : String) : Log.Adapter :=
  (Log.Adapter.mk logger []).withContext [("request_id", .text requestId)]

/-- The record that an adapter makes, if it makes one. -/
def recordOf (a : Log.Adapter) (level : Log.Level) (message : String) (fields : Table Value)
    (error : Option Log.ErrorInfo) : List Log.Record :=
  (a.record level message fields error).toOption.toList

/-- The record of an answered query. `took` is the time it took. -/
def answeredLog (requestId language : String) (q : Query) (edits : List Edit)
    (took : Option Value) : List Log.Record :=
  let summary : Log.RequestSummary :=
    ⟨.text requestId, .text language, q.line, q.column, edits.length, took⟩
  recordOf (requestLogger requestId) .info summary.message summary.fields none

/-- The record of a failed query. Only refactorings that cannot be carried out are recorded. -/
def failedLog (requestId language : String) (q : Query) (f : Fault) : List Log.Record :=
  match f with
  | .shape _ =>
      recordOf (requestLogger requestId) .error "Refactoring failed"
        [("language", .text language), ("line", .int q.line), ("column", .int q.column)]
        (some (QueryFault.failed f).errorInfo)
  | _ => []

/-- The records of the refactorings and of the outcome. -/
def surveyLog (s : Service) (requestId language : String) (q : Query) (a : Arena)
    (took : Option Value) : List Log.Record :=
  let survey := a.survey (a.buffer.offsetOf q.line q.column) s.indentWidth
  survey.refusals.map Refusal.record ++
    match survey.outcome with
    | .ok edits => answeredLog requestId language q edits took
    | .error f => failedLog requestId language q f

def proposeLog (s : Service) (requestId : String) (q : Query) (parsed : Parsed)
    (took : Option Value) : List Log.Record :=
  match s.checkSize q.content with
  | .error _ => []
  | .ok () =>
      s.selectLog q.language q.file ++
        match s.select q.language q.file with
        | .error _ => []
        | .ok found =>
            found.content.parseLog q.content parsed ++
              match found.content.parse q.content parsed with
              | .error _ => []
              | .ok a => s.surveyLog requestId found.name q a took

end Service

end GuardClause
