import GuardClause.Http.Message
import GuardClause.Service.Log

/-!
# Answers

`Http.answer` is the response to a request and `Http.answerLog` is what is logged about it. A
request for edits picks the language by all hints and then proposes edits for the language so
picked. An unknown language is the client's fault, and so is a buffer that is too large; any other
failure is an internal one.
-/

namespace GuardClause.Http

def version : String := "0.1.0"

def logger : String := "flipper.api.refactorings"

/-- The languages on offer, with their file extensions, provided that each one is found by the
name under which it is listed. -/
def languages? (s : Service) : Option (List Value) :=
  s.registry.names.mapM fun name =>
    (s.registry.find? name).map fun r =>
      .record [("name", .text name), ("file_extensions", Value.texts r.extensions)]

/-- The query for a language that was picked. The file counts no more. -/
def withLanguage (q : Query) (language : String) : Query :=
  { q with language := some language, file := none }

/-- The name of the language and the edits for a query. -/
def proposeEdits (s : Service) (q : Query) (parsed : Parsed) :
    Except QueryFault (String × List Edit) := do
  let found ← (s.select q.language q.file).mapError .unsupported
  let edits ← s.propose (withLanguage q found.name) parsed
  pure (found.name, edits)

def failure : QueryFault → Response
  | .unsupported u => refusal 400 (.text u.message)
  | .tooLarge size limit => refusal 413 (.text (QueryFault.tooLarge size limit).message)
  | _ => refusal 500 (.text "Internal server error")

def editsResponse (s : Service) (q : Query) (parsed : Parsed) : Response :=
  match proposeEdits s q parsed with
  | .ok (language, edits) =>
      ⟨200, .record [("language", .text language), ("edits", .list (edits.map Edit.toValue))]⟩
  | .error f => failure f

def failureLog (f : QueryFault) : List Log.Record :=
  match f with
  | .unsupported u => [Log.Record.plain .warning logger ("Unsupported language: " ++ u.message)]
  | .tooLarge _ _ => [Log.Record.plain .warning logger ("Source too large: " ++ f.message)]
  | _ =>
      [{ Log.Record.plain .error logger ("Error proposing refactorings: " ++ f.message) with
          error := some f.errorInfo }]

def editsLog (s : Service) (requestId : String) (q : Query) (parsed : Parsed)
    (took : Option Value) : List Log.Record :=
  s.selectLog q.language q.file ++
    (match s.select q.language q.file with
      | .error _ => []
      | .ok found => s.proposeLog requestId (withLanguage q found.name) parsed took) ++
    (match proposeEdits s q parsed with
      | .ok _ => []
      | .error f => failureLog f)

/-- The response to a request for a resource by the right method. -/
def serve (s : Service) (r : Request) : Resource → Response
  | .health => ⟨200, .record [("status", .text "healthy"), ("version", .text version)]⟩
  | .about =>
      ⟨200, .record [("message", .text "if-flipper refactoring API"), ("version", .text version),
        ("docs", .text "/docs")]⟩
  | .languages =>
      match languages? s with
      | some listed => ⟨200, .list listed⟩
      | none => ⟨500, .text "Internal Server Error"⟩
  | .edits =>
      match readBody r.body with
      | .ok q => editsResponse s q r.parsed
      | .error complaints => unprocessable complaints

def answer (s : Service) (r : Request) : Response :=
  match resource? r.path with
  | none => refusal 404 (.text "Not Found")
  | some resource =>
      if r.method = resource.method then serve s r resource
      else refusal 405 (.text "Method Not Allowed")

def answerLog (s : Service) (requestId : String) (r : Request) (took : Option Value) :
    List Log.Record :=
  match resource? r.path, readBody r.body with
  | some .edits, .ok q =>
      if r.method = Resource.edits.method then editsLog s requestId q r.parsed took else []
  | _, _ => []

def mainLogger : String := "flipper.main"

/-- What is logged when the service starts with the bundled languages, whose configurations lie
in a folder. -/
def startLog (folder : String) : List Log.Record :=
  [Log.Record.plain .info mainLogger "Starting if-flipper API"]
    ++ Registry.bundledLog folder
    ++ [Log.Record.plain .info mainLogger
        ("Refactoring service initialized for languages: " ++
          Text.quotedList (Registry.bundled.names))]

end GuardClause.Http
