import GuardClause.Service.Basic

/-!
# Requests, responses and routes

The service is offered over HTTP. A request has a method, a path and possibly a body; a response
has a status and a body. The body of a request for edits is checked field by field, and a response
lists what is wrong with it.

Each resource that the service offers lies at one path and is asked for by one method. A path with
slashes at its end leads to the resource without them.
-/

namespace GuardClause.Http

/-- A request. The answer of the parser is part of it, because parsing happens outside. -/
structure Request where
  method : String
  path : String
  body : Value
  parsed : Parsed

structure Response where
  status : Nat
  body : Value

/-- A response that says in one sentence what went wrong. -/
def refusal (status : Nat) (detail : Value) : Response := ⟨status, .record [("detail", detail)]⟩

def stepValue : PathStep → Value
  | .field name => .text name
  | .item i => .int i

def complaintValue (c : Complaint) : Value :=
  .record [("type", .text c.defect.code), ("loc", .list (c.path.map stepValue)),
    ("msg", .text c.defect.message)]

/-- The response to a request whose body is not as it should be. -/
def unprocessable (complaints : List Complaint) : Response :=
  refusal 422 (.list (complaints.map complaintValue))

def readQuery (r : Table Value) : Checked Query :=
  (Reader.both (Reader.required Reader.text "content" r)
    (Reader.both (Reader.required Reader.natural "line" r)
      (Reader.both (Reader.required Reader.natural "column" r)
        (Reader.both (Reader.withDefault none (Reader.optional Reader.text) "language" r)
          (Reader.withDefault none (Reader.optional Reader.text) "file_path" r))))).map
    fun (content, line, column, language, file) =>
      ⟨content.toList, line, column, language, file⟩

/-- Reads the body of a request for edits. A body of null is a missing one. -/
def readBody (body : Value) : Checked Query :=
  Reader.under (.field "body") <| match body with
    | .null => Reader.complain .missing
    | v => Reader.record readQuery v

/-! ## Routes -/

/-- What can be asked for. -/
inductive Resource where
  | health
  /-- What the service is. -/
  | about
  | edits
  | languages
deriving DecidableEq, Repr

namespace Resource

def all : List Resource := [health, about, edits, languages]

def path : Resource → String
  | health => "/health"
  | about => "/"
  | edits => "/api/refactorings"
  | languages => "/api/refactorings/languages"

def method : Resource → String
  | edits => "POST"
  | _ => "GET"

def atPath? (path : String) : Option Resource := all.find? (·.path = path)

end Resource

/-- A path without the query after it. An empty path is that of the root. -/
def dropQuery (path : String) : String :=
  let bare := path.toList.takeWhile fun c => !(c = '?' || c = '#')
  if bare.isEmpty then "/" else String.ofList bare

/-- A path without the slashes at its end. -/
def dropSlashes (path : String) : String :=
  String.ofList (path.toList.reverse.dropWhile (· = '/')).reverse

/-- The resource that a path leads to. -/
def resource? (path : String) : Option Resource :=
  let path := dropQuery path
  (Resource.atPath? path).or (Resource.atPath? (dropSlashes path))

end GuardClause.Http
