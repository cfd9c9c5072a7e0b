/-
EntityQuery/Server/Http.lean

The server's answers to HTTP requests.

Three paths are served: the state of the service, the execution of a query
and the text of the schema.  A request is refused for its path first, then
for its method, for the type of its body, for its size, and last for what the
body holds.  A query that fails is answered all the same, with its errors in
the body of the reply.
-/
import EntityQuery.Response.Execution
import EntityQuery.Schema.Sdl
import EntityQuery.Server.MediaType
import EntityQuery.Server.Request

namespace EntityQuery

/-- A request. -/
structure HttpRequest where
  method : String
  target : String
  contentType : Option String
  body : String

/-- A reply.  One that refuses a request has no content. -/
structure HttpReply where
  status : Nat
  contentType : Option String
  body : String
deriving DecidableEq, Repr

namespace Service

/-! ### Replies -/

/-- The name of the service. -/
def name : String := "gqlbridge"

/-- The version of the service. -/
def version : String := "0.2.0-dev"

/-- The greatest number of bytes in a body. -/
def maxBodyBytes : Nat := 1024 * 1024

/-- A reply that refuses a request. -/
def refuse (status : Nat) : HttpReply := ⟨status, none, ""⟩

/-- A reply with JSON. -/
def json (value : Json) : HttpReply := ⟨200, some "application/json", value.text⟩

/-- The reply of the state of the service. -/
def health (schema : QuerySchema) : HttpReply :=
  json (.object [("service", .string name), ("status", .string "healthy"),
    ("version", .string version), ("schema", .string schema.name),
    ("roots", .array (schema.rootNames.map .string))])

/-- The reply with the text of the schema. -/
def schemaText (schema : QuerySchema) : HttpReply :=
  ⟨200, some "application/graphql; charset=utf-8", schema.sdl⟩

/-- The same reply without its body. -/
def withoutBody (reply : HttpReply) : HttpReply := { reply with body := "" }

/-! ### Requests -/

/-- What is served. -/
inductive Route where
  | health
  | query
  | schema
deriving DecidableEq, Repr

/-- Whether a character ends the authority of a target. -/
def endsAuthority (c : Char) : Bool := c = '/' || c = '?' || c = '#'

/-- A character of a scheme. -/
def isSchemePart (c : Char) : Bool := c.isAlphanum || c = '+' || c = '-' || c = '.'

/-- A target without the scheme and the authority that it may begin with. -/
def withoutOrigin (target : List Char) : List Char :=
  match target.dropWhile isSchemePart with
  | ':' :: '/' :: '/' :: rest => rest.dropWhile fun c => !endsAuthority c
  | _ => target

/-- The path of a target, without its query and fragment. -/
def pathOf (target : String) : String :=
  String.ofList ((withoutOrigin target.toList).takeWhile fun c => c ≠ '?' && c ≠ '#')

/-- What is served at a path. -/
def routeOf? (path : String) : Option Route :=
  if path = "/health" then some .health
  else if path = "/graphql" then some .query
  else if path = "/schema" then some .schema
  else none

/-- Whether the body of a request is declared to be JSON. -/
def declaresJson (request : HttpRequest) : Bool :=
  match request.contentType.bind MediaType.read? with
  | some type => type.isJson
  | none => false

/-- The query request in a body, or the status that refuses it. -/
def queryRequest (request : HttpRequest) : Except Nat QueryRequest :=
  if !declaresJson request then .error 415
  else if maxBodyBytes < request.body.utf8ByteSize then .error 413
  else
    match QueryRequest.read request.body with
    | .ok query => .ok query
    | .error .notJson => .error 400
    | .error .wrongShape => .error 422

/-- A reply that is only read, by its method. -/
def readOnly (request : HttpRequest) (reply : HttpReply) : HttpReply :=
  if request.method = "GET" then reply
  else if request.method = "HEAD" then withoutBody reply
  else refuse 405

variable {m : Type → Type} [Monad m]

/-- The reply to a query. -/
def query (x : Executor) (source : RowSource m) (request : HttpRequest) : m HttpReply :=
  if request.method ≠ "POST" then pure (refuse 405)
  else
    match queryRequest request with
    | .error status => pure (refuse status)
    | .ok q => do
      return json (← x.execute source q.document q.operationName q.vars).toJson

/-- The reply to a request. -/
def reply (x : Executor) (source : RowSource m) (request : HttpRequest) : m HttpReply :=
  match routeOf? (pathOf request.target) with
  | none => pure (refuse 404)
  | some .health => pure (readOnly request (health x.schema))
  | some .schema => pure (readOnly request (schemaText x.schema))
  | some .query => query x source request

end Service

end EntityQuery
