/-
EntityQuery/Response/Execution.lean

Executing a document: parse it, plan every root field, ask the store once for
each, and put the answers together.

A root that fails is answered with null beside an error, and the other roots
still run.  Only a document that cannot be parsed, or whose operation is not
the one asked for, is answered without data.
-/
import EntityQuery.Document.Describe
import EntityQuery.Document.Request
import EntityQuery.Planning.Root
import EntityQuery.Response.Reshape
import EntityQuery.Store.Eval

namespace EntityQuery

/-! ### Errors -/

/-- Why a request, or one root of it, has no answer. -/
inductive ExecutionError where
  | syntaxError (report : String)
  | plan (error : PlanError)
  | store (error : StoreError)
  | decode (error : DecodeError)
  | unknownOperation (name : String)
  | rowLimit (limit : Nat)
deriving DecidableEq, Repr

namespace ExecutionError

/-- The wording of an error. -/
def message : ExecutionError → String
  | .syntaxError report => "Query parse error: " ++ report
  | .plan error => error.message
  | .store error => "Store execution failed: " ++ error.message
  | .decode error => "Cannot decode value of '" ++ error.column ++ "': " ++ error.message
  | .unknownOperation name => "Unknown operation named '" ++ name ++ "'"
  | .rowLimit limit =>
    "Result exceeds the limit of " ++ toString limit ++ " rows; narrow the filter"

/-- The class of an error, as clients see it. -/
def classification : ExecutionError → String
  | .syntaxError _ => "InvalidSyntax"
  | .plan _ => "ValidationError"
  | .unknownOperation _ => "ValidationError"
  | .store _ => "ExecutionAborted"
  | .rowLimit _ => "ExecutionAborted"
  | .decode _ => "DataFetchingException"

end ExecutionError

/-- An error at a root, or of the whole request. -/
structure ErrorEntry where
  error : ExecutionError
  path : List String
deriving DecidableEq, Repr

/-- The answer to a request. -/
structure Response where
  data : Option (Keyed Json)
  errors : List ErrorEntry

namespace Response

/-- The answer to a request that failed as a whole. -/
def ofError (error : ExecutionError) : Response := ⟨none, [⟨error, []⟩]⟩

/-- Whether nothing failed. -/
def isOk (r : Response) : Bool := r.errors.isEmpty

/-- The requested objects of a root: the list under the first member of its
answer. -/
def selected? (r : Response) (key : String) : Option (List Json) := do
  match ← Keyed.find? (← r.data) key with
  | .object ((_, .array items) :: _) => some items
  | _ => none

/-- An error as clients see it. -/
def entryJson (e : ErrorEntry) : Json :=
  .object (
    [("message", .string e.error.message)] ++
    (if e.path.isEmpty then [] else [("path", .array (e.path.map .string))]) ++
    [("classification", .string e.error.classification)])

/-- The answer as clients see it; parts that are empty are left out. -/
def toJson (r : Response) : Json :=
  .object (
    (match r.data with
      | some data => [("data", .object data)]
      | none => []) ++
    (if r.errors.isEmpty then [] else [("errors", .array (r.errors.map entryJson))]))

end Response

/-! ### Execution -/

/-- A way of asking a store for the rows of a query. -/
abbrev RowSource (m : Type → Type) := Query → m (Except StoreError (List Row))

/-- What requests are executed with: a schema, and a cap on the rows of a
root. -/
structure Executor where
  schema : QuerySchema
  maxRows : Option Nat

namespace Executor

/-- The greatest limit a query can have. -/
def greatestLimit : Nat := 18446744073709551615

/-- The limit of the queries of an executor: one row past the cap tells a
full result from one that was cut off. -/
def limit (x : Executor) : Option Nat := x.maxRows.map fun cap => min (cap + 1) greatestLimit

/-- The query that an executor asks the store for. -/
def query (x : Executor) (plan : RootPlan) : Query := { plan.query with limit := x.limit }

/-- Refuse more rows than the cap. -/
def checkRows (x : Executor) (rows : List Row) : Except ExecutionError Unit :=
  match x.maxRows with
  | some cap => if cap < rows.length then .error (.rowLimit cap) else .ok ()
  | none => .ok ()

/-- The answer of a root from what the store gave. -/
def answer (x : Executor) (plan : RootPlan) (reply : Except StoreError (List Row)) :
    Except ExecutionError Json := do
  let rows ← reply.mapError .store
  x.checkRows rows
  let objects ← (Reshape.objects rows plan.selection.node).mapError .decode
  return .object [(plan.selection.selectKey, .array objects)]

variable {m : Type → Type} [Monad m]

/-- Execute one root field. -/
def executeRoot (x : Executor) (source : RowSource m) (vars : Variables)
    (field : Document.Field) : m (Except ExecutionError Json) :=
  match Planning.planRootField x.schema vars field with
  | .error e => pure (.error (.plan e))
  | .ok plan => do
    let reply ← source (x.query plan)
    return x.answer plan reply

/-- Execute root fields one after another, on top of what there is. -/
def executeRoots (x : Executor) (source : RowSource m) (vars : Variables)
    (data : Keyed Json) (errors : List ErrorEntry) : List Document.Field → m Response
  | [] => return ⟨some data, errors⟩
  | field :: fields => do
    let key := field.responseKey
    if Keyed.contains data key then
      executeRoots x source vars data
        (errors ++ [⟨.plan (.duplicateResponseKey key), [key]⟩]) fields
    else
      match ← x.executeRoot source vars field with
      | .ok value => executeRoots x source vars (data ++ [(key, value)]) errors fields
      | .error e =>
        executeRoots x source vars (data ++ [(key, .null)]) (errors ++ [⟨e, [key]⟩]) fields

/-- Execute a parsed operation. -/
def executeOperation (x : Executor) (source : RowSource m) (operation : Document.Operation)
    (supplied : Variables) : m Response :=
  executeRoots x source (Planning.bindVariables operation.definitions supplied) [] []
    operation.selection

/-- Execute a document; with an operation name given, only an operation of
that name. -/
def execute (x : Executor) (source : RowSource m) (document : String)
    (operationName : Option String) (supplied : Variables) : m Response :=
  match Document.parse document with
  | .error trail => pure (.ofError (.syntaxError (trail.describe document)))
  | .ok operation =>
    match operationName with
    | none => x.executeOperation source operation supplied
    | some requested =>
      if operation.name = some requested then x.executeOperation source operation supplied
      else pure (.ofError (.unknownOperation requested))

end Executor

end EntityQuery
