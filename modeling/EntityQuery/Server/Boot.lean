/-
EntityQuery/Server/Boot.lean

Making a service ready: arguments, configuration, schema and store.

The four steps are taken in this order and the first that fails ends it.
Files come from a reader in some monad; a file that cannot be read has no
text.  Where a remote store is configured it is used and the seed is left
aside; else queries are answered from tables in memory, which a seed file may
fill.
-/
import EntityQuery.Catalog.Model
import EntityQuery.Json.Read
import EntityQuery.Response.Execution
import EntityQuery.Schema.Build
import EntityQuery.Server.Arguments
import EntityQuery.Store.Tables

namespace EntityQuery

/-- Why there is no schema. -/
inductive LoadError where
  | model (error : EntityModelError)
  | schema (error : SchemaError)
deriving DecidableEq, Repr

/-- Why a seed cannot be used. -/
inductive SeedError where
  | unreadable (path : String)
  | notJson (path : String)
  | notObject (path : String)
  | notList (entity : String)
  | store (error : StoreError)
deriving DecidableEq, Repr

/-- The wording of an error. -/
def SeedError.message : SeedError → String
  | .unreadable path => "reading seed file " ++ path
  | .notJson path => "seed file " ++ path ++ " is not JSON"
  | .notObject path => "seed file " ++ path ++ " must contain an object keyed by entity name"
  | .notList entity => "seed entries for " ++ entity ++ " must be a list"
  | .store error => error.message

/-- Why a service is not ready, by the step that failed. -/
inductive BootError where
  | arguments (error : ArgumentError)
  | config (error : ConfigError)
  | load (error : LoadError)
  | seed (error : SeedError)
deriving DecidableEq, Repr

/-- The wording of an error. -/
def BootError.message : BootError → String
  | .arguments error => error.message
  | .config error => error.message
  | .load (.model error) => error.message
  | .load (.schema error) => error.message
  | .seed error => error.message

/-- The store that queries are asked of. -/
inductive StoreChoice where
  | remote
  | memory (tables : Tables)

/-- A service that is ready. -/
structure Service.Ready where
  config : ServerConfig
  schema : QuerySchema
  store : StoreChoice

namespace Boot

/-! ### Schema -/

/-- The scalars of a service beside the ordinary ones. -/
def scalars : ScalarRegistry :=
  (ScalarRegistry.empty.register "JsonNode"
    (ScalarBinding.document "Json" "Json type").withContainment).register "VariableValue"
    (ScalarBinding.document "VariableValue" "VariableValue type")

/-- The parts of a path that name something; a single dot names nothing
behind the first part. -/
def pathParts (path : String) : List String :=
  match (path.splitOn "/").filter fun part => !part.isEmpty with
  | [] => []
  | first :: rest => first :: rest.filter (· ≠ ".")

/-- A file name up to its last dot; a dot at the beginning does not count. -/
def stemOf (name : List Char) : List Char :=
  let behind := name.reverse.takeWhile (· ≠ '.')
  let before := name.take (name.length - behind.length - 1)
  if before.isEmpty then name else before

/-- The name of a schema: the stem of the file that its model stands in. -/
def schemaName (path : String) : String :=
  match (pathParts path).getLast? with
  | none => "default"
  | some name => if name = "." || name = ".." then "default" else String.ofList (stemOf name.toList)

/-- The schema of a model file. -/
def loadSchema (path : String) (text : Option String) : Except LoadError QuerySchema := do
  let some text := text | throw (.model .unreadable)
  let entities ← (EntityModel.readText text).mapError .model
  (QuerySchema.build (schemaName path) entities scalars).mapError .schema

/-! ### Store -/

/-- The variables that together configure a remote store. -/
def remoteVariables : List String :=
  ["CLICKHOUSE_URL", "CLICKHOUSE_USER", "CLICKHOUSE_PASSWORD", "CLICKHOUSE_DATABASE"]

/-- Whether a remote store is configured. -/
def hasRemoteStore (environment : Environment) : Bool :=
  remoteVariables.all fun name => (environment name).isSome

/-- Fill tables with the objects of an entity. -/
def seedEntity (schema : QuerySchema) (tables : Tables) (entity : String) :
    Json → Except SeedError Tables
  | .array objects =>
    objects.foldlM (fun tables object =>
      (tables.insertEntity schema entity object).mapError .store) tables
  | _ => .error (.notList entity)

/-- The tables that a seed file fills. -/
def seedTables (schema : QuerySchema) (path : String) (text : Option String) :
    Except SeedError Tables := do
  let some text := text | throw (.unreadable path)
  let some document := Json.read? text | throw (.notJson path)
  let .object entries := document | throw (.notObject path)
  entries.foldlM (fun tables (entity, objects) => seedEntity schema tables entity objects)
    Tables.empty

/-! ### Steps -/

variable {m : Type → Type} [Monad m]

/-- A reader of files. -/
abbrev FileReader (m : Type → Type) := String → m (Option String)

/-- The configuration: that of a file, that of the environment, or that of
the options. -/
def configOf (files : FileReader m) (environment : Environment) (args : Arguments) :
    m (Except ConfigError ServerConfig) := do
  match args.value? .config with
  | some path => return ServerConfig.ofFile (← files path)
  | none =>
    return if args.fromEnvironment then ServerConfig.ofEnvironment environment else args.toConfig

/-- The store, seeded if there is a seed for it. -/
def storeOf (files : FileReader m) (environment : Environment) (schema : QuerySchema)
    (seed : Option String) : m (Except SeedError StoreChoice) := do
  if hasRemoteStore environment then return .ok .remote
  match seed with
  | none => return .ok (.memory Tables.empty)
  | some path => return (seedTables schema path (← files path)).map .memory

/-- A step whose error is one of booting. -/
def step {ε α : Type} (wrap : ε → BootError) (result : m (Except ε α)) : ExceptT BootError m α :=
  ExceptT.mk do return (← result).mapError wrap

/-- Make a service ready. -/
def run (files : FileReader m) (environment : Environment) (arguments : List String) :
    m (Except BootError Service.Ready) := ExceptT.run do
  let args ← step .arguments (pure (Arguments.read arguments) : m _)
  let config ← step .config (configOf files environment args)
  let path := config.entityModelPath
  let schema ← step .load (do return loadSchema path (← files path) : m _)
  let store ← step .seed (storeOf files environment schema (args.value? .seed))
  return ⟨config, schema, store⟩

end Boot

/-- The executor of a service. -/
def Service.Ready.executor (service : Service.Ready) : Executor :=
  ⟨service.schema, service.config.maxResultRows⟩

namespace StoreChoice

/-- Whether the store of a service gives up on a query. -/
def givesUp [Store.Disorder] (store : StoreChoice) (query : Query) : Bool :=
  match store with
  | .memory tables => tables.givesUp query
  | .remote => false

/-- Ask the store of a service.  A remote store is out of reach here. -/
def ask [Store.Disorder] (store : StoreChoice) (query : Query) : Except StoreError (List Row) :=
  match store with
  | .memory tables => tables.run query
  | .remote => .error (.remote "the remote store cannot be reached")

/-- The answer of the store of a service, unless it gives up. -/
def ask? [Store.Disorder] (store : StoreChoice) (query : Query) :
    Option (Except StoreError (List Row)) :=
  if store.givesUp query then none else some (store.ask query)

end StoreChoice

end EntityQuery
