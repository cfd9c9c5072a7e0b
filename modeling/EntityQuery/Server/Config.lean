/-
EntityQuery/Server/Config.lean

The configuration of the server, from the environment or from YAML text.

A configuration that has been read is checked as a whole
(`ServerConfig.validate`), and all its faults are reported together, in the
order of the names of the members.
-/
import EntityQuery.Text.Blank
import EntityQuery.Yaml.Read

namespace EntityQuery

/-- The configuration of the server.  Without a cap on rows every result is
answered. -/
structure ServerConfig where
  httpHost : String
  httpPort : Nat
  entityModelPath : String
  maxResultRows : Option Nat
  requestTimeout : Nat
deriving DecidableEq, Repr

/-- Something that a configuration must not be. -/
inductive ConfigFault where
  | emptyModelPath
  | emptyHost
  | portRange
  | noRows
  | timeoutRange
deriving DecidableEq, Repr

namespace ConfigFault

/-- The name of the member at fault. -/
def member : ConfigFault → String
  | .emptyModelPath => "entity_model_path"
  | .emptyHost => "http_host"
  | .portRange => "http_port"
  | .noRows => "max_result_rows"
  | .timeoutRange => "request_timeout_secs"

/-- The wording of a fault. -/
def message : ConfigFault → String
  | .emptyModelPath => "Entity model path cannot be empty"
  | .emptyHost => "HTTP host cannot be empty"
  | .portRange => "HTTP port must be between 1 and 65535"
  | .noRows => "Max result rows must be at least 1"
  | .timeoutRange => "Request timeout must be between 1 and 3600 seconds"

end ConfigFault

/-- Why there is no configuration. -/
inductive ConfigError where
  | invalid (faults : List ConfigFault)
  | variable (name value : String) (fault : IntegerFault)
  | unreadableFile
  | malformedFile
deriving DecidableEq, Repr

/-- The wording of an error. -/
def ConfigError.message : ConfigError → String
  | .invalid faults => "\n".intercalate (faults.map fun f => f.member ++ ": " ++ f.message)
  | .variable name value fault =>
    "Parse error for " ++ name ++ ": " ++ value ++ " - " ++ fault.message
  | .unreadableFile => "Cannot read the configuration file"
  | .malformedFile => "Cannot parse the configuration file"

/-- The values of environment variables. -/
abbrev Environment := String → Option String

namespace ServerConfig

/-- The configuration that holds where nothing is said. -/
def default : ServerConfig := ⟨"0.0.0.0", 8080, "entity_model.yaml", none, 30⟩

/-! ### Checking -/

/-- The faults of a configuration. -/
def faults (c : ServerConfig) : List ConfigFault :=
  (if c.entityModelPath.isEmpty then [.emptyModelPath] else []) ++
  (if c.httpHost.isEmpty then [.emptyHost] else []) ++
  (if 1 ≤ c.httpPort ∧ c.httpPort ≤ 65535 then [] else [.portRange]) ++
  (if c.maxResultRows = some 0 then [.noRows] else []) ++
  (if 1 ≤ c.requestTimeout ∧ c.requestTimeout ≤ 3600 then [] else [.timeoutRange])

/-- A configuration without faults. -/
def validate (c : ServerConfig) : Except ConfigError ServerConfig :=
  if c.faults.isEmpty then .ok c else .error (.invalid c.faults)

/-! ### Reading the environment -/

/-- The variables that a configuration is read from. -/
def variableNames : List String :=
  ["GQLBRIDGE_HOST", "GQLBRIDGE_PORT", "GQLBRIDGE_ENTITY_MODEL", "GQLBRIDGE_MAX_RESULT_ROWS",
   "GQLBRIDGE_REQUEST_TIMEOUT"]

/-- A number that a variable holds; `given` where it is not set. -/
def variableNumber (range : IntegerRange) (environment : Environment) (name : String)
    (given : Nat) : Except ConfigError Nat :=
  match environment name with
  | none => .ok given
  | some value =>
    match range.read value with
    | .ok i => .ok i.toNat
    | .error fault => .error (.variable name value fault)

/-- A number that a variable may hold, with blanks around it; a blank
variable holds none. -/
def optionalNumber (range : IntegerRange) (environment : Environment) (name : String) :
    Except ConfigError (Option Nat) :=
  match environment name with
  | none => .ok none
  | some value =>
    if (Text.trimmed value).isEmpty then .ok none
    else
      match range.read (Text.trimmed value) with
      | .ok i => .ok (some i.toNat)
      | .error fault => .error (.variable name value fault)

/-- The configuration that the environment gives. -/
def ofEnvironment (environment : Environment) : Except ConfigError ServerConfig := do
  let httpHost := (environment "GQLBRIDGE_HOST").getD default.httpHost
  let httpPort ← variableNumber .nat16 environment "GQLBRIDGE_PORT" default.httpPort
  let entityModelPath := (environment "GQLBRIDGE_ENTITY_MODEL").getD default.entityModelPath
  let maxResultRows ← optionalNumber .nat64 environment "GQLBRIDGE_MAX_RESULT_ROWS"
  let requestTimeout ←
    variableNumber .nat64 environment "GQLBRIDGE_REQUEST_TIMEOUT" default.requestTimeout
  validate ⟨httpHost, httpPort, entityModelPath, maxResultRows, requestTimeout⟩

/-! ### Reading YAML -/

/-- A member read in some way, or what is given where it is absent. -/
def memberOr {α : Type} (read : Yaml → Option α) (given : α) (members : List (String × Yaml))
    (name : String) : Option α :=
  match members.lookup name with
  | some value => read value
  | none => some given

/-- A number of a range. -/
def number? (range : IntegerRange) (value : Yaml) : Option Nat :=
  (value.integer? range).map Int.toNat

/-- A number of a range, or null. -/
def optionalNumber? (range : IntegerRange) (value : Yaml) : Option (Option Nat) :=
  if value.isNull then some none else (number? range value).map some

/-- The configuration of a record; members that are absent take their
defaults. -/
def ofYaml? (value : Yaml) : Option ServerConfig := do
  let members ← value.record?
    ["http_host", "http_port", "entity_model_path", "max_result_rows", "request_timeout_secs"]
  let httpHost ← memberOr Yaml.text? default.httpHost members "http_host"
  let httpPort ← memberOr (number? .nat16) default.httpPort members "http_port"
  let entityModelPath ← memberOr Yaml.text? default.entityModelPath members "entity_model_path"
  let maxResultRows ← memberOr (optionalNumber? .nat64) none members "max_result_rows"
  let requestTimeout ←
    memberOr (number? .nat64) default.requestTimeout members "request_timeout_secs"
  return ⟨httpHost, httpPort, entityModelPath, maxResultRows, requestTimeout⟩

/-- The configuration that a file holds; a file that cannot be read has no
text. -/
def ofFile (text : Option String) : Except ConfigError ServerConfig := do
  let some text := text | throw .unreadableFile
  let some config := (Yaml.read? text).bind ofYaml? | throw .malformedFile
  config.validate

end ServerConfig

end EntityQuery
