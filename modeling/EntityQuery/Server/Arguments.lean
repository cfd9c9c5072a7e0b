/-
EntityQuery/Server/Arguments.lean

The arguments of the command line.

An option takes one value, behind an equals sign or as the next argument; it
is settled, and its value looked at, only when the next option comes or the
arguments end.  An argument that is not known is refused before the option
that is still open.
-/
import EntityQuery.Server.Config

namespace EntityQuery

/-- An option with a value. -/
inductive ServerOption where
  | httpHost
  | httpPort
  | entityModel
  | maxResultRows
  | requestTimeout
  | config
  | seed
deriving DecidableEq, Repr

namespace ServerOption

/-- All options. -/
def all : List ServerOption :=
  [.httpHost, .httpPort, .entityModel, .maxResultRows, .requestTimeout, .config, .seed]

/-- The name of an option, after its dashes. -/
def name : ServerOption → String
  | .httpHost => "http-host"
  | .httpPort => "http-port"
  | .entityModel => "entity-model"
  | .maxResultRows => "max-result-rows"
  | .requestTimeout => "request-timeout"
  | .config => "config"
  | .seed => "seed"

/-- The option of a name. -/
def ofName? (name : String) : Option ServerOption := all.find? (·.name = name)

/-- The number that a text spells for an option. -/
def number? (option : ServerOption) (text : String) : Option Nat :=
  match option with
  | .httpPort =>
    match IntegerRange.int64.read text with
    | .ok i => if IntegerRange.nat16.has i then some i.toNat else none
    | .error _ => none
  | _ =>
    match IntegerRange.nat64.read text with
    | .ok i => some i.toNat
    | .error _ => none

/-- Whether the value of an option is a number. -/
def isNumeric : ServerOption → Bool
  | .httpPort => true
  | .maxResultRows => true
  | .requestTimeout => true
  | _ => false

/-- Whether an option takes a value. -/
def accepts (option : ServerOption) (value : String) : Bool :=
  !option.isNumeric || (option.number? value).isSome

end ServerOption

/-- Why arguments are not run with.  A request for help or for the version
is one of the reasons. -/
inductive ArgumentError where
  | missingValue
  | invalidValue
  | unknownArgument
  | conflict
  | unwantedValue
  | helpRequested
  | versionRequested
deriving DecidableEq, Repr

/-- The wording of an error. -/
def ArgumentError.message : ArgumentError → String
  | .missingValue => "an option lacks its value"
  | .invalidValue => "an option has an invalid value"
  | .unknownArgument => "unexpected argument"
  | .conflict => "arguments cannot be used together"
  | .unwantedValue => "a flag has a value"
  | .helpRequested =>
    " ".intercalate ("Options:" :: "--from-env" :: ServerOption.all.map fun o => "--" ++ o.name)
  | .versionRequested => "gqlbridge 0.2.0-dev"

/-- Arguments that have been read: the values of options, and whether the
configuration comes from the environment. -/
structure Arguments where
  values : List (ServerOption × String)
  fromEnvironment : Bool
deriving DecidableEq, Repr

namespace Arguments

/-- No arguments. -/
def empty : Arguments := ⟨[], false⟩

/-- The value of an option. -/
def value? (args : Arguments) (option : ServerOption) : Option String := args.values.lookup option

/-! ### Setting -/

/-- Set an option, once only. -/
def setValue (args : Arguments) (option : ServerOption) (value : String) :
    Except ArgumentError Arguments :=
  if (args.value? option).isSome then .error .conflict
  else if option.accepts value then .ok { args with values := args.values ++ [(option, value)] }
  else .error .invalidValue

/-- Set the flag for the environment, once only. -/
def setFlag (args : Arguments) : Except ArgumentError Arguments :=
  if args.fromEnvironment then .error .conflict else .ok { args with fromEnvironment := true }

/-- An option that is open, with its value if that has come. -/
abbrev OpenOption := Option (ServerOption × Option String)

/-- Settle the option that is open. -/
def settle (args : Arguments) : OpenOption → Except ArgumentError Arguments
  | none => .ok args
  | some (_, none) => .error .missingValue
  | some (option, some value) => args.setValue option value

/-! ### Forms of arguments -/

/-- A form of argument: a long name with or without a value, letters behind
one dash, the mark after which only plain arguments stand, or a plain
argument. -/
inductive Form where
  | long (name : String) (value : Option String)
  | letters (first : Char)
  | mark
  | plain
deriving DecidableEq, Repr

/-- The form of an argument. -/
def formOf (argument : String) : Form :=
  match argument.toList with
  | ['-', '-'] => .mark
  | '-' :: '-' :: rest =>
    let name := rest.takeWhile (· ≠ '=')
    match rest.dropWhile (· ≠ '=') with
    | [] => .long (String.ofList name) none
    | _ :: value => .long (String.ofList name) (some (String.ofList value))
  | '-' :: c :: _ => .letters c
  | _ => .plain

/-- What a name stands for, apart from options. -/
inductive Flag where
  | fromEnvironment
  | help
  | version
deriving DecidableEq, Repr

/-- The flag of a long name. -/
def flagOfName? (name : String) : Option Flag :=
  if name = "from-env" then some .fromEnvironment
  else if name = "help" then some .help
  else if name = "version" then some .version
  else none

/-- The flag of a letter. -/
def flagOfLetter? (c : Char) : Option Flag :=
  if c = 'h' then some .help else if c = 'V' then some .version else none

/-- Take up a flag. -/
def takeFlag (args : Arguments) : Flag → Except ArgumentError Arguments
  | .fromEnvironment => args.setFlag
  | .help => .error .helpRequested
  | .version => .error .versionRequested

/-- Take up a long name, the open option being settled first unless the
argument is refused. -/
def takeLong (args : Arguments) (opened : OpenOption) (name : String) (value : Option String) :
    Except ArgumentError (Arguments × OpenOption) := do
  match ServerOption.ofName? name, flagOfName? name, value with
  | some option, _, none => return (← args.settle opened, some (option, none))
  | some option, _, some value => return (← (← args.settle opened).setValue option value, none)
  | none, some flag, none => return (← (← args.settle opened).takeFlag flag, none)
  | none, some _, some _ => throw .unwantedValue
  | none, none, _ => throw .unknownArgument

/-! ### Reading -/

/-- Read arguments on top of those that have been read. -/
def readFrom (args : Arguments) (opened : OpenOption) :
    List String → Except ArgumentError Arguments
  | [] => args.settle opened
  | argument :: rest =>
    match formOf argument, opened with
    | .long name value, _ => do
      let (args, opened) ← args.takeLong opened name value
      readFrom args opened rest
    | .letters c, _ =>
      match flagOfLetter? c with
      | some flag => do
        let args ← (← args.settle opened).takeFlag flag
        readFrom args none rest
      | none => .error .unknownArgument
    | .mark, _ => if rest.isEmpty then args.settle opened else .error .unknownArgument
    | .plain, some (option, none) => readFrom args (some (option, some argument)) rest
    | .plain, _ => .error .unknownArgument

/-- The arguments of a command line.  A configuration comes from one place
only. -/
def read (arguments : List String) : Except ArgumentError Arguments := do
  let args ← readFrom empty none arguments
  if (args.value? .config).isSome && args.fromEnvironment then throw .conflict
  return args

/-! ### Use -/

/-- The configuration that the options give. -/
def toConfig (args : Arguments) : Except ConfigError ServerConfig :=
  let given := ServerConfig.default
  let number (option : ServerOption) : Option Nat := (args.value? option).bind option.number?
  ServerConfig.validate
    { httpHost := (args.value? .httpHost).getD given.httpHost
      httpPort := (number .httpPort).getD given.httpPort
      entityModelPath := (args.value? .entityModel).getD given.entityModelPath
      maxResultRows := number .maxResultRows
      requestTimeout := (number .requestTimeout).getD given.requestTimeout }

end Arguments

end EntityQuery
