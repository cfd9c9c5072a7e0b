/-
EntityQuery/Document/Request.lean

Whole documents: selection sets, types, variable definitions and the one
operation that a document consists of.

A document is read to its end (`Document.parse`).  Only read operations are
known; a document that begins with the keyword of another kind is refused
before anything else is looked at.
-/
import EntityQuery.Document.Literal
import EntityQuery.Text.Blank

namespace EntityQuery.Document

/-! ### Selection sets -/

/-- An argument of a field. -/
def argument : Parser (String × Value) :=
  Parser.pair (token name) <|
    Parser.andThen
      (Parser.expecting "Expected ':' after argument name" (Parser.commit (punct ':')))
      (Parser.expecting "Expected argument value" (Parser.commit value))

/-- The arguments of a field, at least one, in parentheses. -/
def arguments : Parser (List (String × Value)) :=
  Parser.andThen (punct '(') <|
    Parser.map Prod.fst <|
      Parser.pair (Parser.many1 argument)
        (Parser.expecting "Expected ')' to close arguments" (Parser.commit (punct ')')))

/-- The second name after a colon: the first was an alias. -/
def aliased : Parser String := Parser.andThen (punct ':') (Parser.commit (token name))

/-- A field, given the parser of the selection sets that may stand in it. -/
def fieldOver (selection : Parser (List Field)) : Parser Field := fun input =>
  (token name input).bind fun first rest =>
  (Parser.optional aliased rest).bind fun second rest =>
  (Parser.optional arguments rest).bind fun args rest =>
  (Parser.optional selection rest).bind fun fields rest =>
    let (label, fieldName) := match second with
      | some other => (some first, other)
      | none => (none, first)
    .ok (.mk label fieldName (args.getD []) (fields.getD [])) rest

/-- The fields of a selection set after the opening brace. -/
def selectionBody (field : Parser Field) : Parser (List Field) :=
  Parser.commit <| Parser.map Prod.fst <|
    Parser.pair
      (Parser.expecting "Selection set must contain at least one field" (Parser.many1 field))
      (Parser.expecting "Expected '\x7d' to close selection set" (punct '\x7d'))

/-- A selection set that may nest `room` levels. -/
def selectionWithin : Nat → Parser (List Field)
  | 0 => opened '\x7b' none
  | room + 1 => opened '\x7b' (some (selectionBody (fieldOver (selectionWithin room))))

/-- A selection set. -/
def selectionSet : Parser (List Field) := selectionWithin maxNesting

/-! ### Types and variable definitions -/

/-- The item type of a list type after the opening bracket. -/
def listTypeBody (item : Parser TypeRef) : Parser TypeRef :=
  Parser.map (fun types => .list types.1) <|
    Parser.pair item (Parser.expecting "Expected ']' in list type" (Parser.commit (punct ']')))

/-- A type whose lists hold types read by `item`, if there is room for
lists. -/
def typeOver (item : Option (Parser TypeRef)) : Parser TypeRef := fun input =>
  (Parser.choice [opened '[' (item.map listTypeBody), Parser.map .named (token name)] input).bind
    fun base rest =>
      (Parser.optional (punct '!') rest).map fun mark => if mark.isSome then .nonNull base else base

/-- A type that may nest `room` lists. -/
def typeWithin : Nat → Parser TypeRef
  | 0 => typeOver none
  | room + 1 => typeOver (some (typeWithin room))

/-- A type. -/
def typeRef : Parser TypeRef := typeWithin maxNesting

/-- The default of a variable. -/
def defaultValue : Parser Value :=
  Parser.andThen (punct '=') (Parser.expecting "Expected default value" (Parser.commit value))

/-- A variable definition. -/
def variableDefinition : Parser VariableDefinition := fun input =>
  (token variableName input).bind fun named rest =>
  (Parser.expecting "Expected ':' after variable name" (Parser.commit (punct ':')) rest).bind
    fun _ rest =>
  (Parser.expecting "Expected variable type" (Parser.commit typeRef) rest).bind fun type rest =>
  (Parser.optional defaultValue rest).map fun default => ⟨named, type, default⟩

/-- The variable definitions of an operation, at least one, in parentheses. -/
def variableDefinitions : Parser (List VariableDefinition) :=
  Parser.andThen (punct '(') <|
    Parser.map Prod.fst <|
      Parser.pair (Parser.many1 variableDefinition)
        (Parser.expecting "Expected ')' after variable definitions" (Parser.commit (punct ')')))

/-! ### Operations -/

/-- Whether a text begins with a keyword. -/
def beginsWithKeyword (word : String) (input : List Char) : Bool :=
  match keyword word input with
  | .ok _ _ => true
  | _ => false

/-- The name and the variable definitions of an operation that begins with
the keyword `query`; one that does not has neither. -/
def operationHead : Parser (Option String × List VariableDefinition) := fun input =>
  match keyword "query" input with
  | .ok _ rest =>
    (Parser.optional (token name) rest).bind fun operationName rest =>
    (Parser.optional variableDefinitions rest).map fun definitions =>
      (operationName, definitions.getD [])
  | .soft _ => .ok (none, []) input
  | .hard trail => .hard trail

/-- An operation. -/
def operation : Parser Operation := fun input =>
  if beginsWithKeyword "mutation" input || beginsWithKeyword "subscription" input then
    .hard [⟨input, "Only query operations are supported"⟩]
  else
    (operationHead input).bind fun head rest =>
    (Parser.expecting "Expected selection set" (Parser.commit selectionSet) rest).map
      fun selection => ⟨head.1, head.2, selection⟩

/-- The operation that a whole text consists of. -/
def parseChars (text : List Char) : Except Trail Operation :=
  match operation text with
  | .ok op rest =>
    if (Text.trim rest).isEmpty then .ok op
    else .error [⟨rest, "Unexpected tokens after query"⟩, ⟨Text.trim rest, "Unparsed input"⟩]
  | .soft trail => .error trail
  | .hard trail => .error trail

/-- The operation that a document consists of. -/
def parse (document : String) : Except Trail Operation := parseChars document.toList

end EntityQuery.Document
