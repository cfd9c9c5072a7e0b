/-
EntityQuery/Yaml/Basic.lean

YAML values: scalars, sequences and mappings.

A scalar is a text, and whether it stood in quotes is part of it: only a
plain scalar can be a number or stand for nothing at all.
-/
import EntityQuery.Notated
import EntityQuery.Number.IntegerText

namespace EntityQuery

/-- A YAML value.  A text without a document holds the value `void`. -/
inductive Yaml where
  | void
  | plain (text : String)
  | quoted (text : String)
  | sequence (items : List Yaml)
  | mapping (entries : List (Yaml × Yaml))

instance : Inhabited Yaml := ⟨.void⟩

namespace Yaml

/-- The value of a place where nothing is written. -/
def nothing : Yaml := .plain ""

/-- Whether nothing is written. -/
def isNothing : Yaml → Bool
  | .void => true
  | .plain text => text.isEmpty
  | _ => false

/-! ### Texts -/

/-- The text of a scalar, whatever it may stand for besides. -/
def text? : Yaml → Option String
  | .plain text => some text
  | .quoted text => some text
  | _ => none

/-- The plain scalars that stand for null. -/
def nullWords : List String := ["~", "null", "Null", "NULL"]

/-- Whether the value is null: nothing, or a plain word for null. -/
def isNull (value : Yaml) : Bool :=
  value.isNothing ||
    match value with
    | .plain text => nullWords.contains text
    | _ => false

/-! ### Integers -/

/-- Whether a text is digits after a zero, which is no number. -/
def hasLeadingZero : List Char → Bool
  | '0' :: c :: rest => (c :: rest).all Char.isDigit
  | _ => false

/-- Digits of a base, without a sign. -/
def unsignedDigits? (range : IntegerRange) (base : Nat) (digits : List Char) : Option Int :=
  match digits with
  | '+' :: _ => none
  | '-' :: _ => none
  | _ => (range.readBase base digits).toOption

/-- An integer in decimal digits, or in another base after its mark.  A plus
sign may stand before all of it. -/
def integerText? (range : IntegerRange) (text : List Char) : Option Int :=
  let bare :=
    match text with
    | '+' :: rest => rest
    | _ => text
  match bare with
  | '0' :: 'x' :: digits => unsignedDigits? range 16 digits
  | '0' :: 'o' :: digits => unsignedDigits? range 8 digits
  | '0' :: 'b' :: digits => unsignedDigits? range 2 digits
  | _ => if hasLeadingZero bare then none else unsignedDigits? range 10 bare

/-- The integer that a plain scalar spells. -/
def integer? (range : IntegerRange) : Yaml → Option Int
  | .plain text => integerText? range text.toList
  | _ => none

/-! ### Records -/

/-- The entries of a mapping whose keys are all scalars. -/
def namedEntries? (entries : List (Yaml × Yaml)) : Option (List (String × Yaml)) :=
  entries.mapM fun (key, value) => key.text?.map fun name => (name, value)

/-- Whether some name stands twice. -/
def hasRepeats : List String → Bool
  | [] => false
  | name :: rest => rest.contains name || hasRepeats rest

/-- The known entries of a mapping, none of them twice; nothing is a mapping
without entries. -/
def record? (names : List String) (value : Yaml) : Option (List (String × Yaml)) :=
  match value with
  | .mapping entries => do
    let known := (← namedEntries? entries).filter fun entry => names.contains entry.1
    if hasRepeats (known.map Prod.fst) then none
    return known
  | other => if other.isNothing then some [] else none

/-- The items of a sequence; nothing is a sequence without items. -/
def list? (value : Yaml) : Option (List Yaml) :=
  match value with
  | .sequence items => some items
  | other => if other.isNothing then some [] else none

end Yaml

/-- In YAML every scalar is a text, and an empty place is an empty list or
record. -/
instance : Notated Yaml where
  text? := Yaml.text?
  optionalText? value := if value.isNull then some none else value.text?.map some
  list? := Yaml.list?
  word? := Yaml.text?
  record? := Yaml.record?

end EntityQuery
