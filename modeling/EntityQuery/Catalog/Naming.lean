/-
EntityQuery/Catalog/Naming.lean

Names derived from names: the English plural of an entity name, which is its
root field unless the model says otherwise, and the lower-case form with
underscores of a field name, which is its column.
-/

namespace EntityQuery.Naming

/-- Whether a text ends in a given ending. -/
def endsIn (ending text : List Char) : Bool := ending.isSuffixOf text

/-- The plural of a name: `-y` after a consonant becomes `-ies`, a hissing
sound takes `-es`, and anything else `-s`. -/
def pluralize (name : String) : String :=
  let lower := name.toList.map Char.toLower
  let vowelBefore :=
    [['a', 'y'], ['e', 'y'], ['o', 'y'], ['u', 'y']].any fun ending => endsIn ending lower
  let hissing :=
    [['s'], ['x'], ['z'], ['c', 'h'], ['s', 'h']].any fun ending => endsIn ending lower
  if endsIn ['y'] lower && !vowelBefore then
    String.ofList (name.toList.dropLast) ++ "ies"
  else if hissing then name ++ "es"
  else name ++ "s"

/-- Capitals as small letters, each after an underscore unless it stands
first. -/
def snakeCase (name : String) : String :=
  match name.toList with
  | [] => ""
  | c :: rest =>
    String.ofList
      (c.toLower :: rest.flatMap fun d => if d.isUpper then ['_', d.toLower] else [d])

example : pluralize "JsonEntity" = "JsonEntities" := by decide +kernel

example : snakeCase "processInstanceId" = "process_instance_id" := by decide +kernel

end EntityQuery.Naming
