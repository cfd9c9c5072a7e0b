/-
EntityQuery/Proofs/Lenient.lean

Lists that come through variables.

A membership test finds its candidates in a list, and coerces each one of them
by what it is written as: leniently if there is a variable in it, strictly if
there is none.  A variable for the whole list is looked through first, and what
is found in its value are items without variables.  So such a list is coerced
as a list of literals (`Predicate.candidates_variable`), and not as a list of
variables, one for each item (`Predicate.candidates_variables`).

What is accepted strictly is what is accepted leniently and is not given in one
of four ways that only the lenient coercion knows (`Coercion.OnlyLenient`,
`Coercion.literal_eq_ok_iff`): a number for text, and text for a number or a
truth value.  So the test with one variable compiles exactly if the test with
a variable for each item does and no item is given in such a way, and then they
compile to the same (`Predicate.compileLeaf_variable`, `Sample.not_spelled`).
-/
import EntityQuery.Proofs.Contained
import EntityQuery.Proofs.Reached
import EntityQuery.Proofs.Substitution

namespace EntityQuery

/-! ### What only the lenient coercion takes -/

namespace Coercion

/-- The value is one that the coercion takes from variables, but not from
literals. -/
inductive OnlyLenient : Coercion → Json → Prop
  | number {scalar : String} {n : JsonNumber} (other : scalar ≠ "ID") :
      OnlyLenient (.plain scalar .text) (.number n)
  | digits {scalar s : String} {i : Int}
      (read : IntegerRange.int64.read (Text.trimmed s) = .ok i) :
      OnlyLenient (.plain scalar .integer) (.string s)
  | decimal {scalar s : String} {x : Binary64}
      (read : Binary64.read (Text.trimmed s) = .ok (some x)) (finite : x.isFinite = true) :
      OnlyLenient (.plain scalar .float) (.string s)
  | word {scalar s : String} (either : s = "true" ∨ s = "false") :
      OnlyLenient (.plain scalar .boolean) (.string s)

variable {c : Coercion} {scalar : String} {kind : ScalarKind} {value v : Json}

/-- Such a value is no literal of the scalar. -/
theorem OnlyLenient.literal_ne_ok (h : c.OnlyLenient value) : c.literal value ≠ .ok v := by
  cases h with
  | number other =>
    intro taken
    simp [literal, check, Json.isNull, checkText, other, unexpected] at taken
  | digits | decimal | word =>
    intro taken
    cases taken

/-- A value that is accepted from variables, and not in one of these ways, is
accepted as a literal. -/
theorem check_strict (taken : check scalar kind true value = .ok v)
    (ordinary : ¬OnlyLenient (.plain scalar kind) value) :
    check scalar kind false value = .ok v := by
  cases null : value.isNull with
  | true =>
    simp only [check, null, if_true] at taken ⊢
    exact taken
  | false =>
    rw [check_of_not_null _ null] at taken ⊢
    -- The two checks part at numbers for text, and at text for the rest.
    cases kind
    case text =>
      cases value
      case number n =>
        by_cases scalar = "ID"
        case pos id =>
          simp only [checkText, id, decide_true, Bool.or_true, if_true] at taken ⊢
          exact taken
        case neg other => exact absurd (.number other) ordinary
      all_goals exact taken
    case integer =>
      cases value
      case number n => cases n <;> exact taken
      case string s =>
        simp only [checkInteger, if_true] at taken
        split at taken
        · next read => exact absurd (.digits read) ordinary
        · cases taken
      all_goals exact taken
    case float =>
      cases value
      case string s =>
        simp only [checkFloat, if_true] at taken
        split at taken
        · next read =>
          split at taken
          · next finite => exact absurd (.decimal read finite) ordinary
          · cases taken
        · cases taken
        · cases taken
      all_goals exact taken
    case boolean =>
      cases value
      case string s =>
        simp only [checkBoolean, if_true] at taken
        split at taken
        · next word => exact absurd (.word (.inl word)) ordinary
        · split at taken
          · next word => exact absurd (.word (.inr word)) ordinary
          · cases taken
      all_goals exact taken
    case date | dateTime | payload => exact taken

/-- What is accepted as a literal is what is accepted from variables, less what
only they may give. -/
theorem literal_eq_ok_iff :
    c.literal value = .ok v ↔ c.input value = .ok v ∧ ¬c.OnlyLenient value := by
  constructor
  · exact fun taken => ⟨input_of_literal taken, fun only => only.literal_ne_ok taken⟩
  · rintro ⟨taken, ordinary⟩
    cases c with
    | document => exact taken
    | plain scalar kind => exact check_strict taken ordinary

/-- The same of several values. -/
theorem forall₂_literal {values vs : List Json} :
    List.Forall₂ (fun value v => c.literal value = .ok v) values vs ↔
      (∀ value ∈ values, ¬c.OnlyLenient value) ∧
        List.Forall₂ (fun value v => c.input value = .ok v) values vs := by
  rw [← List.forall₂_and_left]
  simp only [literal_eq_ok_iff, and_comm]

end Coercion

/-! ### JSON values as operands -/

namespace Operand

theorem keys_ofMembers (members : List (String × Json)) :
    Keyed.keys (ofMembers members) = Keyed.keys members := by
  induction members with
  | nil => rfl
  | cons member members ih =>
    obtain ⟨name, j⟩ := member
    exact congrArg (name :: ·) ih

theorem ofItems_eq_map (js : List Json) : ofItems js = js.map ofJson := by
  induction js with
  | nil => rfl
  | cons j js ih => rw [ofItems, ih, List.map_cons]

mutual

/-- There are no constants of JSON values that are lists or objects, and no
variables. -/
theorem closed_ofJson (j : Json) : (ofJson j).Closed := by
  cases j with
  | array items => exact closed_ofItems items
  | object members => exact closed_ofMembers members
  | _ => rfl

theorem closed_ofItems (js : List Json) : AllClosed (ofItems js) := by
  cases js with
  | nil => trivial
  | cons j js => exact ⟨closed_ofJson j, closed_ofItems js⟩

theorem closed_ofMembers (members : List (String × Json)) :
    EntriesClosed (ofMembers members) := by
  cases members with
  | nil => trivial
  | cons member members => exact ⟨closed_ofJson member.2, closed_ofMembers members⟩

end

mutual

/-- A JSON value without repeated keys is the value of its operand. -/
theorem resolve_ofJson (vars : Variables) (j : Json) (inline : (ofJson j).Inline) :
    (ofJson j).resolve vars = .ok j := by
  cases j with
  | array items =>
    rw [ofJson, resolve, resolveItems_ofItems vars items inline]
    rfl
  | object members =>
    rw [ofJson, Inline, keys_ofMembers] at inline
    rw [ofJson, resolve, resolveEntries_ofMembers fun member hm => ?_, Outcome.ok_bind,
      Keyed.ofPairs_eq_self inline.1]
    · rfl
    · exact resolve_ofMember vars members inline.2 member hm
  | _ => rfl

/-- Inline items resolve to the values that they were made of. -/
theorem resolveItems_ofItems (vars : Variables) (js : List Json) (inline : AllInline (ofItems js)) :
    resolveItems vars (ofItems js) = .ok js := by
  cases js with
  | nil => rfl
  | cons j js =>
    rw [ofItems, resolveItems, resolve_ofJson vars j inline.1, Outcome.ok_bind,
      resolveItems_ofItems vars js inline.2]
    rfl

theorem resolve_ofMember (vars : Variables) (members : List (String × Json))
    (inline : EntriesInline (ofMembers members)) :
    ∀ member ∈ members, (ofJson member.2).resolve vars = .ok member.2 := by
  cases members with
  | nil => exact List.forall_mem_nil _
  | cons member members =>
    exact List.forall_mem_cons.2
      ⟨resolve_ofJson vars member.2 inline.1, resolve_ofMember vars members inline.2⟩

end

end Operand

/-! ### Candidates -/

namespace Predicate

open Operand Planner

variable {s : QuerySchema} {root : EntityType} {path between : List String} {g : SchemaField}
variable {vars vars' : Variables} {field whole : String} {b : ScalarBinding}
variable {operator : FilterOperator} {items : List Json} {names : List String}
variable {values : List Json} {x : Json} {name : String}

/-- An item of a list without variables is taken as a literal. -/
theorem coerce_ofJson (inline : (ofJson x).Inline) :
    coerce vars field b (ofJson x) =
      (b.coercion.literal x).mapError fun e => .invalidValue field e.message := by
  rw [coerce, resolve_ofJson vars x inline, Outcome.ok_bind, (closed_ofJson x).hasVariables]
  rfl

/-- A variable is coerced leniently. -/
theorem coerce_variable (found : Keyed.find? vars name = some x) :
    coerce vars field b (.variable name) =
      (b.coercion.input x).mapError fun e => .invalidValue field e.message := by
  rw [coerce, resolve, variableValue, found]
  rfl

/-- The candidates in the list of a variable are those in the list itself. -/
theorem candidates_variable (found : Keyed.find? vars whole = some (.array items)) :
    candidates vars field b (.variable whole) =
      candidates vars field b (.list (ofItems items)) := by
  rw [candidates, items?_variable found]
  rfl

/-- The items of a list are taken as literals. -/
theorem candidates_ofItems (inline : ∀ x ∈ items, (ofJson x).Inline) :
    candidates vars field b (.list (ofItems items)) = .ok values ↔
      List.Forall₂ (fun x v => b.coercion.literal x = .ok v) items values := by
  show (ofItems items).mapM (coerce vars field b) = .ok values ↔ _
  rw [ofItems_eq_map, Outcome.mapM_map,
    Outcome.mapM_congr fun x hx => coerce_ofJson (inline x hx), Outcome.mapM_eq_ok]
  simp only [Outcome.mapError_eq_ok]

/-- Variables for the items are taken leniently. -/
theorem candidates_variables
    (each : List.Forall₂ (fun name x => Keyed.find? vars name = some x) names items) :
    candidates vars field b (.list (names.map .variable)) = .ok values ↔
      List.Forall₂ (fun x v => b.coercion.input x = .ok v) items values := by
  show (names.map Operand.variable).mapM (coerce vars field b) = .ok values ↔ _
  rw [Outcome.mapM_map, Outcome.mapM_eq_ok]
  induction each generalizing values with
  | nil => rw [List.forall₂_nil_left_iff, List.forall₂_nil_left_iff]
  | cons found _ ih =>
    rw [List.forall₂_cons_left_iff, List.forall₂_cons_left_iff]
    simp only [coerce_variable found, Outcome.mapError_eq_ok, ih]

/-! ### Leaves -/

/-- **A list in one variable is a list of literals.**  A membership test with a
variable for the whole list compiles as the test with the list itself does, and
to what the test with a variable for each item compiles to, if that compiles
and no item is given in a way that only variables have. -/
theorem compileLeaf_variable {d d' : Draft} {e : Expr}
    (leads : s.LeadsTo root path between g b) (supported : b.supports operator = true)
    (list : operator.takesList = true)
    (found : Keyed.find? vars whole = some (.array items))
    (each : List.Forall₂ (fun name x => Keyed.find? vars' name = some x) names items)
    (inline : ∀ x ∈ items, (ofJson x).Inline) :
    (Gives (compileLeaf s root vars ⟨path, operator.token, .variable whole⟩) d e d' ↔
      Gives (compileLeaf s root [] ⟨path, operator.token, .list (ofItems items)⟩) d e d') ∧
    (Gives (compileLeaf s root vars ⟨path, operator.token, .variable whole⟩) d e d' ↔
      Gives (compileLeaf s root vars' ⟨path, operator.token, .list (names.map .variable)⟩) d e d' ∧
        ∀ x ∈ items, ¬b.coercion.OnlyLenient x) := by
  obtain ⟨test, tests⟩ := leads.exists_membership supported list
  -- The leaf compiles as its candidates do, so that only these are compared.
  simp only [tests, candidates_variable found, candidates_ofItems inline,
    candidates_variables each, true_and]
  simp only [Coercion.forall₂_literal]
  constructor
  · rintro ⟨values, ⟨ordinary, taken⟩, tested⟩
    exact ⟨⟨values, taken, tested⟩, ordinary⟩
  · rintro ⟨⟨values, taken, tested⟩, ordinary⟩
    exact ⟨values, ⟨ordinary, taken⟩, tested⟩

end Predicate

/-! ### The small library -/

namespace Sample

open Predicate Planner

/-- A list with a number for a title is refused in one variable, and taken
with a variable for the number. -/
theorem not_spelled :
    (∀ d e d', ¬Gives (compileLeaf schema books [("xs", .array [.string "x", .ofInt 7])]
      ⟨["title"], "IN", .variable "xs"⟩) d e d') ∧
    (∃ e d', Gives (compileLeaf schema books [("v", .string "x"), ("w", .ofInt 7)]
      ⟨["title"], "IN", .list [.variable "v", .variable "w"]⟩) Draft.empty e d') ∧
    run shelf [("xs", .array [.string "x", .ofInt 7])]
        ((allBooks [leaf "id"]).restrictedBy (.tests "title" .oneOf (.variable "xs"))) =
      .error (.plan (.invalidValue "title"
        "Expected string for scalar 'String' but got number")) ∧
    run shelf [("v", .string "x"), ("w", .ofInt 7)]
        ((allBooks [leaf "id"]).restrictedBy
          (.tests "title" .oneOf (.list [.variable "v", .variable "w"]))) =
      .ok (.object [("select", .array [.object [("id", .string "1")]])]) :=
  ⟨nofun, ⟨_, _, rfl⟩, rfl, rfl⟩

end Sample

open Predicate Planner in
/-- In the library, two titles in one variable and in two compile to the
same. -/
theorem compileLeaf_variable_library :
    ∃ e d', Gives (compileLeaf Sample.schema Sample.books
        [("xs", .array [.string "x", .string "z"])]
        ⟨["title"], FilterOperator.token .oneOf, .variable "xs"⟩) Draft.empty e d' ∧
      Gives (compileLeaf Sample.schema Sample.books [("v", .string "x"), ("w", .string "z")]
        ⟨["title"], FilterOperator.token .oneOf, .list [.variable "v", .variable "w"]⟩)
        Draft.empty e d' := by
  have compiled : Gives (compileLeaf Sample.schema Sample.books
    [("xs", .array [.string "x", .string "z"])]
    ⟨["title"], FilterOperator.token .oneOf, .variable "xs"⟩) Draft.empty _ _ := rfl
  have found : Keyed.find? [("xs", Json.array [.string "x", .string "z"])] "xs" =
    some (.array [.string "x", .string "z"]) := rfl
  have each : List.Forall₂
      (fun name x => Keyed.find? [("v", Json.string "x"), ("w", Json.string "z")] name = some x)
      ["v", "w"] [.string "x", .string "z"] := .cons rfl (.cons rfl .nil)
  have inline : ∀ x ∈ [Json.string "x", .string "z"], (Operand.ofJson x).Inline :=
    List.forall_mem_cons.2 ⟨rfl, List.forall_mem_singleton.2 rfl⟩
  have list : FilterOperator.oneOf.takesList = true := rfl
  refine ⟨_, _, compiled, ?_⟩
  exact ((compileLeaf_variable Sample.title_leadsTo rfl list found each inline).2.1 compiled).1

end EntityQuery
