/-
EntityQuery/Proofs/Nulls.lean

Which literals become null.

A literal without variables has one JSON value (`Operand.resolve_ofValue`),
which has the shape of the literal: the same places inside lists and objects
lead to values in both (`Document.Value.at?_json`).  There is a null at a
place if the literal has `null` there, or a number beyond the doubles
(`Document.Value.Vanishes`), for which JSON has no number.

No coercion makes null of anything else, so equality with a literal is a check
for null exactly if the literal vanishes, and otherwise compares the column
with a value that is not null (`nulls_of_literals`).
-/
import EntityQuery.Proofs.Contained
import EntityQuery.Proofs.Indirection
import EntityQuery.Proofs.Overflow

namespace EntityQuery

/-! ### Places in values -/

/-- A step into a value: to an item of a list, or to what a key stands for. -/
inductive Inward where
  | item (place : Nat)
  | key (name : String)

/-- What a path leads to in a JSON value. -/
def Json.at? : List Inward → Json → Option Json
  | [], j => some j
  | .item place :: path, .array items => items[place]?.bind (at? path)
  | .key name :: path, .object members => (Keyed.find? members name).bind (at? path)
  | _, _ => none

namespace Document.Value

/-- What a path leads to in a value of a document. -/
def at? : List Inward → Document.Value → Option Document.Value
  | [], v => some v
  | .item place :: path, .list items => items[place]?.bind (at? path)
  | .key name :: path, .object entries => (Keyed.find? entries name).bind (at? path)
  | _, _ => none

/-- The literal has no JSON value but null: `null` itself, and a number beyond
the doubles. -/
def Vanishes (v : Document.Value) : Prop := v = .null ∨ ∃ x, v = .float x ∧ x.isFinite = false

/-! ### The JSON value of a literal -/

mutual

/-- The JSON value of a literal. -/
def json : Document.Value → Json
  | .variable _ => .null
  | .int i => .ofInt i
  | .float x => .ofBinary64 x
  | .string s => .string s
  | .boolean b => .bool b
  | .null => .null
  | .enum name => .string name
  | .list items => .array (jsonItems items)
  | .object entries => .object (jsonEntries entries)

/-- The JSON values of items. -/
def jsonItems : List Document.Value → List Json
  | [] => []
  | v :: vs => json v :: jsonItems vs

/-- The JSON values of entries. -/
def jsonEntries : List (String × Document.Value) → List (String × Json)
  | [] => []
  | (name, v) :: vs => (name, json v) :: jsonEntries vs

end

theorem getElem?_jsonItems (vs : List Document.Value) (place : Nat) :
    (jsonItems vs)[place]? = vs[place]?.map json := by
  induction vs generalizing place with
  | nil => rfl
  | cons v vs ih =>
    cases place with
    | zero => rfl
    | succ place => exact ih place

theorem find?_jsonEntries (es : List (String × Document.Value)) (name : String) :
    Keyed.find? (jsonEntries es) name = (Keyed.find? es name).map json := by
  induction es with
  | nil => rfl
  | cons e es ih =>
    obtain ⟨other, v⟩ := e
    rw [jsonEntries, Keyed.find?_cons, Keyed.find?_cons, ih]
    split <;> rfl

theorem keys_jsonEntries (es : List (String × Document.Value)) :
    Keyed.keys (jsonEntries es) = es.map (·.1) := by
  induction es with
  | nil => rfl
  | cons e es ih =>
    obtain ⟨name, v⟩ := e
    exact congrArg (name :: ·) ih

/-- Under a path the JSON value has that of what the literal has there. -/
theorem at?_json (path : List Inward) (v : Document.Value) :
    v.json.at? path = (v.at? path).map json := by
  induction path generalizing v with
  | nil => rfl
  | cons step path ih =>
    cases step with
    | item place =>
      cases v with
      | list items =>
        rw [json, Json.at?, at?, getElem?_jsonItems, Option.bind_map, Option.map_bind]
        exact congrArg (items[place]?.bind ·) (funext ih)
      | float x =>
        -- A float becomes a number or null, and leads nowhere.
        show (Json.ofBinary64 x).at? _ = none
        rw [Json.ofBinary64]
        split <;> rfl
      | _ => rfl
    | key name =>
      cases v with
      | object entries =>
        rw [json, Json.at?, at?, find?_jsonEntries, Option.bind_map, Option.map_bind]
        exact congrArg ((Keyed.find? entries name).bind ·) (funext ih)
      | float x =>
        show (Json.ofBinary64 x).at? _ = none
        rw [Json.ofBinary64]
        split <;> rfl
      | _ => rfl

/-- A literal stands for null exactly if it vanishes. -/
theorem json_eq_null_iff {v : Document.Value} (literal : ∀ name, v ≠ .variable name) :
    v.json = .null ↔ v.Vanishes := by
  cases v with
  | «variable» name => exact absurd rfl (literal name)
  | float x =>
    simp only [json, Json.ofBinary64, Vanishes]
    split
    · next finite => simp [finite]
    · next infinite => simpa using infinite
  | _ => simp [json, Vanishes, Json.ofInt]

/-! ### Literals inside a literal -/

theorem AllInline.mem {vs : List Document.Value} (h : AllInline vs) : ∀ v ∈ vs, v.Inline := by
  induction vs with
  | nil => exact List.forall_mem_nil _
  | cons v vs ih => exact List.forall_mem_cons.2 ⟨h.1, ih h.2⟩

theorem EntriesInline.mem {es : List (String × Document.Value)} (h : EntriesInline es) :
    ∀ e ∈ es, e.2.Inline := by
  induction es with
  | nil => exact List.forall_mem_nil _
  | cons e es ih => exact List.forall_mem_cons.2 ⟨h.1, ih h.2⟩

theorem Inline.ne_variable {v : Document.Value} (h : v.Inline) (name : String) :
    v ≠ .variable name := by
  rintro rfl
  exact h

/-- What a literal without variables has at a place is such a literal, too. -/
theorem Inline.at? {path : List Inward} {v w : Document.Value} (h : v.Inline)
    (found : v.at? path = some w) : w.Inline := by
  induction path generalizing v with
  | nil =>
    cases found
    exact h
  | cons step path ih =>
    cases step <;> cases v <;> simp only [Value.at?, reduceCtorEq] at found
    · obtain ⟨inner, here, below⟩ := Option.bind_eq_some_iff.1 found
      exact ih (AllInline.mem h inner (List.mem_of_getElem? here)) below
    · obtain ⟨inner, here, below⟩ := Option.bind_eq_some_iff.1 found
      exact ih (EntriesInline.mem h.2 (_, inner) (Keyed.mem_of_find? here)) below

end Document.Value

namespace Operand

variable {vars : Variables}

mutual

/-- A literal without variables and repeated keys stands for its JSON value. -/
theorem resolve_ofValue (v : Document.Value) (h : v.Inline) :
    (ofValue v).resolve vars = .ok v.json := by
  cases v with
  | «variable» name => exact h.elim
  | list items =>
    rw [ofValue, resolve, resolveItems_ofValues items h]
    rfl
  | object entries =>
    rw [ofValue, resolve, resolveEntries_ofEntries entries h.2, Outcome.ok_bind,
      Keyed.ofPairs_eq_self]
    · rfl
    · rw [Document.Value.keys_jsonEntries]
      exact h.1
  | _ => rfl

/-- Inline values resolve to what they stand for. -/
theorem resolveItems_ofValues (vs : List Document.Value) (h : Document.Value.AllInline vs) :
    resolveItems vars (ofValues vs) = .ok (Document.Value.jsonItems vs) := by
  cases vs with
  | nil => rfl
  | cons v vs =>
    rw [ofValues, resolveItems, resolve_ofValue v h.1, Outcome.ok_bind,
      resolveItems_ofValues vs h.2]
    rfl

theorem resolveEntries_ofEntries (es : List (String × Document.Value))
    (h : Document.Value.EntriesInline es) :
    resolveEntries vars (ofEntries es) = .ok (Document.Value.jsonEntries es) := by
  cases es with
  | nil => rfl
  | cons e es =>
    obtain ⟨name, v⟩ := e
    rw [ofEntries, resolveEntries, resolve_ofValue v h.1, Outcome.ok_bind,
      resolveEntries_ofEntries es h.2]
    rfl

end

end Operand

/-! ### Coercions -/

/-- No coercion makes null of anything but null. -/
theorem Coercion.check_ne_null {scalar : String} {kind : ScalarKind} {lenient : Bool}
    {value v : Json} (given : value ≠ .null) (h : check scalar kind lenient value = .ok v) :
    v ≠ .null := by
  rintro rfl
  have present : value.isNull = false := by
    cases value <;> first | rfl | exact absurd rfl given
  simp only [check, present, Bool.false_eq_true, if_false] at h
  cases kind <;> simp only [checkText, checkInteger, checkFloat, checkBoolean, checkDate,
    checkDateTime, unexpected] at h
  case payload => exact given (Except.ok.inj h)
  all_goals
    repeat' split at h
    all_goals cases h

/-- A value that is not null is taken in as one that is not null. -/
theorem Predicate.coerce_ne_null {vars : Variables} {context : String} {b : ScalarBinding}
    {operand : Operand} {j v : Json} (resolved : operand.resolve vars = .ok j) (given : j ≠ .null)
    (h : coerce vars context b operand = .ok v) : v ≠ .null := by
  rw [coerce, resolved, Outcome.ok_bind] at h
  have taken := Outcome.mapError_eq_ok.1 h
  cases coercion : b.coercion with
  | plain scalar kind =>
    rw [coercion] at taken
    split at taken <;> exact Coercion.check_ne_null given taken
  | document =>
    rw [coercion] at taken
    split at taken <;> cases taken <;> exact given

/-- A value that is not null is compared as one that is not null. -/
theorem Comparison.storedValue_ne_null {b : ScalarBinding} {v : Json} (given : v ≠ .null) :
    storedValue b v ≠ .null := by
  unfold storedValue
  split
  · cases b.coercion with
    | plain scalar kind => exact given
    | document => exact nofun
  · exact given

/-! ### Equality with a literal -/

namespace Predicate

open Planner

variable {s : QuerySchema} {root : EntityType} {vars : Variables} {path : List String}
variable {operator : FilterOperator} {operand : Operand} {d d' : Draft} {e : Expr} {j : Json}

/-- Equality and its contrary, as conditions. -/
def equality (operator : FilterOperator) : Operator :=
  if operator = .eq then .equal else .notEqual

/-- The condition compares a stored column with a bound value that is not
null. -/
def ComparesColumn (operator : FilterOperator) (d : Draft) (e : Expr) : Prop :=
  ∃ b tableAlias column name value,
    e = .binary (equality operator) (Comparison.storedColumn b (.column tableAlias column))
      (.parameter name) ∧
    Keyed.find? d.parameters name = some value ∧ value ≠ .null

/-- The condition asks whether a column is null, or is not. -/
def ChecksNull (operator : FilterOperator) (e : Expr) : Prop :=
  ∃ tableAlias column,
    e = Comparison.nullCheck (.column tableAlias column) (decide (operator = .eq))

/-- Comparing a column with a value that is not null compares it with just
that. -/
theorem comparesColumn_of_compareWith {b : ScalarBinding} {tableAlias column : String} {v : Json}
    (h : Gives (Comparison.compareWith (equality operator) b (.column tableAlias column) v) d e d')
    (sequential : d.parameters.Sequential) (given : v ≠ .null) :
    ComparesColumn operator d' e := by
  obtain ⟨parameter, d₁, bind, done⟩ := gives_bind.1 h
  obtain ⟨rfl, rfl⟩ := gives_pure.1 done
  obtain ⟨rfl, rfl⟩ := gives_bindValue.1 bind
  have found := Keyed.find?_append_new (Comparison.storedValue b v) sequential.nextName_not_mem
  exact ⟨b, tableAlias, column, _, _, rfl, found, Comparison.storedValue_ne_null given⟩

/-- Equality with an operand is compiled to a check for null if the operand is
null, and to a comparison of the column otherwise. -/
theorem compileLeaf_equality (either : operator = .eq ∨ operator = .ne)
    (resolved : operand.resolve vars = .ok j) (sequential : d.parameters.Sequential)
    (h : Gives (compileLeaf s root vars ⟨path, operator.token, operand⟩) d e d') :
    (j = .null → ChecksNull operator e) ∧ (j ≠ .null → ComparesColumn operator d' e) := by
  obtain ⟨between, name, last, field, b, op, a, d₁, -, -, -, -, supported, -, unbound, -,
    compared⟩ := compileLeaf_cases h
  -- Walking to the leaf binds no value, so that names are still in sequence.
  rw [← unbound] at sequential
  dsimp only at supported compared
  rw [FilterOperator.ofToken?_token] at supported
  obtain ⟨known, -⟩ := Option.filter_eq_some_iff.1 supported
  obtain rfl := Option.some.inj known
  have plain : operator.takesFlag = false ∧ operator.takesList = false := by
    rcases either with rfl | rfl <;> exact ⟨rfl, rfl⟩
  simp only [comparison, plain.1, plain.2, Bool.false_eq_true, if_false] at compared
  obtain ⟨v, d₂, step, translated⟩ := gives_bind.1 compared
  obtain ⟨coerced, rfl⟩ := gives_lift.1 step
  constructor
  · rintro rfl
    obtain rfl := Except.ok.inj (coerced.symm.trans (coerce_of_null resolved))
    rcases either with rfl | rfl <;> obtain ⟨rfl, rfl⟩ := gives_pure.1 translated <;>
      exact ⟨a, field.descriptor.column, rfl⟩
  · intro given
    have given := coerce_ne_null resolved given coerced
    have present : v.isNull = false := by
      cases v <;> first | rfl | exact absurd rfl given
    rcases either with rfl | rfl <;> simp only [Comparison.translate, present, Bool.false_eq_true,
      if_false] at translated <;>
      exact comparesColumn_of_compareWith translated sequential given

end Predicate

/-- A decimal number vanishes exactly if it is rounded to infinity. -/
theorem Document.Value.vanishes_float {x : Binary64} :
    (Document.Value.float x).Vanishes ↔ x.isFinite = false := by
  simp [Vanishes]

open Planner Predicate in
/-- **A literal becomes null where it vanishes, and nowhere else.**  Its JSON
value has the same places, with null at those where the literal has `null` or
a number beyond the doubles.  Documents take this value as it is, and equality
with the literal checks for null if it vanishes itself and otherwise compares
with a value that is not null. -/
theorem nulls_of_literals (vars : Variables) {v : Document.Value} (inline : v.Inline) :
    ∃ j, (Operand.ofValue v).resolve vars = .ok j ∧
      -- The places of the literal.
      (∀ path, (j.at? path).isSome = (v.at? path).isSome) ∧
      (∀ path, j.at? path = some .null ↔ ∃ w, v.at? path = some w ∧ w.Vanishes) ∧
      (∀ negative digits exponent,
        (Document.Value.float (.ofDecimal negative digits exponent)).Vanishes ↔
          Binary64.overflow * 10 ^ (-exponent).toNat ≤ digits * 10 ^ exponent.toNat) ∧
      -- The literal as a document.
      (∀ context (b : ScalarBinding), b.coercion = .document →
        coerce vars context b (.ofValue v) = .ok j) ∧
      -- The literal under equality, on any field.
      ∀ (s : QuerySchema) root path (operator : FilterOperator) (d : Draft) e d',
        operator = .eq ∨ operator = .ne → d.parameters.Sequential →
        Gives (compileLeaf s root vars ⟨path, operator.token, .ofValue v⟩) d e d' →
          (v.Vanishes → ChecksNull operator e) ∧ (¬v.Vanishes → ComparesColumn operator d' e) := by
  have resolved : (Operand.ofValue v).resolve vars = .ok v.json :=
    Operand.resolve_ofValue v inline
  have vanishes := Document.Value.json_eq_null_iff inline.ne_variable
  refine ⟨v.json, resolved, fun path => ?_, fun path => ?_, fun negative digits exponent => ?_,
    fun context b document => ?_, fun s root path operator d e d' either sequential compiled => ?_⟩
  · rw [Document.Value.at?_json, Option.isSome_map]
  · rw [Document.Value.at?_json, Option.map_eq_some_iff]
    refine exists_congr fun w => and_congr_right fun found => ?_
    exact Document.Value.json_eq_null_iff (inline.at? found).ne_variable
  · rw [Document.Value.vanishes_float, Binary64.isFinite_ofDecimal]
  · rw [coerce, resolved, Outcome.ok_bind, document]
    simp only [Coercion.input, Coercion.literal, ite_self]
    rfl
  · rw [← vanishes]
    exact compileLeaf_equality either resolved sequential compiled

/-! ### Readings of a meter -/

namespace Sample

/-- The level of a reading, a double. -/
def level : SchemaField :=
  QuerySchema.scalarField ⟨"level", "level", .scalar "Double"⟩
    (.plain "Float" "Built-in Float" .float)

/-- Readings with a level and remarks. -/
def reading : EntityDescriptor :=
  ⟨"Reading", some "readings", none, "readings", some "id",
    [id.descriptor, level.descriptor, (remark "tags").descriptor]⟩

/-- Readings in the schema. -/
def readings : EntityType :=
  ⟨reading, "readings", criteriaTypeName "readings", [id, level, remark "tags"], id⟩

/-- The schema of a meter. -/
def meter : QuerySchema := ⟨"meter", [readings], remarkRegistry⟩

/-- A reading without a level, whose remarks are a list of null. -/
def blank : Tables :=
  [("readings", [[("id", .string "1"), ("tags", .string "[null]")]])]

/-- The readings under a test of a field, by their identifiers. -/
def readingsWhere (name : String) (operator : FilterOperator) (value : Document.Value) :
    Except ExecutionError Json :=
  (Executor.executeRoot ⟨meter, none⟩ (fun q => (pure (blank.run q) : Id _)) []
    (.mk none "readings" [(Planning.whereArgument, .tests name operator value)]
      [.mk none "select" [] [leaf "id"]])).run

/-- The number `1e999` is read without a fault, and becomes null: as a level it
finds the reading without one, and in a list it is like the null there. -/
theorem not_nonnull :
    ¬(∀ v : Document.Value, v.Inline → v ≠ .null →
      ∃ j, (Operand.ofValue v).resolve [] = .ok j ∧ j ≠ .null) ∧
    QuerySchema.build "meter" [reading] remarkRegistry = .ok meter ∧
    Document.value "1e999".toList = .ok (.float (.infinity false)) [] ∧
    readingsWhere "level" .eq (.float (.infinity false)) =
      .ok (.object [("select", .array [.object [("id", .string "1")]])]) ∧
    readingsWhere "tags" .contains (.list [.float (.infinity false)]) =
      .ok (.object [("select", .array [.object [("id", .string "1")]])]) := by
  refine ⟨fun nonnull => ?_, rfl, rfl, rfl, rfl⟩
  obtain ⟨j, resolved, given⟩ := nonnull (.float (.infinity false)) trivial nofun
  cases resolved
  exact given rfl

/-- A list with a number beyond the doubles, and null. -/
def gaps : Document.Value :=
  .object [("a", .list [.float (.ofDecimal false 1 400), .float (.ofDecimal false 15 (-1))]),
    ("b", .null)]

end Sample

/-- Of the literal with gaps, the number beyond the doubles becomes null and
the number beside it does not. -/
theorem nulls_of_literals_gaps :
    Sample.gaps.Inline ∧ ∃ j, (Operand.ofValue Sample.gaps).resolve [] = .ok j ∧
      j.at? [.key "a", .item 0] = some .null ∧ j.at? [.key "a", .item 1] ≠ some .null ∧
      j.at? [.key "b"] = some .null := by
  have inline : Sample.gaps.Inline := ⟨by decide, ⟨trivial, trivial, trivial⟩, trivial, trivial⟩
  obtain ⟨j, resolved, -, null, beyond, -⟩ := nulls_of_literals [] inline
  have large : (Binary64.ofDecimal false 1 400).isFinite = false := by decide +kernel
  refine ⟨inline, j, resolved, (null _).2 ⟨_, rfl, .inr ⟨_, rfl, large⟩⟩, fun other => ?_,
    (null _).2 ⟨_, rfl, .inl rfl⟩⟩
  obtain ⟨w, found, vanishes⟩ := (null _).1 other
  cases found
  exact absurd ((beyond false 15 (-1)).1 vanishes) (by decide +kernel)

end EntityQuery
