/-
EntityQuery/Proofs/Exact.lean

Filters, joins and orders of integers.

All of them compare the integers in the rows by value, unless two of them are
merged by rounding (`Store.Merged`): a test of a field holds of the integers
that stand in its relation to those of the operand, an association links rows
whose keys are the same integer, and sort keys that tie hold the same integers
(`integers_exact`).  Merged integers, of which one is not less than `2^63`,
are taken for equal, so an equality finds a row with another integer, and an
association links rows with different keys (`Sample.not_exact`).
-/
import EntityQuery.Proofs.Rounded
import EntityQuery.Proofs.Tested
import Mathlib.Data.Set.List

namespace EntityQuery

open Store

/-! ### Operands of integer scalars -/

/-- An integer scalar takes nothing but null and integers. -/
theorem Coercion.check_integer {scalar : String} {lenient : Bool} {value v : Json}
    (h : check scalar .integer lenient value = .ok v) : v = .null ∨ ∃ i, v = .ofInt i := by
  simp only [check] at h
  split at h
  · cases h
    exact .inl rfl
  right
  cases value with
  | number n =>
    cases n with
    | int i =>
      cases h
      exact ⟨i, rfl⟩
    | float x finite => cases h
  | string s =>
    simp only [checkInteger] at h
    split at h
    · split at h
      · cases h
        exact ⟨_, rfl⟩
      · cases h
    · cases h
  | _ => cases h

namespace Predicate

variable {vars : Variables} {context scalar : String} {b : ScalarBinding} {operand : Operand}
variable {operator : FilterOperator} {values : List Json}

/-- An operand of an integer scalar is null or an integer. -/
theorem coerce_integer (integer : b.coercion = .plain scalar .integer) {v : Json}
    (h : coerce vars context b operand = .ok v) : v = .null ∨ ∃ i, v = .ofInt i := by
  obtain ⟨j, -, h⟩ := Outcome.bind_eq_ok.1 h
  have taken := Outcome.mapError_eq_ok.1 h
  rw [integer] at taken
  split at taken <;> exact Coercion.check_integer taken

/-- What an operand supplies an operator with on an integer field are integers,
if it is not null. -/
theorem Supplies.integers (integer : b.coercion = .plain scalar .integer)
    (h : Supplies vars context b operand operator values) (present : ∀ v ∈ values, v ≠ .null) :
    ∃ js : List Int, values = js.map .ofInt := by
  have each : ∀ v ∈ values, ∃ i, Json.ofInt i = v := by
    intro v hv
    obtain ⟨o, coerced⟩ := h.coerced v hv
    rcases coerce_integer integer coerced with null | ⟨i, rfl⟩
    · exact absurd null (present v hv)
    · exact ⟨i, rfl⟩
  have range : values ∈ Set.range (List.map Json.ofInt) := by
    rw [Set.range_list_map]
    exact each
  obtain ⟨js, same⟩ := range
  exact ⟨js, same.symm⟩

end Predicate

namespace Store

/-! ### Cells and keys that are integers -/

/-- Integers that are not merged compare as they do by value. -/
theorem forall₂_comparesAs {i : Int} {js : List Int} (apart : ∀ j ∈ js, ¬Merged i j) :
    List.Forall₂ (ComparesAs (Json.ofInt i) i) (js.map Json.ofInt) js := by
  rw [List.forall₂_map_left_iff, List.forall₂_same]
  exact fun j hj => ⟨rfl, compareValues_ofInt (apart j hj)⟩

/-- Integers that are not merged meet if they are equal. -/
theorem meets_ofInt {i j : Int} (apart : ¬Merged i j) :
    meets (.ofInt i) (.ofInt j) = true ↔ i = j := by
  have alike : ComparesAs (Json.ofInt i) i (Json.ofInt j) j := ⟨rfl, compareValues_ofInt apart⟩
  exact alike.isEqual_iff

/-- Integers that are not merged are sorted by size. -/
theorem sortOrder_ofInt {i j : Int} (apart : ¬Merged i j) :
    sortOrder (.ofInt i) (.ofInt j) = compare i j := by
  show (compareValues (.ofInt i) (.ofInt j)).getD .eq = _
  rw [compareValues_ofInt apart]
  rfl

end Store

/-! ### Joins -/

namespace Association

variable {A : Association} {source : Option Row} {row : Row} {own other : String}

/-- The columns that an association compares, of its source and of its
target. -/
def keyColumns? (A : Association) : Option (String × String) :=
  match A.field.descriptor.kind with
  | .toOne _ joinColumn => some (joinColumn, A.target.idColumn)
  | .toMany _ mappedBy => some (A.source.idColumn, mappedBy)
  | .scalar _ => none

/-- Rows whose keys are integers are linked if these are the same. -/
theorem links_ofInt {i j : Int} (columns : A.keyColumns? = some (own, other))
    (hi : cellOf source own = .ofInt i) (hj : cellOf (some row) other = .ofInt j)
    (apart : ¬Merged i j) : A.links source row = true ↔ i = j := by
  rw [keyColumns?] at columns
  rw [links]
  -- An association leads through the column of one side to that of the other.
  cases kind : A.field.descriptor.kind with
  | scalar _ =>
    rw [kind] at columns
    cases columns
  | toOne _ joinColumn =>
    rw [kind] at columns
    cases columns
    dsimp only
    rw [hi, hj, meets_ofInt apart]
  | toMany _ mappedBy =>
    rw [kind] at columns
    cases columns
    dsimp only
    rw [hi, hj, meets_ofInt fun merged => apart merged.symm]
    exact eq_comm

end Association

/-- The association of a join has key columns. -/
theorem Joins.Follows.keyColumns? {s : QuerySchema} {root : EntityType} {before : Joins} {j : Join}
    (follows : Follows s root before j) :
    ∃ A own other, s.associationAt root j.path = some A ∧ A.keyColumns? = some (own, other) := by
  cases follows with
  | @mk p a parent A left right association joined sides =>
  have columns : ∃ own other, A.keyColumns? = some (own, other) := by
    rw [sides?] at sides
    cases kind : A.field.descriptor.kind with
    | scalar _ =>
      rw [kind] at sides
      cases sides
    | toOne _ joinColumn =>
      exact ⟨joinColumn, A.target.idColumn, by rw [Association.keyColumns?, kind]⟩
    | toMany _ mappedBy =>
      exact ⟨A.source.idColumn, mappedBy, by rw [Association.keyColumns?, kind]⟩
  obtain ⟨own, other, columns⟩ := columns
  exact ⟨A, own, other, association, columns⟩

/-! ### Orders -/

namespace Tables

/-- The order of two integers as sort keys. -/
theorem keyOrder_ofInt {i j : Int} (apart : ¬Merged i j) (direction : Direction) :
    keyOrder direction (.ofInt i) (.ofInt j) =
      match direction with
      | .ascending => compare i j
      | .descending => compare j i := by
  cases direction with
  | ascending => exact sortOrder_ofInt apart
  | descending =>
    show (sortOrder (.ofInt i) (.ofInt j)).swap = compare j i
    rw [sortOrder_ofInt apart]
    exact Std.OrientedOrd.eq_swap.symm

/-- Sort keys that tie hold the same integers. -/
theorem eq_of_keysOrder_eq {directions : List Direction} {xs ys : List Json} {n : Nat} {i j : Int}
    (tie : keysOrder directions xs ys = .eq) (within : n < directions.length)
    (hi : xs[n]? = some (.ofInt i)) (hj : ys[n]? = some (.ofInt j)) (apart : ¬Merged i j) :
    i = j := by
  fun_induction keysOrder directions xs ys generalizing n with
  | case1 d ds x xs y ys ih =>
    obtain ⟨first, rest⟩ := Ordering.then_eq_eq.1 tie
    cases n with
    | zero =>
      cases hi
      cases hj
      rw [keyOrder_ofInt apart] at first
      cases d with
      | ascending => exact compare_eq_iff_eq.1 first
      | descending => exact (compare_eq_iff_eq.1 first).symm
    | succ n => exact ih rest (Nat.lt_of_succ_lt_succ within) hi hj
  | case2 directions xs ys short =>
    -- The place is in all three lists, so none of them is empty.
    cases directions with
    | nil => cases within
    | cons d ds =>
      cases xs with
      | nil => cases hi
      | cons x xs =>
        cases ys with
        | nil => cases hj
        | cons y ys => exact (short d ds x xs y ys rfl rfl rfl).elim

end Tables

/-! ### All comparisons -/

open Planner Joins Planning in
/-- **Integers are compared by value, unless rounding merges them.**  Then they
are equal to the store; the greater of two admitted ones is at least `2^63`
and the smaller at most 2048 less. -/
theorem integers_exact [Disorder] {schemaName : String} {descriptors : List EntityDescriptor}
    {registry : ScalarRegistry} {s : QuerySchema}
    (built : QuerySchema.build schemaName descriptors registry = .ok s) :
    -- Two integers.
    (∀ i j : Int, compareValues (.ofInt i) (.ofInt j) =
      some (if Merged i j then .eq else compare i j)) ∧
    (∀ i j : Int, Admitted i → Admitted j → Merged i j →
      2 ^ 63 ≤ max i j ∧ (i - j).natAbs ≤ 2048) ∧
    -- What the operands on an integer field supply.
    (∀ (vars : Variables) context scalar (b : ScalarBinding) operand operator values,
      b.coercion = .plain scalar .integer →
      Predicate.Supplies vars context b operand operator values → (∀ v ∈ values, v ≠ .null) →
        ∃ js : List Int, values = js.map .ofInt) ∧
    -- The leaf of a filter, compiled anywhere, on joined rows.
    (∀ (root : EntityType) vars leaf between g b operator (js : List Int),
      Predicate.Tests s root vars leaf between g b operator (js.map .ofInt) →
      b.storage = .native → ∀ d : Draft, d.parameters.Sequential →
        ∃ e d', Gives (Predicate.compileLeaf s root vars leaf) d e d' ∧
          ∀ binding (choice : Choice), AgreesAt d'.joins binding choice between →
            ∀ i, cellOf (choice between) g.descriptor.column = .ofInt i →
              (∀ j ∈ js, ¬Merged i j) →
                ∃ t : Bool, eval d'.parameters binding e = .ok (.bool t) ∧
                  (t = true ↔ operator.Asks i js)) ∧
    -- The root field, restricted by criteria.
    (∀ (vars : Variables) field plan (entity : EntityType) name g (b : ScalarBinding)
        (operator : FilterOperator) value (js : List Int),
      s.root? field.name = some entity → field.argument? whereArgument = none →
      planRootField s vars field = .ok plan → Criteria.isCombinator name = false →
      entity.field? name = some g → g.binding = some b → b.supports operator = true →
      b.storage = .native →
      Predicate.Supplies vars name b (.ofValue value) operator (js.map .ofInt) →
      ∃ plan', planRootField s vars (field.restrictedBy (.tests name operator value)) =
          .ok plan' ∧
        (∀ row i, cellOf (some row) g.descriptor.column = .ofInt i → (∀ j ∈ js, ¬Merged i j) →
          (plan'.query.holds row = true ↔ operator.Asks i js)) ∧
        ∀ (tables : Tables) rootRows limit,
          Keyed.find? tables plan.query.table = some rootRows →
            tables.run (plan.query.limitedTo limit) =
              .ok (Tables.arranged plan.query.order limit
                (rootRows.flatMap (tables.answersFor plan.query))) ∧
            tables.run (plan'.query.limitedTo limit) =
              .ok (Tables.arranged plan.query.order limit
                ((rootRows.filter plan'.query.holds).flatMap (tables.answersFor plan.query))) ∧
            ∀ row, tables.answersFor plan.query row ≠ []) ∧
    -- The joins of a plan.
    (∀ (root : EntityType) (joins : Joins) j, joins.Numbered → Follows s root joins j →
      ∃ A own other, s.associationAt root j.path = some A ∧ A.keyColumns? = some (own, other) ∧
        ∀ (tables : Tables) ps binding, Spans joins binding →
          tables.extend ps j binding =
            .ok ((A.options tables (choiceOf joins binding j.path.dropLast)).map fun row =>
              binding ++ [(j.tableAlias, row)]) ∧
          ∀ row i k, cellOf (choiceOf joins binding j.path.dropLast) own = .ofInt i →
            cellOf (some row) other = .ofInt k → ¬Merged i k →
              (A.links (choiceOf joins binding j.path.dropLast) row = true ↔ i = k)) ∧
    -- The keys of an order.
    (∀ direction i j, ¬Merged i j → Tables.keyOrder direction (.ofInt i) (.ofInt j) =
      match direction with
      | .ascending => compare i j
      | .descending => compare j i) ∧
    ∀ directions xs ys n i j, Tables.keysOrder directions xs ys = .eq → n < directions.length →
      xs[n]? = some (.ofInt i) → ys[n]? = some (.ofInt j) → ¬Merged i j → i = j := by
  refine ⟨fun i j => congrArg some (compareNumbers_ofInt i j), fun i j => Merged.bounds, ?_, ?_,
    ?_, ?_, fun direction i j apart => Tables.keyOrder_ofInt apart direction, ?_⟩
  · intro vars context scalar b operand operator values integer supplies present
    exact supplies.integers integer present
  · intro root vars leaf between g b operator js tests native d sequential
    obtain ⟨e, d', compiled, said⟩ := tests.eval native sequential
    refine ⟨e, d', compiled, fun binding choice agrees i cell apart => ?_⟩
    have said := said binding choice agrees i js
    rw [cell] at said
    exact said rfl (forall₂_comparesAs apart)
  · intro vars field plan entity name g b operator value js root unrestricted planned plain found
      bound supported native supplies
    obtain ⟨plan', planned', holds, runs⟩ := run_tested built plain root unrestricted planned found
      bound supported native supplies
    refine ⟨plan', planned', fun row i cell apart => ?_, runs⟩
    have holds := holds row i js
    rw [cell] at holds
    exact holds rfl (forall₂_comparesAs apart)
  · intro root joins j numbered follows
    obtain ⟨A, own, other, association, columns⟩ := follows.keyColumns?
    refine ⟨A, own, other, association, columns, fun tables ps binding spans => ⟨?_, ?_⟩⟩
    · obtain ⟨A', association', extended⟩ := tables.extend_eq numbered follows spans ps
      obtain rfl := Option.some.inj (association.symm.trans association')
      exact extended
    · intro row i k hi hk apart
      exact Association.links_ofInt columns hi hk apart
  · intro directions xs ys n i j tie within hi hj apart
    exact Tables.eq_of_keysOrder_eq tie within hi hj apart

/-! ### A depot -/

namespace Sample

/-- A field of integers in a column. -/
def whole (name : String) : SchemaField :=
  QuerySchema.scalarField ⟨name, name, .scalar "Long"⟩ (.plain "Long" "Long type" .integer)

/-- Crates with a number. -/
def crate : EntityDescriptor :=
  ⟨"Crate", some "crates", none, "crates", some "number", [(whole "number").descriptor]⟩

/-- Parcels with a number and a weight, each in at most one crate. -/
def parcel : EntityDescriptor :=
  ⟨"Parcel", some "parcels", none, "parcels", some "number",
    [(whole "number").descriptor, (whole "weight").descriptor,
     ⟨"crate", "crate", .toOne "Crate" "crate"⟩]⟩

/-- Crates in the schema. -/
def crates : EntityType :=
  ⟨crate, "crates", criteriaTypeName "crates", [whole "number"], whole "number"⟩

/-- Parcels in the schema. -/
def parcels : EntityType :=
  ⟨parcel, "parcels", criteriaTypeName "parcels",
    [whole "number", whole "weight",
     QuerySchema.associationField ⟨"crate", "crate", .toOne "Crate" "crate"⟩ (.object "Crate")
       crate], whole "number"⟩

/-- The schema of a depot. -/
def depot : QuerySchema := ⟨"depot", [crates, parcels], .empty⟩

theorem depot_built : QuerySchema.build "depot" [crate, parcel] .empty = .ok depot := rfl

/-- The root field of all parcels. -/
def allParcels (selection : List Document.Field) : Document.Field :=
  .mk none "parcels" [] [.mk none "select" [] selection]

/-- The parcels of a weight, which is given through a variable. -/
def weighing (operator : FilterOperator) : Document.Field :=
  (allParcels [leaf "number"]).restrictedBy (.tests "weight" operator (.variable "v"))

/-- Two parcels whose weights are merged; one names a crate whose number is
merged with that of the crate there is. -/
def stacked : Tables :=
  [("parcels", [
     [("number", .ofInt 1), ("weight", .ofInt 18446744073709551615),
      ("crate", .ofInt 18446744073709551614)],
     [("number", .ofInt 2), ("weight", .ofInt 18446744073709551614)]]),
   ("crates", [[("number", .ofInt 18446744073709551615)]])]

/-- The answer of a root field on these parcels. -/
def stackedAnswer (vars : Variables) (field : Document.Field) : Except ExecutionError Json :=
  (Executor.executeRoot ⟨depot, none⟩ (fun q => (pure (stacked.run q) : Id _)) vars field).run

/-- Merged integers are not told apart: the weight of one parcel finds the
other, too, and is not different from it, a sort leaves the two as they come,
and a parcel is put into a crate with another number. -/
theorem not_exact :
    ¬(∀ i j : Int, Admitted i → Admitted j →
      compareValues (.ofInt i) (.ofInt j) = some (compare i j)) ∧
    stackedAnswer [("v", .ofInt 18446744073709551615)] (weighing .eq) =
      .ok (.object [("select", .array [.object [("number", .ofInt 1)],
        .object [("number", .ofInt 2)]])]) ∧
    stackedAnswer [("v", .ofInt 18446744073709551615)] (weighing .ne) =
      .ok (.object [("select", .array [])]) ∧
    stackedAnswer [] (allParcels [leaf "number",
        .mk none "weight" [("orderBy", .enum "ASC")] []]) =
      .ok (.object [("select", .array [
        .object [("number", .ofInt 1), ("weight", .ofInt 18446744073709551615)],
        .object [("number", .ofInt 2), ("weight", .ofInt 18446744073709551614)]])]) ∧
    stackedAnswer [] (allParcels [.mk none "crate" [] [leaf "number"]]) =
      .ok (.object [("select", .array [
        .object [("crate", .object [("number", .ofInt 18446744073709551615)])],
        .object [("crate", .null)]])]) := by
  refine ⟨fun exact => ?_, rfl, rfl, rfl, rfl⟩
  have tie := exact 18446744073709551615 18446744073709551614 ⟨by decide, by decide⟩
    ⟨by decide, by decide⟩
  exact absurd tie (by decide)

end Sample

/-- In the depot a weight of `2^64 - 1` is told from the greatest integer of 64
bits with a sign. -/
theorem integers_exact_depot :
    let greatest := Json.ofInt 18446744073709551615
    QuerySchema.build "depot" [Sample.crate, Sample.parcel] .empty = .ok Sample.depot ∧
      ∃ plan, Planning.planRootField Sample.depot [("v", greatest)] (Sample.weighing .lt) =
          .ok plan ∧
        plan.query.holds [("weight", .ofInt 9223372036854775807)] = true ∧
        plan.query.holds [("weight", greatest)] = false := by
  intro greatest
  refine ⟨Sample.depot_built, ?_⟩
  obtain ⟨-, -, -, -, restricted, -⟩ := integers_exact Sample.depot_built
  have planned : Planning.planRootField Sample.depot [("v", greatest)]
    (Sample.allParcels [Sample.leaf "number"]) = .ok _ := rfl
  obtain ⟨plan, planned', holds, -⟩ := restricted [("v", greatest)] _ _ Sample.parcels "weight"
    (Sample.whole "weight") _ .lt (.variable "v") [18446744073709551615] rfl rfl planned
    (by decide) rfl rfl rfl rfl (.value rfl rfl)
  have less : (9223372036854775807 : Int) < 18446744073709551615 := by decide
  have apart : ∀ i : Int, ¬Merged i 18446744073709551615 →
      ∀ j ∈ [18446744073709551615], ¬Merged i j := fun i h =>
    List.forall_mem_singleton.2 h
  refine ⟨plan, planned', (holds _ _ rfl (apart 9223372036854775807 (by decide))).2 less, ?_⟩
  rw [← Bool.not_eq_true, holds _ _ rfl (apart 18446744073709551615 (by decide))]
  exact lt_irrefl (18446744073709551615 : Int)

end EntityQuery
