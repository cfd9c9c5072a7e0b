/-
EntityQuery/Proofs/Filled.lean

Stores that are filled object by object.

`Tables.Filled` holds of the stores that come about by inserting objects, where
`given` says which values the objects have in the fields of their entities.
Of an entity with a table of its own, and a field with a column of its own,
every stored cell is then null or the stored form of a value that was given
(`Tables.Filled.cell`): one inserted object keeps this, and so do all of them
one after another.

`Tables.Inserted` holds of the row that one inserted object becomes.  In a
column of its own it has the stored form of what the object gives to the field
(`Tables.Inserted.cell`), whatever else the object has.
-/
import EntityQuery.Proofs.Columns

namespace EntityQuery

open Store

/-- The entity has a table of its own, and the field a column of its own in
it. -/
structure QuerySchema.OwnColumn (s : QuerySchema) (e : EntityType) (field : SchemaField) :
    Prop where
  table : ∀ e' ∈ s.entities, e'.descriptor.qualifiedTable = e.descriptor.qualifiedTable → e' = e
  column : ∀ name field', e.field? name = some field' →
    field'.descriptor.column = field.descriptor.column → field' = field

/-- The field has a column of its own among the fields of the entity. -/
def EntityType.Alone (e : EntityType) (field : SchemaField) : Prop :=
  ∀ name field', e.field? name = some field' →
    field'.descriptor.column = field.descriptor.column → field' = field

theorem EntityType.alone_of_forall {e : EntityType} {field : SchemaField}
    (only : ∀ field' ∈ e.fields, field'.descriptor.column = field.descriptor.column →
      field' = field) : e.Alone field :=
  fun _ field' found => only field' (List.mem_of_find?_eq_some found)

namespace Tables

/-- The store was filled with objects whose fields have these values. -/
inductive Filled (s : QuerySchema) (given : EntityType → SchemaField → Json → Prop) :
    Tables → Prop
  | empty : Filled s given Tables.empty
  | insert {tables tables' : Tables} {entity : String} {members : List (String × Json)}
      (filled : Filled s given tables)
      (values : ∀ e, s.entity? entity = some e → ∀ name value, (name, value) ∈ members →
        ∀ field, e.field? name = some field → given e field value)
      (inserted : tables.insertEntity s entity (.object members) = .ok tables') :
      Filled s given tables'

/-- The cell is null, or holds what was given to a field. -/
def Holds (given : Json → Prop) (field : SchemaField) (cell : Json) : Prop :=
  cell = .null ∨ ∃ value, given value ∧ cell = storedForm field value

/-- What is stored of a bound field: nothing, or the stored form of a value that
is not null. -/
theorem Holds.cases {given : Json → Prop} {field : SchemaField} {b : ScalarBinding} {cell : Json}
    (h : Holds given field cell) (bound : field.binding = some b) :
    cell = .null ∨
      ∃ value, given value ∧ value.isNull = false ∧ cell = b.coercion.stored value := by
  refine h.elim .inl ?_
  rintro ⟨value, was, rfl⟩
  simp only [storedForm]
  rw [bound]
  cases null : value.isNull with
  | true => exact .inl (Json.isNull_iff.1 null)
  | false => exact .inr ⟨value, was, null, rfl⟩

/-- The members of an object leave in the column of a field what they give to
it. -/
theorem holds_rowOf {e : EntityType} {field : SchemaField} {given : Json → Prop}
    {members : List (String × Json)} {row row' : Row}
    (alone : ∀ name field', e.field? name = some field' →
      field'.descriptor.column = field.descriptor.column → field' = field)
    (values : ∀ name value, (name, value) ∈ members → e.field? name = some field → given value)
    (h : rowOf e row members = .ok row')
    (before : Holds given field (cellOf (some row) field.descriptor.column)) :
    Holds given field (cellOf (some row') field.descriptor.column) := by
  induction members generalizing row with
  | nil =>
    cases h
    exact before
  | cons member members ih =>
    obtain ⟨name, value⟩ := member
    rw [rowOf] at h
    split at h
    · cases h
    · next field' found =>
      refine ih (fun name value hm => values name value (List.mem_cons_of_mem _ hm)) h ?_
      by_cases same : field.descriptor.column = field'.descriptor.column
      · -- This member is for the column.
        obtain rfl := alone name field' found same.symm
        refine .inr ⟨value, values name value List.mem_cons_self found, ?_⟩
        simp only [cellOf]
        rw [Keyed.find?_put_self, Option.getD_some]
      · simp only [cellOf] at before ⊢
        rw [Keyed.find?_put_of_ne _ _ same]
        exact before

/-- A table has the rows that it had, and the new one behind them. -/
theorem rowsOf_insertRow_self (tables : Tables) (table : String) (row : Row) :
    rowsOf (insertRow tables table row) table = rowsOf tables table ++ [row] := by
  simp only [rowsOf, insertRow]
  rw [Keyed.find?_put_self]
  rfl

theorem rowsOf_insertRow_of_ne (tables : Tables) {table other : String} (row : Row)
    (h : other ≠ table) : rowsOf (insertRow tables table row) other = rowsOf tables other := by
  simp only [rowsOf, insertRow]
  rw [Keyed.find?_put_of_ne _ _ h]

variable {s : QuerySchema} {given : EntityType → SchemaField → Json → Prop} {tables : Tables}
variable {e : EntityType} {field : SchemaField}

/-- One inserted object is one more row, of its own table. -/
theorem insertEntity_cases {tables' : Tables} {entity : String} {members : List (String × Json)}
    (h : tables.insertEntity s entity (.object members) = .ok tables') :
    ∃ e row, s.entity? entity = some e ∧ rowOf e [] members = .ok row ∧
      tables' = insertRow tables e.descriptor.qualifiedTable row := by
  simp only [insertEntity] at h
  split at h
  · cases h
  · next e found =>
    obtain ⟨row, made, rfl⟩ := Outcome.map_eq_ok.1 h
    exact ⟨e, row, found, made, rfl⟩

/-- **What is stored was given.**  In the own column of a field, in the own
table of its entity, a cell is null or the stored form of a given value. -/
theorem Filled.cell (h : Filled s given tables) (own : s.OwnColumn e field) :
    ∀ row ∈ tables.rowsOf e.descriptor.qualifiedTable,
      Holds (given e field) field (cellOf (some row) field.descriptor.column) := by
  induction h with
  | empty => exact List.forall_mem_nil _
  | @insert tables tables' entity members filled values inserted ih =>
    obtain ⟨e', row, found, made, rfl⟩ := insertEntity_cases inserted
    by_cases same : e.descriptor.qualifiedTable = e'.descriptor.qualifiedTable
    · obtain rfl := own.table e' (QuerySchema.mem_of_entity? found) same.symm
      rw [rowsOf_insertRow_self]
      refine List.forall_mem_append.2 ⟨ih, List.forall_mem_singleton.2 ?_⟩
      exact holds_rowOf own.column
        (fun name value hm named => values e' found name value hm field named) made (.inl rfl)
    · rw [rowsOf_insertRow_of_ne _ _ same]
      exact ih

/-! ### One row -/

/-- The row is the one that an inserted object of the entity became, and the
object, which has every name once, gave the value to the field of the name. -/
inductive Inserted (s : QuerySchema) (e : EntityType) (name : String) (value : Json) (row : Row) :
    Prop
  | intro {tables : Tables} {entity : String} {members : List (String × Json)}
      (known : s.entity? entity = some e) (distinct : (Keyed.keys members).Nodup)
      (gives : (name, value) ∈ members)
      (inserted : tables.insertEntity s entity (.object members) =
        .ok (tables.insertRow e.descriptor.qualifiedTable row))

/-- Members for other columns leave a column as it is. -/
theorem find?_rowOf {column : String} {members : List (String × Json)} {row row' : Row}
    (others : ∀ name ∈ Keyed.keys members, ∀ field', e.field? name = some field' →
      field'.descriptor.column ≠ column)
    (h : rowOf e row members = .ok row') : Keyed.find? row' column = Keyed.find? row column := by
  induction members generalizing row with
  | nil =>
    cases h
    rfl
  | cons member members ih =>
    obtain ⟨name, value⟩ := member
    rw [rowOf] at h
    split at h
    · cases h
    · next field' found =>
      rw [ih (fun name hm => others name (List.mem_cons_of_mem _ hm)) h]
      exact Keyed.find?_put_of_ne _ _ (others name List.mem_cons_self field' found).symm

/-- A member whose field has a column of its own fills it. -/
theorem find?_rowOf_of_mem {name : String} {value : Json} {members : List (String × Json)}
    {row row' : Row} (found : e.field? name = some field)
    (alone : e.Alone field) (distinct : (Keyed.keys members).Nodup)
    (gives : (name, value) ∈ members) (h : rowOf e row members = .ok row') :
    Keyed.find? row' field.descriptor.column = some (storedForm field value) := by
  induction members generalizing row with
  | nil => cases gives
  | cons member members ih =>
    obtain ⟨first, value'⟩ := member
    obtain ⟨new, distinct⟩ := List.nodup_cons.1 distinct
    rw [rowOf] at h
    split at h
    · cases h
    · next field' found' =>
      rcases List.mem_cons.1 gives with here | below
      · cases here
        cases found.symm.trans found'
        -- No later member has the name, so none has the field.
        have others : ∀ name' ∈ Keyed.keys members, ∀ field', e.field? name' = some field' →
            field'.descriptor.column ≠ field.descriptor.column := by
          intro name' hm field' again same
          obtain rfl := alone name' field' again same
          have called : field'.name = name := by simpa using List.find?_some found
          have called' : field'.name = name' := by simpa using List.find?_some again
          rw [← called', called] at hm
          exact new hm
        rw [find?_rowOf others h, Keyed.find?_put_self]
      · exact ih distinct below h

/-- An inserted row has the stored form of what was given to the field. -/
theorem Inserted.cell {name : String} {value : Json} {row : Row}
    (h : Inserted s e name value row) (found : e.field? name = some field)
    (alone : e.Alone field) :
    cellOf (some row) field.descriptor.column = storedForm field value := by
  obtain ⟨known, distinct, gives, inserted⟩ := h
  obtain ⟨e', row', known', made, same⟩ := insertEntity_cases inserted
  cases known.symm.trans known'
  -- The table has the same rows either way, so the last one is the same.
  have rows := congrArg (rowsOf · e.descriptor.qualifiedTable) same
  simp only [rowsOf_insertRow_self] at rows
  obtain rfl : row = row' := by simpa using rows
  simp only [cellOf]
  rw [find?_rowOf_of_mem found alone distinct gives made]
  rfl

end Tables

end EntityQuery
