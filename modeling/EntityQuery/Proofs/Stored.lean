/-
EntityQuery/Proofs/Stored.lean

What calls to insert objects leave in a store.

A call (`StoreAction.insert`) works on the tables of a store and may fail;
whatever it had changed by then would stay changed.  It builds the whole row
before it touches a table, so a call that fails changes nothing, and it fails
exactly if its entity is unknown, or what it was given is no object, or some
member of it names no field of the entity (`StoreAction.insert_eq_error`).

Call by call, the table of an entity, if no other entity has it, gets one row
for each object of the entity, in order (`StoreAction.rowsOf_insertAll`).
Calls for other entities, and calls that fail, add nothing to it.
-/
import EntityQuery.Proofs.Filled
import EntityQuery.Proofs.Reread
import EntityQuery.Proofs.Roots

namespace EntityQuery

open Store

/-! ### Objects that are refused -/

/-- Why an object is not inserted: its entity is unknown, or it is no object,
or a member of it, the first of this kind, names no field. -/
inductive Refused (s : QuerySchema) (entity : String) (object : Json) : StoreError → Prop
  | unknown (none : s.entity? entity = none) : Refused s entity object (.unknownTable entity)
  | noObject {e : EntityType} (known : s.entity? entity = some e)
      (other : ∀ members, object ≠ .object members) :
      Refused s entity object (.malformedRow (entity ++ " must be given as an object"))
  | unknownField {e : EntityType} {before after : List (String × Json)} {name : String}
      {value : Json} (known : s.entity? entity = some e)
      (members : object = .object (before ++ (name, value) :: after))
      (first : ∀ member ∈ before, (e.field? member.1).isSome) (none : e.field? name = none) :
      Refused s entity object (.malformedRow (e.name ++ " has no field '" ++ name ++ "'"))

namespace Tables

variable {s : QuerySchema} {e : EntityType} {tables : Tables}

/-- A row is refused at the first member that names no field. -/
theorem rowOf_eq_error {row : Row} {members : List (String × Json)} {fault : StoreError} :
    rowOf e row members = .error fault ↔
      ∃ before name value after, members = before ++ (name, value) :: after ∧
        (∀ member ∈ before, (e.field? member.1).isSome) ∧ e.field? name = none ∧
        fault = .malformedRow (e.name ++ " has no field '" ++ name ++ "'") := by
  -- Along the members: the first that names no field is the one complained of.
  induction members generalizing row with
  | nil =>
    refine iff_of_false nofun ?_
    rintro ⟨before, name, value, after, members, -⟩
    exact List.cons_ne_nil _ _ (List.append_eq_nil_iff.1 members.symm).2
  | cons member members ih =>
    obtain ⟨name, value⟩ := member
    rw [rowOf]
    cases found : e.field? name with
    | none =>
      constructor
      · rintro ⟨⟩
        exact ⟨[], name, value, members, rfl, List.forall_mem_nil _, found, rfl⟩
      · rintro ⟨before, other, value', after, same, first, none, rfl⟩
        cases before with
        | nil =>
          cases same
          rfl
        | cons first' before =>
          cases same
          have := first _ List.mem_cons_self
          rw [found] at this
          cases this
    | some field =>
      refine ih.trans ⟨?_, ?_⟩
      · rintro ⟨before, other, value', after, rfl, first, none, rfl⟩
        refine ⟨(name, value) :: before, other, value', after, rfl, ?_, none, rfl⟩
        exact List.forall_mem_cons.2 ⟨by rw [found]; rfl, first⟩
      · rintro ⟨before, other, value', after, same, first, none, rfl⟩
        cases before with
        | nil =>
          cases same
          cases found.symm.trans none
        | cons first' before =>
          cases same
          exact ⟨before, other, value', after, rfl,
            fun member hm => first member (List.mem_cons_of_mem _ hm), none, rfl⟩

/-- A row is made of members that all name fields. -/
theorem exists_rowOf {row : Row} {members : List (String × Json)} :
    (∃ row', rowOf e row members = .ok row') ↔
      ∀ member ∈ members, (e.field? member.1).isSome := by
  induction members generalizing row with
  | nil => exact iff_of_true ⟨row, rfl⟩ (List.forall_mem_nil _)
  | cons member members ih =>
    obtain ⟨name, value⟩ := member
    rw [rowOf, List.forall_mem_cons]
    cases found : e.field? name with
    | none =>
      refine iff_of_false ?_ (by simp)
      rintro ⟨row', ⟨⟩⟩
    | some field => exact ih.trans (by simp)

/-- A call fails exactly as it is refused. -/
theorem insertEntity_eq_error {entity : String} {object : Json} {fault : StoreError} :
    tables.insertEntity s entity object = .error fault ↔ Refused s entity object fault := by
  simp only [insertEntity]
  cases found : s.entity? entity with
  | none =>
    constructor
    · rintro ⟨⟩
      exact .unknown found
    · intro refused
      cases refused with
      | unknown => rfl
      | noObject known => cases found.symm.trans known
      | unknownField known => cases found.symm.trans known
  | some e =>
    cases object with
    | object members =>
      dsimp only
      constructor
      · intro h
        -- An object is refused only for a member that names no field.
        cases made : rowOf e [] members with
        | ok row =>
          rw [made] at h
          cases h
        | error fault' =>
          rw [made] at h
          cases h
          obtain ⟨before, name, value, after, rfl, first, none, rfl⟩ := rowOf_eq_error.1 made
          exact .unknownField found rfl first none
      · intro refused
        cases refused with
        | unknown none => cases found.symm.trans none
        | noObject known other => exact absurd rfl (other members)
        | unknownField known same first none =>
          cases found.symm.trans known
          cases same
          rw [rowOf_eq_error.2 ⟨_, _, _, _, rfl, first, none, rfl⟩]
          rfl
    | _ =>
      constructor
      · rintro ⟨⟩
        refine .noObject found ?_
        rintro members ⟨⟩
      · intro refused
        cases refused with
        | unknown none => cases found.symm.trans none
        | noObject known other => rfl
        | unknownField known same => cases same

end Tables

/-! ### Calls -/

/-- What works on the tables of a store and may fail.  What it changed before
it failed stays changed. -/
abbrev StoreAction := ExceptT StoreError (StateM Tables)

namespace StoreAction

/-- Insert an object of an entity. -/
def insert (s : QuerySchema) (entity : String) (object : Json) : StoreAction Unit :=
  match s.entity? entity with
  | none => throw (.unknownTable entity)
  | some e =>
    match object with
    | .object members => do
      let row ← liftM (Tables.rowOf e [] members)
      modify fun tables => tables.insertRow e.descriptor.qualifiedTable row
    | _ => throw (.malformedRow (entity ++ " must be given as an object"))

/-- Insert objects one after another, each whether or not the calls before it
failed. -/
def insertAll (s : QuerySchema) (calls : List (String × Json)) :
    StateM Tables (List (Except StoreError Unit)) :=
  calls.mapM fun call => (insert s call.1 call.2).run

variable {s : QuerySchema} {tables tables' : Tables}

/-- A call leaves the tables with its object inserted, or else as they were. -/
theorem run_insert (s : QuerySchema) (entity : String) (object : Json) (tables : Tables) :
    (insert s entity object).run.run tables =
      match tables.insertEntity s entity object with
      | .ok tables' => (.ok (), tables')
      | .error fault => (.error fault, tables) := by
  simp only [insert, Tables.insertEntity]
  cases s.entity? entity with
  | none => rfl
  | some e =>
    cases object with
    | object members =>
      dsimp only
      cases made : Tables.rowOf e [] members <;> rfl
    | _ => rfl

/-- **A call that fails changes nothing**, and it fails exactly if its object
is refused. -/
theorem insert_eq_error {entity : String} {object : Json} {fault : StoreError} :
    (insert s entity object).run.run tables = (.error fault, tables') ↔
      Refused s entity object fault ∧ tables' = tables := by
  rw [run_insert, ← Tables.insertEntity_eq_error]
  cases tables.insertEntity s entity object with
  | ok tables'' => exact iff_of_false nofun nofun
  | error fault' =>
    constructor
    · rintro ⟨⟩
      exact ⟨rfl, rfl⟩
    · rintro ⟨⟨⟩, rfl⟩
      rfl

theorem run_insertAll_cons (call : String × Json) (calls : List (String × Json)) :
    ((insertAll s (call :: calls)).run tables).2 =
      ((insertAll s calls).run ((insert s call.1 call.2).run.run tables).2).2 := by
  simp only [insertAll, List.mapM_cons]
  rfl

end StoreAction

/-! ### The rows of an entity -/

/-- The object that a call inserts, if it is one of the entity and all of its
members name fields. -/
def EntityType.inserted? (e : EntityType) (call : String × Json) : Option (List (String × Json)) :=
  match call.2 with
  | .object members =>
    if call.1 = e.name ∧ ∀ member ∈ members, (e.field? member.1).isSome then some members
    else none
  | _ => none

/-- The rows are made of the objects, one of each. -/
abbrev EntityType.RowsOf (e : EntityType) : List (List (String × Json)) → List Row → Prop :=
  List.Forall₂ fun members row => Tables.rowOf e [] members = .ok row

namespace StoreAction

variable {s : QuerySchema} {e : EntityType} {tables : Tables}

theorem inserted?_eq_some {call : String × Json} {members : List (String × Json)} :
    e.inserted? call = some members ↔
      call = (e.name, .object members) ∧ ∀ member ∈ members, (e.field? member.1).isSome := by
  obtain ⟨entity, object⟩ := call
  cases object with
  | object members' =>
    simp only [EntityType.inserted?]
    split
    · next h =>
      constructor
      · rintro ⟨⟩
        exact ⟨by rw [h.1], h.2⟩
      · rintro ⟨⟨⟩, -⟩
        rfl
    · next h =>
      refine iff_of_false nofun ?_
      rintro ⟨⟨⟩, all⟩
      exact h ⟨rfl, all⟩
  | _ => exact iff_of_false nofun nofun

/-- A call adds a row to the table of an entity if it inserts an object of the
entity, and otherwise nothing. -/
theorem rowsOf_insert (known : s.entity? e.name = some e)
    (own : ∀ e' ∈ s.entities, e'.descriptor.qualifiedTable = e.descriptor.qualifiedTable → e' = e)
    (call : String × Json) (tables : Tables) :
    ∃ rows, e.RowsOf (e.inserted? call).toList rows ∧
      ((insert s call.1 call.2).run.run tables).2.rowsOf e.descriptor.qualifiedTable =
        tables.rowsOf e.descriptor.qualifiedTable ++ rows := by
  obtain ⟨entity, object⟩ := call
  rw [run_insert]
  cases outcome : tables.insertEntity s entity object with
  | error fault =>
    have nothing : e.inserted? (entity, object) = none := by
      refine Option.eq_none_iff_forall_ne_some.2 fun members h => ?_
      obtain ⟨⟨⟩, all⟩ := inserted?_eq_some.1 h
      obtain ⟨row, made⟩ := Tables.exists_rowOf.2 all
      simp only [Tables.insertEntity] at outcome
      rw [known] at outcome
      dsimp only at outcome
      rw [made] at outcome
      cases outcome
    rw [nothing]
    exact ⟨[], .nil, (List.append_nil _).symm⟩
  | ok tables' =>
    cases object with
    | object members =>
      obtain ⟨e', row, found, made, rfl⟩ := Tables.insertEntity_cases outcome
      have named : e'.name = entity := by simpa using List.find?_some found
      by_cases same : e.descriptor.qualifiedTable = e'.descriptor.qualifiedTable
      · -- The table is the entity's own, so the object is one of it.
        obtain rfl := own e' (QuerySchema.mem_of_entity? found) same.symm
        have inserted : e'.inserted? (entity, .object members) = some members :=
          inserted?_eq_some.2 ⟨by rw [named], Tables.exists_rowOf.1 ⟨row, made⟩⟩
        rw [inserted]
        exact ⟨[row], .cons made .nil, Tables.rowsOf_insertRow_self _ _ _⟩
      · have nothing : e.inserted? (entity, .object members) = none := by
          refine Option.eq_none_iff_forall_ne_some.2 fun members h => ?_
          obtain ⟨⟨⟩, -⟩ := inserted?_eq_some.1 h
          cases known.symm.trans found
          exact same rfl
        rw [nothing]
        exact ⟨[], .nil, by rw [List.append_nil]; exact Tables.rowsOf_insertRow_of_ne _ _ same⟩
    | _ =>
      simp only [Tables.insertEntity] at outcome
      split at outcome <;> cases outcome

/-- **Calls add a row for each object of an entity, in order.**  The entity is
to be the only one with its table. -/
theorem rowsOf_insertAll (known : s.entity? e.name = some e)
    (own : ∀ e' ∈ s.entities, e'.descriptor.qualifiedTable = e.descriptor.qualifiedTable → e' = e)
    (calls : List (String × Json)) (tables : Tables) :
    ∃ rows, e.RowsOf (calls.filterMap e.inserted?) rows ∧
      ((insertAll s calls).run tables).2.rowsOf e.descriptor.qualifiedTable =
        tables.rowsOf e.descriptor.qualifiedTable ++ rows := by
  induction calls generalizing tables with
  | nil => exact ⟨[], .nil, (List.append_nil _).symm⟩
  | cons call calls ih =>
    obtain ⟨first, made, one⟩ := rowsOf_insert known own call tables
    obtain ⟨rows, others, all⟩ := ih ((insert s call.1 call.2).run.run tables).2
    refine ⟨first ++ rows, ?_, ?_⟩
    · rw [List.filterMap_eq_flatMap_toList, List.flatMap_cons, ← List.filterMap_eq_flatMap_toList]
      exact List.rel_append made others
    · rw [run_insertAll_cons, all, one, List.append_assoc]

end StoreAction

/-! ### Cells and identifiers -/

namespace Tables

variable {e : EntityType} {g : SchemaField} {tables : Tables}

/-- In a column of its own, the row of an object has the stored form of what
the object gives to the field, and null where it gives nothing. -/
theorem cell_rowOf {name : String} {members : List (String × Json)} {row : Row}
    (found : e.field? name = some g) (alone : e.Alone g) (distinct : (Keyed.keys members).Nodup)
    (made : rowOf e [] members = .ok row) :
    cellOf (some row) g.descriptor.column = storedForm g ((Json.object members).member name) := by
  simp only [cellOf, Json.member]
  cases given : Keyed.find? members name with
  | some value =>
    rw [find?_rowOf_of_mem found alone distinct (Keyed.mem_of_find? given) made]
    rfl
  | none =>
    -- No member has the name, so none has the field.
    have others : ∀ name' ∈ Keyed.keys members, ∀ g', e.field? name' = some g' →
        g'.descriptor.column ≠ g.descriptor.column := by
      intro name' hm g' found' same
      obtain rfl := alone name' g' found' same
      have called : g'.name = name := by simpa using List.find?_some found
      have called' : g'.name = name' := by simpa using List.find?_some found'
      rw [← called', called] at hm
      exact Keyed.find?_eq_none.1 given hm
    rw [find?_rowOf others made]
    simp only [storedForm]
    cases g.binding <;> rfl

/-- A value that is not null is not stored as null. -/
theorem isNull_storedForm {v : Json} (h : v.isNull = false) : (storedForm g v).isNull = false := by
  simp only [storedForm]
  cases g.binding with
  | none => exact h
  | some b =>
    simp only [h, Bool.false_eq_true, if_false]
    cases b.coercion with
    | plain scalar kind => exact h
    | document => rfl

/-- Stored forms have one text only if the values have. -/
theorem text_of_text_storedForm {v w : Json} (hv : v.isNull = false) (hw : w.isNull = false)
    (same : (storedForm g v).text = (storedForm g w).text) : v.text = w.text := by
  -- A string is read back from its text, so that strings with one text are the same.
  have texts : ∀ {a b : String}, (Json.string a).text = (Json.string b).text → a = b := by
    intro a b same
    have back := congrArg Json.read? same
    have read : ∀ t : String, Json.read? (Json.string t).text = some (.string t) := fun t =>
      Json.read?_text (j := .string t) trivial (Nat.zero_le _)
    rw [read, read] at back
    exact Json.string.inj (Option.some.inj back)
  simp only [storedForm] at same
  cases bound : g.binding with
  | none =>
    rw [bound] at same
    exact same
  | some b =>
    rw [bound] at same
    simp only [hv, hw, Bool.false_eq_true, if_false] at same
    cases coercion : b.coercion with
    | plain scalar kind =>
      rw [coercion] at same
      exact same
    | document =>
      rw [coercion] at same
      exact texts same

/-- Rows are told apart by their identifiers if their objects are. -/
theorem identifies_of_rowsOf {objects : List (List (String × Json))} {rows : List Row}
    (found : e.field? e.idField.name = some e.idField) (alone : e.Alone e.idField)
    (distinct : ∀ members ∈ objects, (Keyed.keys members).Nodup)
    (nonempty : objects ≠ [])
    (present : ∀ members ∈ objects,
      ((Json.object members).member e.idField.name).isNull = false)
    (apart : (objects.map fun members =>
      ((Json.object members).member e.idField.name).text).Nodup)
    (made : e.RowsOf objects rows)
    (table : tables.rowsOf e.descriptor.qualifiedTable = rows) : tables.Identifies e := by
  -- The identifiers of the rows are what was given for them, in the form in which it is stored.
  have cells : rows.map (fun row => cellOf (some row) e.idColumn) = objects.map fun members =>
      storedForm e.idField ((Json.object members).member e.idField.name) := by
    rw [eq_comm, ← List.forall₂_eq_eq_eq, List.forall₂_map_left_iff, List.forall₂_map_right_iff]
    refine ((List.forall₂_and_left _ _).2 ⟨distinct, made⟩).imp fun members row h => ?_
    exact (cell_rowOf found alone h.1 h.2).symm
  refine ⟨?_, fun row hr => ?_, ?_⟩
  · cases exists' : Keyed.find? tables e.descriptor.qualifiedTable with
    | some rows => rfl
    | none =>
      simp only [rowsOf] at table
      rw [exists'] at table
      cases table
      exact absurd (List.forall₂_nil_right_iff.1 made) nonempty
  · rw [table] at hr
    have mem : cellOf (some row) e.idColumn ∈ objects.map fun members =>
        storedForm e.idField ((Json.object members).member e.idField.name) :=
      cells ▸ List.mem_map_of_mem hr
    obtain ⟨members, hm, same⟩ := List.mem_map.1 mem
    rw [← same]
    exact isNull_storedForm (present members hm)
  · rw [table]
    have texts := congrArg (List.map Json.text) cells
    rw [List.map_map, List.map_map] at texts
    refine (congrArg List.Nodup texts).mpr ?_
    rw [List.Nodup, List.pairwise_map] at apart ⊢
    refine apart.imp_of_mem fun hm hn ne same => ne ?_
    exact text_of_text_storedForm (present _ hm) (present _ hn) same

end Tables

end EntityQuery
