/-
EntityQuery/Proofs/Contained.lean

Containment is equality of documents.

A document lies in its column as JSON text, the candidate is bound as JSON
text, and both are read again before they are compared.  Since the texts are
read back as what was written (`Json.read?_text`), the comparison is that of
the two documents themselves, whatever their strings spell
(`Store.sameDocumentValue_text`).  It holds if they are alike member by member
and item by item (`Json.Alike`, `Json.same_iff`), so the leaf of a filter is
true of the rows whose documents are like the candidate, and unknown of those
without a document (`Planning.run_contained`).

As with every other operator, criteria can only name fields that are not
called like a combinator (`Sample.not_contained`).
-/
import EntityQuery.Proofs.Reread
import EntityQuery.Proofs.Sought

namespace EntityQuery

open Store

namespace Keyed

variable {α β : Type} {m : Keyed α} {n : Keyed β}

/-- Of two lists of the same length, each with every name once, one has the
names of the other if they are among them. -/
theorem keys_iff_of_subset (hm : m.keys.Nodup) (hn : n.keys.Nodup) :
    (∀ name, name ∈ m.keys ↔ name ∈ n.keys) ↔
      m.length = n.length ∧ ∀ name ∈ m.keys, name ∈ n.keys := by
  have lengths : m.keys.length = m.length ∧ n.keys.length = n.length :=
    ⟨List.length_map _, List.length_map _⟩
  constructor
  · intro same
    have := ((List.perm_ext_iff_of_nodup hm hn).2 same).length_eq
    exact ⟨by omega, fun name => (same name).1⟩
  · rintro ⟨length, subset⟩
    have perm := (List.subperm_of_subset hm subset).perm_of_length_le (by omega)
    exact fun name => perm.mem_iff

end Keyed

namespace Json

/-! ### Equality of documents -/

/-- Two values are the same document: of one type, lists item by item, objects
name by name in any order.  An integer is never a double. -/
inductive Alike : Json → Json → Prop
  | null : Alike .null .null
  | bool (b : Bool) : Alike (.bool b) (.bool b)
  | integer (i : Int) : Alike (.number (.int i)) (.number (.int i))
  | double {x y : Binary64} {hx : x.isFinite = true} {hy : y.isFinite = true}
      (value : x.units = y.units) : Alike (.number (.float x hx)) (.number (.float y hy))
  | string (s : String) : Alike (.string s) (.string s)
  | array {xs ys : List Json} (length : xs.length = ys.length)
      (items : ∀ (i : Nat) x y, xs[i]? = some x → ys[i]? = some y → Alike x y) :
      Alike (.array xs) (.array ys)
  | object {xs ys : List (String × Json)}
      (names : ∀ name, name ∈ Keyed.keys xs ↔ name ∈ Keyed.keys ys)
      (values : ∀ name x y, Keyed.find? xs name = some x → Keyed.find? ys name = some y →
        Alike x y) :
      Alike (.object xs) (.object ys)

theorem sameNumber_iff {m n : JsonNumber} :
    m.same n = true ↔ Alike (.number m) (.number n) := by
  constructor
  · intro h
    cases m with
    | int i =>
      cases n with
      | int j =>
        obtain rfl : i = j := by simpa [JsonNumber.same] using h
        exact .integer i
      | float y hy => cases h
    | float x hx =>
      cases n with
      | int j => cases h
      | float y hy =>
        have place : x.place = y.place := by simpa [JsonNumber.same] using h
        have hxy := Binary64.units_lt_iff (x := x) (y := y)
        have hyx := Binary64.units_lt_iff (x := y) (y := x)
        exact .double (by omega)
  · intro h
    cases h with
    | integer i => simp [JsonNumber.same]
    | @double x y hx hy value =>
      have hxy := Binary64.units_lt_iff (x := x) (y := y)
      have hyx := Binary64.units_lt_iff (x := y) (y := x)
      simp only [JsonNumber.same, beq_iff_eq]
      omega

theorem MembersFaithful.of_mem {members : List (String × Json)} (h : MembersFaithful members)
    {name : String} {x : Json} (mem : (name, x) ∈ members) : x.Faithful := by
  induction members with
  | nil => cases mem
  | cons member members ih =>
    rcases List.mem_cons.1 mem with rfl | later
    · exact h.1
    · exact ih h.2 later

mutual

/-- The comparison of documents decides whether they are alike, if no object
has two members of one name. -/
theorem same_iff : (w v : Json) → w.Faithful → v.Faithful → (w.same v = true ↔ w.Alike v)
  | .null, v, _, _ => by
    cases v with
    | null => exact ⟨fun _ => .null, fun _ => rfl⟩
    | _ => exact ⟨nofun, nofun⟩
  | .bool a, v, _, _ => by
    cases v with
    | bool b =>
      rw [same, beq_iff_eq]
      exact ⟨fun h => h ▸ .bool a, fun h => by cases h; rfl⟩
    | _ => exact ⟨nofun, nofun⟩
  | .number m, v, _, _ => by
    cases v with
    | number n => exact sameNumber_iff
    | _ => exact ⟨nofun, nofun⟩
  | .string s, v, _, _ => by
    cases v with
    | string t =>
      rw [same, beq_iff_eq]
      exact ⟨fun h => h ▸ .string s, fun h => by cases h; rfl⟩
    | _ => exact ⟨nofun, nofun⟩
  | .array xs, v, hw, hv => by
    cases v with
    | array ys =>
      rw [same, sameItems_iff xs ys hw hv]
      constructor
      · exact fun ⟨length, items⟩ => .array length items
      · intro h
        cases h with
        | array length items => exact ⟨length, items⟩
    | _ => exact ⟨nofun, nofun⟩
  | .object xs, v, ⟨distinct, hw⟩, hv => by
    cases v with
    | object ys =>
      -- As many different keys on both sides, each of the one among the other, are the same keys.
      obtain ⟨distinct', hv⟩ := hv
      rw [same, Bool.and_eq_true, beq_iff_eq, sameMembers_iff xs ys hw hv]
      constructor
      · rintro ⟨length, members⟩
        refine .object ((Keyed.keys_iff_of_subset distinct distinct').2 ⟨length, ?_⟩) ?_
        · intro name hn
          obtain ⟨⟨_, x⟩, mem, rfl⟩ := List.mem_map.1 hn
          obtain ⟨y, found, -⟩ := members _ x mem
          exact Keyed.isSome_find?.1 (Option.isSome_iff_exists.2 ⟨y, found⟩)
        · intro name x y hx hy
          obtain ⟨y', found, alike⟩ := members name x (Keyed.mem_of_find? hx)
          cases hy.symm.trans found
          exact alike
      · intro h
        cases h with
        | object names values =>
          refine ⟨((Keyed.keys_iff_of_subset distinct distinct').1 names).1, ?_⟩
          intro name x mem
          have named := (names name).1 (List.mem_map_of_mem (f := Prod.fst) mem)
          obtain ⟨y, found⟩ := Option.isSome_iff_exists.1 (Keyed.isSome_find?.2 named)
          exact ⟨y, found, values name x y (Keyed.find?_of_mem distinct mem) found⟩
    | _ => exact ⟨nofun, nofun⟩

/-- Lists are compared item by item. -/
theorem sameItems_iff : (xs ys : List Json) → AllFaithful xs → AllFaithful ys →
    (sameItems xs ys = true ↔ xs.length = ys.length ∧
      ∀ (i : Nat) x y, xs[i]? = some x → ys[i]? = some y → Alike x y)
  | [], [], _, _ => ⟨fun _ => ⟨rfl, nofun⟩, fun _ => rfl⟩
  | [], y :: ys, _, _ => ⟨nofun, fun h => nomatch h.1⟩
  | x :: xs, [], _, _ => ⟨nofun, fun h => nomatch h.1⟩
  | x :: xs, y :: ys, ⟨hx, hxs⟩, ⟨hy, hys⟩ => by
    rw [sameItems, Bool.and_eq_true, same_iff x y hx hy, sameItems_iff xs ys hxs hys]
    constructor
    · rintro ⟨first, length, items⟩
      refine ⟨congrArg (· + 1) length, fun i => ?_⟩
      cases i with
      | zero =>
        rintro _ _ ⟨⟩ ⟨⟩
        exact first
      | succ i => exact items i
    · rintro ⟨length, items⟩
      exact ⟨items 0 x y rfl rfl, Nat.succ.inj length, fun i => items (i + 1)⟩

/-- The members of one object are compared with those of the other that have
their names. -/
theorem sameMembers_iff : (xs ys : List (String × Json)) → MembersFaithful xs →
    MembersFaithful ys → (sameMembers xs ys = true ↔
      ∀ name x, (name, x) ∈ xs → ∃ y, Keyed.find? ys name = some y ∧ Alike x y)
  | [], ys, _, _ => ⟨fun _ _ _ h => absurd h List.not_mem_nil, fun _ => rfl⟩
  | (name, x) :: xs, ys, ⟨hx, hxs⟩, hys => by
    rw [sameMembers, Bool.and_eq_true, sameMembers_iff xs ys hxs hys]
    -- A member without a counterpart counts against the documents, as one that differs does.
    have first : (match Keyed.find? ys name with
        | some y => same x y
        | none => false) = true ↔ ∃ y, Keyed.find? ys name = some y ∧ Alike x y := by
      cases found : Keyed.find? ys name with
      | none => exact ⟨nofun, nofun⟩
      | some y =>
        have := same_iff x y hx (hys.of_mem (Keyed.mem_of_find? found))
        simpa using this
    refine (and_congr_left' first).trans ⟨?_, ?_⟩
    · rintro ⟨here, later⟩ other z mem
      rcases List.mem_cons.1 mem with e | mem
      · cases e
        exact here
      · exact later other z mem
    · intro all
      exact ⟨all name x List.mem_cons_self, fun other z mem =>
        all other z (List.mem_cons_of_mem _ mem)⟩

end

/-- The document is contained in the candidate, or not; unknown if there is
none. -/
structure Contained (w v : Json) (truth : Truth) : Prop where
  unknown : truth = .unknown ↔ w = .null
  yes : truth = .yes ↔ w ≠ .null ∧ w.Alike v

end Json

namespace Store

/-! ### Comparison of texts -/

/-- A document is read back from its text. -/
theorem asDocument_text {j : Json} (faithful : j.Faithful) (deep : j.depth ≤ Json.maxDepth) :
    asDocument (.string j.text) = j := by
  simp only [asDocument]
  rw [Json.read?_text faithful deep]
  rfl

/-- Documents given by their texts are compared themselves. -/
theorem sameDocumentValue_text {w v : Json} (hw : w.Faithful) (deepW : w.depth ≤ Json.maxDepth)
    (hv : v.Faithful) (deepV : v.depth ≤ Json.maxDepth) :
    sameDocumentValue (.string w.text) (.string v.text) = .bool (w.same v) := by
  simp only [sameDocumentValue, Json.isNull, Bool.or_false, Bool.false_eq_true, if_false]
  rw [asDocument_text hw deepW, asDocument_text hv deepV]

end Store

namespace Planning

open Planner Joins

variable {s : QuerySchema} {named : String → Prop} {vars : Variables} {field : Document.Field}
variable {plan : RootPlan} {entity : EntityType} {select : Document.Field}
variable {gs : List SelectedField} {name : String} {g : SchemaField} {b : ScalarBinding}
variable {operand : Operand} {v : Json}

/-- The verdict on the cell of an inserted row compares what was given to the
field with the candidate. -/
theorem contained_of_inserted (found : entity.field? name = some g) (bound : g.binding = some b)
    (document : b.coercion = .document) (alone : entity.Alone g) (faithful : v.Faithful)
    (deep : v.depth ≤ Json.maxDepth) {w : Json} {row : Row} (faithful' : w.Faithful)
    (deep' : w.depth ≤ Json.maxDepth) (inserted : Tables.Inserted s entity name w row) :
    ∃ truth : Truth, Comparison.verdict b .contains v (cellOf (some row) g.descriptor.column) =
      truth.toJson ∧ w.Contained v truth := by
  rw [inserted.cell found alone]
  simp only [Comparison.verdict, Tables.storedForm]
  rw [bound]
  dsimp only
  rw [document]
  -- A null is stored as null, anything else as its text; that is read back as the same document.
  cases null : w.isNull with
  | true =>
    obtain rfl := Json.isNull_iff.1 null
    refine ⟨.unknown, rfl, ⟨fun _ => rfl, fun _ => rfl⟩, fun h => ?_, fun h => absurd rfl h.1⟩
    cases h
  | false =>
    have given : w ≠ .null := by
      rintro rfl
      cases null
    have compared : Store.sameDocumentValue (textValue (.string w.text)) (.string v.text) =
        .bool (w.same v) := sameDocumentValue_text faithful' deep' faithful deep
    have alike := Json.same_iff w v faithful' faithful
    rw [if_neg Bool.false_ne_true]
    refine ⟨if w.same v then .yes else .no, compared.trans ?_, ?_, ?_⟩
    · cases w.same v <;> rfl
    · refine ⟨fun h => ?_, fun h => absurd h given⟩
      split at h <;> cases h
    · rw [← alike]
      cases w.same v <;> simp [given]

/-- The test for containment compares the text of the column with the bound
text of the candidate; nothing is joined for it. -/
theorem gives_compile_contains (found : entity.field? name = some g) (bound : g.binding = some b)
    (supported : b.supports .contains = true)
    (accepted : Predicate.coerce vars name b operand = .ok v) (d : Draft) :
    ∃ e d', Gives (Predicate.compile s entity vars
      (.leaf ⟨[name], FilterOperator.contains.token, operand⟩)) d e d' ∧ d'.joins = d.joins := by
  rw [compile_tests found bound supported rfl rfl accepted]
  have bind : Gives (bindValue (b.coercion.stored v)) d _ _ := gives_bindValue.2 ⟨rfl, rfl⟩
  exact ⟨_, _, gives_bind.2 ⟨_, _, bind, gives_pure.2 ⟨rfl, rfl⟩⟩, rfl⟩

/-- A root field that can be planned without criteria can be planned under a
test of one of its fields which joins nothing, and the root rows on which the
test is true are answered as before. -/
theorem run_tests [Disorder] {operator : FilterOperator} {value : Document.Value}
    {schemaName : String} {descriptors : List EntityDescriptor} {registry : ScalarRegistry}
    (built : QuerySchema.build schemaName descriptors registry = .ok s)
    (plain : Criteria.isCombinator name = false) (root : s.root? field.name = some entity)
    (unrestricted : field.argument? whereArgument = none)
    (planned : planRootField s vars field = .ok plan)
    (compiles : ∀ d, ∃ e d', Gives (Predicate.compile s entity vars
      (.leaf ⟨[name], operator.token, .ofValue value⟩)) d e d' ∧ d'.joins = d.joins) :
    ∃ plan', planRootField s vars (field.restrictedBy (.tests name operator value)) = .ok plan' ∧
      plan'.filter = some (.leaf ⟨[name], operator.token, .ofValue value⟩) ∧
      ∀ (tables : Tables) rootRows limit,
        Keyed.find? tables plan.query.table = some rootRows →
          tables.run (plan.query.limitedTo limit) =
            .ok (Tables.arranged plan.query.order limit
              (rootRows.flatMap (tables.answersFor plan.query))) ∧
          tables.run (plan'.query.limitedTo limit) =
            .ok (Tables.arranged plan.query.order limit
              ((rootRows.filter plan'.query.holds).flatMap (tables.answersFor plan.query))) ∧
          ∀ row, tables.answersFor plan.query row ≠ [] := by
  obtain ⟨select, gs, p⟩ := planOf_of_build built planned root
  have noFilter := p.filter_eq_none unrestricted
  obtain ⟨plan', planned', filter', -, joins, columns, order⟩ :=
    planRootField_restrictedBy planned root noFilter (filterOf_tests plain operator value) compiles
  obtain ⟨select', gs', p'⟩ := planOf_of_build built planned' root
  refine ⟨plan', planned', filter', fun tables rootRows limit table =>
    ⟨p.run_unrestricted noFilter table limit, ?_, p.answersFor_ne_nil tables⟩⟩
  -- The test joins nothing, so a row that is kept is answered as it was before.
  have table' : Keyed.find? tables plan'.query.table = some rootRows := by
    rw [p'.table, ← p.table]
    exact table
  have run := p'.run_rootOnly (rootOnly_of_leaf filter') table' limit
  have answers : tables.answersFor plan'.query = tables.answersFor plan.query := by
    funext row
    simp only [Tables.answersFor]
    rw [joins, columns, order]
  rwa [answers, order] at run

/-- **Containment is equality of documents.**  Of a row that was inserted with
a document in a field, the leaf of a filter that asks for containment of a
candidate is true if the document is like the candidate, and unknown if there
is none, in which case its negation is unknown too.  A root field without
criteria can be restricted by this test, unless the field is called like a
combinator; then those root rows are answered on which the test is true. -/
theorem run_contained [Disorder] {schemaName : String} {descriptors : List EntityDescriptor}
    {registry : ScalarRegistry} (built : QuerySchema.build schemaName descriptors registry = .ok s)
    -- A field of documents with containment, with a column of its own.
    (found : entity.field? name = some g) (bound : g.binding = some b)
    (payload : b.kind = .payload) (document : b.coercion = .document)
    (containment : b.containment = true) (alone : entity.Alone g)
    -- The candidate, written out or given by variables.
    {value : Document.Value} (accepted : Predicate.coerce vars name b (.ofValue value) = .ok v)
    (faithful : v.Faithful) (deep : v.depth ≤ Json.maxDepth) :
    -- The leaf, compiled anywhere, on any inserted row.
    (∀ d : Draft, d.parameters.Sequential → ∃ e d',
      Gives (Predicate.compile s entity vars
        (.leaf ⟨[name], FilterOperator.contains.token, .ofValue value⟩)) d e d' ∧
      Gives (Predicate.compile s entity vars
        (.not (.leaf ⟨[name], FilterOperator.contains.token, .ofValue value⟩))) d e.negation d' ∧
      ∀ w row, w.Faithful → w.depth ≤ Json.maxDepth → Tables.Inserted s entity name w row →
        ∀ binding, Keyed.find? binding rootAlias = some (some row) → ∃ truth : Truth,
          w.Contained v truth ∧ eval d'.parameters binding e = .ok truth.toJson ∧
          eval d'.parameters binding e.negation = .ok truth.negate.toJson) ∧
    -- The root field, restricted by criteria.
    (Criteria.isCombinator name = false → ∀ field plan, s.root? field.name = some entity →
      field.argument? whereArgument = none → planRootField s vars field = .ok plan →
      ∃ plan', planRootField s vars (field.restrictedBy (.tests name .contains value)) =
          .ok plan' ∧
        (∀ w row, w.Faithful → w.depth ≤ Json.maxDepth → Tables.Inserted s entity name w row →
          (plan'.query.holds row = true ↔ w ≠ .null ∧ w.Alike v)) ∧
        ∀ (tables : Tables) rootRows limit,
          Keyed.find? tables plan.query.table = some rootRows →
            tables.run (plan.query.limitedTo limit) =
              .ok (Tables.arranged plan.query.order limit
                (rootRows.flatMap (tables.answersFor plan.query))) ∧
            tables.run (plan'.query.limitedTo limit) =
              .ok (Tables.arranged plan.query.order limit
                ((rootRows.filter plan'.query.holds).flatMap (tables.answersFor plan.query))) ∧
            ∀ row, tables.answersFor plan.query row ≠ []) := by
  have supported : b.supports .contains = true := by
    simp [ScalarBinding.supports, ScalarBinding.isPayload, payload, containment]
  have compiles := gives_compile_contains (s := s) found bound supported accepted
  refine ⟨fun d sequential => ?_, fun plain field plan root unrestricted planned => ?_⟩
  · obtain ⟨e, d', compiled, -⟩ := compiles d
    refine ⟨e, d', compiled, gives_bind.2 ⟨e, d', compiled, gives_pure.2 ⟨rfl, rfl⟩⟩, ?_⟩
    intro w row faithful' deep' inserted binding covers
    obtain ⟨truth, verdict, contained⟩ :=
      contained_of_inserted found bound document alone faithful deep faithful' deep' inserted
    have cell : columnValue binding rootAlias g.descriptor.column =
        .ok (cellOf (some row) g.descriptor.column) := by
      simp only [columnValue]
      rw [covers]
      rfl
    rw [compile_tests found bound supported rfl rfl accepted] at compiled
    have value := Comparison.eval_translate compiled sequential cell
    rw [verdict] at value
    refine ⟨truth, contained, value, ?_⟩
    rw [Expr.negation, eval_apply (evalAll_cons value rfl)]
    exact congrArg Except.ok (Truth.contrary_toJson truth)
  · obtain ⟨plan', planned', filter', runs⟩ :=
      run_tests built plain root unrestricted planned compiles
    obtain ⟨select', gs', p'⟩ := planOf_of_build built planned' root
    refine ⟨plan', planned', fun w row faithful' deep' inserted => ?_, runs⟩
    obtain ⟨truth, verdict, contained⟩ :=
      contained_of_inserted found bound document alone faithful deep faithful' deep' inserted
    rw [p'.holds_tests filter' found bound supported rfl rfl accepted, verdict,
      Truth.isTrue_toJson]
    exact contained.yes

end Planning

/-! ### Containment in a notebook -/

namespace Sample

/-- Remarks are documents with containment. -/
def remarkBinding : ScalarBinding :=
  (ScalarBinding.document "Remarks" "Remarks of a reader").withContainment

/-- A field of remarks. -/
def remark (name : String) : SchemaField :=
  QuerySchema.scalarField ⟨name, name, .scalar "Remarks"⟩ remarkBinding

/-- Notes with two fields of remarks, one called like a combinator. -/
def note : EntityDescriptor :=
  ⟨"Note", some "notes", none, "notes", some "id",
    [id.descriptor, (remark "tags").descriptor, (remark "OR").descriptor]⟩

/-- Notes in the schema. -/
def notes : EntityType :=
  ⟨note, "notes", criteriaTypeName "notes", [id, remark "tags", remark "OR"], id⟩

/-- The ordinary scalars, and remarks. -/
def remarkRegistry : ScalarRegistry := ScalarRegistry.empty.register "Remarks" remarkBinding

/-- The schema of notes. -/
def notebook : QuerySchema := ⟨"notebook", [notes], remarkRegistry⟩

theorem notebook_built : QuerySchema.build "notebook" [note] remarkRegistry = .ok notebook := rfl

/-- The root field of all notes. -/
def allNotes : Document.Field := .mk none "notes" [] [.mk none "select" [] [leaf "id"]]

theorem remark_alone {name : String} (h : name = "tags" ∨ name = "OR") :
    notes.Alone (remark name) := by
  refine EntityType.alone_of_forall (List.forall_mem_cons.2 ⟨fun same => ?_,
    List.forall_mem_cons.2 ⟨?_, List.forall_mem_singleton.2 ?_⟩⟩)
  all_goals rcases h with rfl | rfl
  all_goals first | exact fun _ => rfl | exact fun same => absurd same (by decide) |
    exact absurd same (by decide)

/-- Remarks with a list, and with a text that spells the same list. -/
def remarks : Json := .object [("a", .array [.ofInt 1]), ("b", .string "[1]")]

/-- The same remarks in the other order. -/
def candidate : Json := .object [("b", .string "[1]"), ("a", .array [.ofInt 1])]

theorem remarks_faithful : remarks.Faithful ∧ candidate.Faithful :=
  ⟨⟨by decide, ⟨.inl rfl, trivial⟩, trivial, trivial⟩,
    ⟨by decide, trivial, ⟨.inl rfl, trivial⟩, trivial⟩⟩

/-- What became of a note with remarks in a field. -/
def noted (name : String) : Row :=
  [("id", .string "1"), (name, .string "\x7b\"a\":[1],\"b\":\"[1]\"\x7d")]

theorem noted_inserted {name : String} (h : name = "tags" ∨ name = "OR") :
    Tables.Inserted notebook notes name remarks (noted name) := by
  have inserted : Tables.empty.insertEntity notebook "Note" (.object
    [("id", .string "1"), (name, remarks)]) =
      .ok (Tables.empty.insertRow notes.descriptor.qualifiedTable (noted name)) := by
    rcases h with rfl | rfl <;> rfl
  refine .intro rfl ?_ (List.mem_cons_of_mem _ List.mem_cons_self) inserted
  rcases h with rfl | rfl <;> decide

/-- Under `OR` criteria cannot ask for the containment of the field of this
name: the remarks are like the candidate, but what stands there are operands
of a combinator. -/
theorem not_contained :
    QuerySchema.build "notebook" [note] remarkRegistry = .ok notebook ∧
      notes.field? "OR" = some (remark "OR") ∧
      (remark "OR").binding = some remarkBinding ∧
      remarkBinding.kind = .payload ∧ remarkBinding.coercion = .document ∧
      remarkBinding.containment = true ∧ notes.Alone (remark "OR") ∧
      Predicate.coerce [("v", candidate)] "OR" remarkBinding (.ofValue (.variable "v")) =
        .ok candidate ∧
      candidate.Faithful ∧ candidate.depth ≤ Json.maxDepth ∧ remarks.Faithful ∧
      remarks.depth ≤ Json.maxDepth ∧ remarks ≠ .null ∧ remarks.Alike candidate ∧
      Tables.Inserted notebook notes "OR" remarks (noted "OR") ∧
      (∃ plan, Planning.planRootField notebook [("v", candidate)] allNotes = .ok plan) ∧
      Planning.planRootField notebook [("v", candidate)]
          (allNotes.restrictedBy (.tests "OR" .contains (.variable "v"))) =
        .error (.invalidValue "CONTAINS.b" "expected an input object") :=
  ⟨rfl, rfl, rfl, rfl, rfl, rfl, remark_alone (.inr rfl), rfl, remarks_faithful.2, by decide,
    remarks_faithful.1, by decide, nofun,
    (Json.same_iff _ _ remarks_faithful.1 remarks_faithful.2).1 rfl, noted_inserted (.inr rfl),
    ⟨_, rfl⟩, rfl⟩

end Sample

/-- In the notebook the remarks contain the candidate with their members in
another order. -/
theorem run_contained_notebook :
    ∃ plan, Planning.planRootField Sample.notebook [("v", Sample.candidate)]
        (Sample.allNotes.restrictedBy (.tests "tags" .contains (.variable "v"))) = .ok plan ∧
      plan.query.holds (Sample.noted "tags") = true := by
  have found : Sample.notes.field? "tags" = some (Sample.remark "tags") := rfl
  have accepted : Predicate.coerce [("v", Sample.candidate)] "tags" Sample.remarkBinding
    (.ofValue (.variable "v")) = .ok Sample.candidate := rfl
  have planned : Planning.planRootField Sample.notebook [("v", Sample.candidate)]
    Sample.allNotes = .ok _ := rfl
  obtain ⟨faithful, faithful'⟩ := Sample.remarks_faithful
  obtain ⟨-, restricted⟩ := Planning.run_contained Sample.notebook_built found rfl rfl rfl rfl
    (Sample.remark_alone (.inl rfl)) accepted faithful' (by decide)
  obtain ⟨plan, planned, holds, -⟩ := restricted (by decide) _ _ rfl rfl planned
  refine ⟨plan, planned, (holds Sample.remarks _ faithful (by decide)
    (Sample.noted_inserted (.inl rfl))).2 ⟨nofun, ?_⟩⟩
  exact (Json.same_iff _ _ faithful faithful').1 rfl

end EntityQuery
