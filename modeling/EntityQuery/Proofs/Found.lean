/-
EntityQuery/Proofs/Found.lean

A value that is read back finds its rows.

Whoever sees a value in an answer can ask for it: the root field restricted to
this value of the field is planned, and is answered with those objects of the
unrestricted answer whose own value agrees (`Planning.executeRoot_equals`).
The value may stand in the criteria or come through a variable.

Three things are assumed beside an identifier that tells the root rows apart.
The field is not called like a combinator of criteria; text was inserted as
text; and the numbers of the column can be compared with the value without
rounding.  In the library at the end, a book inserted with the number 7 for its
`ID` is answered with `"7"`, and nothing finds it under this value
(`Sample.not_found`).  Where associations are requested beside the field, names
must not have dots in them, since the columns of other entities are named by
paths.
-/
import EntityQuery.Proofs.Agreement
import EntityQuery.Proofs.Criterion
import EntityQuery.Proofs.Filled

namespace EntityQuery

open Store

/-- Where a test of the results is one of the sources, testing first gives the
results that pass. -/
theorem Outcome.mapM_filter {ε α β : Type} {f : α → Except ε β} {p : α → Bool} {q : β → Bool}
    {xs : List α} {ys : List β} (h : xs.mapM f = .ok ys)
    (same : ∀ x ∈ xs, ∀ y, f x = .ok y → q y = p x) :
    (xs.filter p).mapM f = .ok (ys.filter q) := by
  induction xs generalizing ys with
  | nil =>
    cases h
    rfl
  | cons x xs ih =>
    rw [List.mapM_cons] at h
    obtain ⟨y, first, h⟩ := Outcome.bind_eq_ok.1 h
    obtain ⟨ys, rest, h⟩ := Outcome.bind_eq_ok.1 h
    cases h
    have ih := ih rest fun x hx => same x (List.mem_cons_of_mem _ hx)
    have here := same x List.mem_cons_self y first
    -- What is filtered out on one side is filtered out on the other.
    cases passes : p x with
    | false =>
      rw [passes] at here
      rw [List.filter_cons_of_neg (by simp [passes]), List.filter_cons_of_neg (by simp [here]), ih]
    | true =>
      rw [passes] at here
      rw [List.filter_cons_of_pos passes, List.filter_cons_of_pos here, List.mapM_cons, first,
        Outcome.ok_bind, ih]
      rfl

/-! ### Asking for a value -/

/-- The criteria that a field equals a value. -/
def Document.Value.equals (name : String) (value : Document.Value) : Document.Value :=
  .object [(name, .object [(FilterOperator.eq.token, value)])]

namespace Planning

open Planner Joins

variable {s : QuerySchema} {named : String → Prop} {vars : Variables} {field : Document.Field}
variable {plan : RootPlan} {entity : EntityType} {select : Document.Field}
variable {gs : List SelectedField} {tables : Tables}

/-- The filter that a field equals a value is one leaf, unless the field is
called like a combinator. -/
theorem filterOf_equals {name : String} (plain : Criteria.isCombinator name = false)
    (value : Document.Value) :
    filterOf vars (field.restrictedBy (.equals name value)) =
      .ok (some (.leaf ⟨[name], FilterOperator.eq.token, .ofValue value⟩)) :=
  filterOf_tests plain .eq value

/-- The test of a field of the root for equality compiles, if the scalar takes
the value. -/
theorem compile_equals {name : String} {g : SchemaField} {b : ScalarBinding} {operand : Operand}
    {v : Json} (found : entity.field? name = some g) (bound : g.binding = some b)
    (coerced : Predicate.coerce vars name b operand = .ok v) (d : Draft) :
    ∃ e d', Gives (Predicate.compile s entity vars
      (.leaf ⟨[name], FilterOperator.eq.token, operand⟩)) d e d' ∧ d'.joins = d.joins := by
  rw [compile_tests found bound rfl rfl rfl coerced]
  simp only [Comparison.translate]
  split
  · exact ⟨_, _, gives_pure.2 ⟨rfl, rfl⟩, rfl⟩
  · refine ⟨_, _, gives_bind.2 ⟨_, _, gives_bindValue.2 ⟨rfl, rfl⟩, gives_pure.2 ⟨rfl, rfl⟩⟩, ?_⟩
    rfl

/-- A filter on one field of the root restricts the root only. -/
theorem rootOnly_of_equals {name : String} {operand : Operand}
    (filter : plan.filter = some (.leaf ⟨[name], FilterOperator.eq.token, operand⟩)) :
    ∀ f, plan.filter = some f → f.RootOnly :=
  rootOnly_of_leaf filter

/-- Of a root row the test is true if the verdict on its cell is. -/
theorem PlanOf.holds_equals (p : PlanOf s named vars field plan entity select gs) {name : String}
    {g : SchemaField} {b : ScalarBinding} {operand : Operand} {v : Json}
    (filter : plan.filter = some (.leaf ⟨[name], FilterOperator.eq.token, operand⟩))
    (found : entity.field? name = some g) (bound : g.binding = some b)
    (coerced : Predicate.coerce vars name b operand = .ok v) (row : Row) :
    plan.query.holds row =
      isTrue (Comparison.verdict b .eq v (cellOf (some row) g.descriptor.column)) :=
  p.holds_tests filter found bound rfl rfl rfl coerced row

/-- Without a filter an object is made of each root row. -/
theorem PlanOf.executeRoot_unrestricted [Disorder]
    (p : PlanOf s named vars field plan entity select gs)
    (planned : planRootField s vars field = .ok plan) (identifies : tables.Identifies entity)
    (asked : ⟨.column rootAlias entity.idColumn, entity.idField.name⟩ ∈ plan.query.columns)
    (unordered : field.Throughout (·.Unordered)) (unrestricted : plan.filter = none) :
    (Executor.executeRoot ⟨s, none⟩ (fun q => (pure (tables.run q) : Id _)) vars field).run =
      (((tables.rowsOf entity.descriptor.qualifiedTable).mapM
        (tables.objectOf plan.query.joins plan.query.columns gs)).mapError .decode).map
          fun objects => .object [(select.responseKey, .array objects)] := by
  rw [p.executeRoot planned identifies asked unordered (rootOnly_of_unrestricted unrestricted),
    p.filter_holds unrestricted]

/-- A plan without a filter joins nothing if no association is requested. -/
theorem requests_of_joins (planned : planRootField s vars field = .ok plan)
    (selects : field.selection = [select]) (unrestricted : plan.filter = none)
    (joined : plan.query.joins ≠ []) : ∃ path, Document.Requests select.selection path := by
  obtain ⟨j, others, joins⟩ := List.exists_cons_of_ne_nil joined
  obtain ⟨select', only, uses⟩ := joined_iff planned
  rw [selects] at only
  cases only
  have own : j.path ∈ plan.query.joins.map (·.path) := by
    rw [joins]
    exact List.mem_cons_self
  rcases (uses j.path).1 own with requests | ⟨f, some, -⟩
  · exact ⟨_, requests⟩
  · rw [unrestricted] at some
    cases some

end Planning

/-! ### Rows and their values -/

section Rows

variable {g : SchemaField} {b : ScalarBinding} {given : Json → Prop} {cell v w : Json}

/-- A value that is answered, and is not null, was given. -/
theorem given_of_output (holds : Tables.Holds given g cell) (bound : g.binding = some b)
    (standard : b.Standard) (readsBack : ∀ value, given value → b.ReadsBack value)
    (answered : b.output cell = .ok v) (some : v.isNull = false) : given v := by
  rcases holds.cases bound with rfl | ⟨value, was, nonnull, rfl⟩
  · cases answered
    cases some
  · rw [(readsBack value was).output_stored standard nonnull] at answered
    cases answered
    exact was

/-- The test of a cell for a value that was given says whether the answer for
the cell agrees with the value. -/
theorem isTrue_verdict_eq (holds : Tables.Holds given g cell) (bound : g.binding = some b)
    (standard : b.Standard) (readsBack : ∀ value, given value → b.ReadsBack value)
    (was : given v) (some : v.isNull = false)
    (exact : ∀ m n, given (.number m) → v = .number n → m.Comparable n)
    (answered : b.output cell = .ok w) :
    isTrue (Comparison.verdict b .eq v cell) = b.agrees v w := by
  rcases holds.cases bound with rfl | ⟨value, was', nonnull, rfl⟩
  · cases answered
    obtain ⟨unfound, apart⟩ := (readsBack v was).verdict_null some
    rw [unfound, apart]
  · rw [(readsBack value was').output_stored standard nonnull] at answered
    cases answered
    rw [(readsBack w was').verdict_stored standard (readsBack v was) nonnull some
      fun m n e => exact m n (e ▸ was')]
    rfl

end Rows

namespace Planning

variable {s : QuerySchema} {vars : Variables} {field select requested : Document.Field}
variable {plan : RootPlan} {entity : EntityType} {tables : Tables}

/-- A value that reads back passes the coercion, in criteria or through a
variable. -/
theorem coerce_eq_self {b : ScalarBinding} {v : Json} {operand : Operand} (fieldName : String)
    (reads : b.ReadsBack v) (standard : b.Standard) (some : v.isNull = false)
    (stands : operand.resolve vars = .ok v) :
    Predicate.coerce vars fieldName b operand = .ok v := by
  simp only [Predicate.coerce]
  rw [stands, Outcome.ok_bind, reads.literal standard some, reads.input standard some, ite_self]
  rfl

/-- **A value that is read back finds its rows, and no others.**  If an object
of an answer shows a value of a field, then the root field restricted to this
value of the field can be planned, and is answered with those objects, in
order, whose own value of the field agrees. -/
theorem executeRoot_equals [Disorder] {name : String} {descriptors : List EntityDescriptor}
    {registry : ScalarRegistry} (built : QuerySchema.build name descriptors registry = .ok s)
    -- The field, and what is stored of it.
    (root : s.root? field.name = some entity) {g : SchemaField} {b : ScalarBinding}
    (found : entity.field? requested.name = some g) (bound : g.binding = some b)
    (standard : b.Standard) (own : s.OwnColumn entity g)
    {given : EntityType → SchemaField → Json → Prop} (filled : tables.Filled s given)
    (readsBack : ∀ value, given entity g value → b.ReadsBack value)
    (identifies : tables.Identifies entity)
    -- The answer that shows the value.
    (unrestricted : field.argument? whereArgument = none)
    (planned : planRootField s vars field = .ok plan) (selects : field.selection = [select])
    (unordered : field.Throughout (·.Unordered))
    (keys : (select.selection.map (·.responseKey)).Nodup)
    (apart : ∀ path, Document.Requests select.selection path →
      Dotless entity.idField.name ∧ Dotless requested.name)
    (asked : requested ∈ select.selection) {objects : List Json}
    (answered : (Executor.executeRoot ⟨s, none⟩ (fun q => (pure (tables.run q) : Id _)) vars
      field).run = .ok (.object [(select.responseKey, .array objects)]))
    {object : Json} (seen : object ∈ objects)
    (some : (object.member requested.responseKey).isNull = false)
    -- The value that is sought.
    (plain : Criteria.isCombinator requested.name = false)
    (exact : ∀ m n, given entity g (.number m) →
      object.member requested.responseKey = .number n → m.Comparable n)
    {value : Document.Value}
    (stands : (Operand.ofValue value).resolve vars =
      .ok (object.member requested.responseKey)) :
    (∃ plan', planRootField s vars (field.restrictedBy (.equals requested.name value)) =
        .ok plan') ∧
      (Executor.executeRoot ⟨s, none⟩ (fun q => (pure (tables.run q) : Id _)) vars
        (field.restrictedBy (.equals requested.name value))).run =
          .ok (.object [(select.responseKey, .array (objects.filter fun other =>
            b.agrees (object.member requested.responseKey)
              (other.member requested.responseKey)))]) := by
  have identified : s.Identified fun _ => True :=
    ⟨QuerySchema.identified_of_build built, fun _ _ => trivial⟩
  have named : ∀ f : Document.Field,
      Document.Field.AllThroughout (·.Named fun _ => True) f.selection :=
    fun f => Document.Field.allThroughout_of_forall (fun _ => trivial) _
  have cells := filled.cell own
  -- The unrestricted answer is that of all the rows.
  obtain ⟨entity', select', gs, p⟩ := planOf planned identified (named field)
  obtain rfl : entity = entity' := Option.some.inj (root.symm.trans p.root)
  obtain rfl : select = select' := List.singleton_inj.1 (selects.symm.trans p.selects)
  have noFilter := p.filter_eq_none unrestricted
  have below := fun joined =>
    (requests_of_joins planned selects noFilter joined).elim fun path => apart path
  obtain ⟨askedId, each⟩ := p.answers planned
  have id := askedId.reads p.columns (identified.field entity (QuerySchema.mem_of_root? root))
    fun joined => (below joined).1
  rw [p.executeRoot_unrestricted planned identifies id unordered noFilter] at answered
  obtain ⟨objects', made, same⟩ := Outcome.map_eq_ok.1 answered
  obtain rfl : objects = objects' := by simpa using same.symm
  have made := Outcome.mapError_eq_ok.1 made
  have member : ∀ row other, tables.objectOf plan.query.joins plan.query.columns gs row =
      .ok other → b.output (cellOf (Option.some row) g.descriptor.column) =
        .ok (other.member requested.responseKey) := fun row other made =>
    Tables.member_of_objectOf p.joins p.distinct p.columns each keys made asked found bound
      fun joined => (below joined).2
  -- The value was given, so it passes the coercion.
  obtain ⟨row, hrow, shown⟩ := Outcome.exists_of_mem_mapM made seen
  have was := given_of_output (cells row hrow) bound standard readsBack
    (member row object shown) some
  have coerced := coerce_eq_self requested.name (readsBack _ was) standard some stands
  -- The restricted answer is that of the rows on which the test is true.
  obtain ⟨plan', planned', filter', selection, joins, columns, -⟩ :=
    planRootField_restrictedBy planned root noFilter (filterOf_equals plain value)
      (compile_equals found bound coerced)
  refine ⟨⟨plan', planned'⟩, ?_⟩
  obtain ⟨entity', select', gs', p'⟩ := planOf planned' identified (named _)
  obtain rfl : entity = entity' := Option.some.inj (root.symm.trans p'.root)
  obtain rfl : select = select' := List.singleton_inj.1 (selects.symm.trans p'.selects)
  have fields : gs' = gs :=
    congrArg (·.node.fields) (p'.selection.symm.trans (selection.trans p.selection))
  have unordered' : (field.restrictedBy (.equals requested.name value)).Throughout (·.Unordered) :=
    ⟨rfl, unordered.below⟩
  rw [p'.executeRoot planned' identifies (columns ▸ id) unordered' (rootOnly_of_equals filter'),
    fields, joins, columns]
  -- Row by row, the test is true where the values agree.
  rw [Outcome.mapM_filter made fun row hrow other made => ?_]
  · rfl
  · rw [p'.holds_equals filter' found bound coerced]
    exact (isTrue_verdict_eq (cells row hrow) bound standard readsBack was some exact
      (member row other made)).symm

end Planning

/-! ### The small library -/

namespace Sample

/-- The root field of all books. -/
def allBooks (selection : List Document.Field) : Document.Field :=
  .mk none "books" [] [.mk none "select" [] selection]

/-- The answer of a root field on a store. -/
def run (tables : Tables) (vars : Variables) (field : Document.Field) :
    Except ExecutionError Json :=
  (Executor.executeRoot ⟨schema, none⟩ (fun q => (pure (tables.run q) : Id _)) vars field).run

/-- Two books. -/
def shelf : Tables :=
  [("books", [[("id", .string "1"), ("title", .string "x")],
     [("id", .string "2"), ("title", .string "z")]])]

/-- The books of the shelf were inserted with text in their fields. -/
theorem shelf_filled : shelf.Filled schema fun _ _ value => ∃ t, value = .string t := by
  have text : ∀ (id title name : String) (value : Json),
      (name, value) ∈ [("id", .string id), ("title", .string title)] →
        ∃ t, value = .string t := by
    intro id title name value hm
    simp only [List.mem_cons, Prod.mk.injEq, List.not_mem_nil, or_false] at hm
    rcases hm with ⟨-, rfl⟩ | ⟨-, rfl⟩ <;> exact ⟨_, rfl⟩
  have one : Tables.empty.insertEntity schema "Book"
      (.object [("id", .string "1"), ("title", .string "x")]) = .ok _ := rfl
  have two : Tables.insertEntity [("books", [[("id", .string "1"), ("title", .string "x")]])]
      schema "Book" (.object [("id", .string "2"), ("title", .string "z")]) = .ok shelf := rfl
  have first := Tables.Filled.insert .empty
    (fun _ _ name value hm _ _ => text "1" "x" name value hm) one
  exact first.insert (fun _ _ name value hm _ _ => text "2" "z" name value hm) two

theorem title_ownColumn : schema.OwnColumn books (text "title") where
  table := by
    refine List.forall_mem_cons.2 ⟨fun same => absurd same (by decide), ?_⟩
    exact List.forall_mem_singleton.2 fun _ => rfl
  column := by
    intro name field found same
    have mem : field ∈ books.fields := List.mem_of_find?_eq_some found
    simp only [books, List.mem_cons, List.not_mem_nil, or_false] at mem
    rcases mem with rfl | rfl | rfl | rfl
    · exact absurd same (by decide)
    · rfl
    · exact absurd same (by decide)
    · exact absurd same (by decide)

/-- A book whose identifier was given as a number. -/
def numbered : Tables :=
  [("books", [[("id", .ofInt 7), ("title", .string "x")]])]

/-- An identifier that was given as a number is answered as text, and then
neither the text nor the number finds the book. -/
theorem not_found :
    Tables.empty.insertEntity schema "Book"
        (.object [("id", .ofInt 7), ("title", .string "x")]) = .ok numbered ∧
      (∃ b v, id.binding = some b ∧ b.coercion.literal (.ofInt 7) = .ok v) ∧
      run numbered [] (allBooks [leaf "id"]) =
        .ok (.object [("select", .array [.object [("id", .string "7")]])]) ∧
      run numbered [] ((allBooks [leaf "id"]).restrictedBy (.equals "id" (.string "7"))) =
        .ok (.object [("select", .array [])]) ∧
      run numbered [] ((allBooks [leaf "id"]).restrictedBy (.equals "id" (.int 7))) =
        .ok (.object [("select", .array [])]) :=
  ⟨rfl, ⟨_, _, rfl, rfl⟩, rfl, rfl, rfl⟩

end Sample

/-- In the library the title `x`, given through a variable, finds its book. -/
theorem executeRoot_equals_library :
    ∃ plan, Planning.planRootField Sample.schema [("v", .string "x")]
        (Sample.allBooks [Sample.leaf "title"]) = .ok plan ∧
      Sample.run Sample.shelf [("v", .string "x")]
        ((Sample.allBooks [Sample.leaf "title"]).restrictedBy
          (.equals "title" (.variable "v"))) =
        .ok (.object [("select", .array [.object [("title", .string "x")]])]) := by
  have planned : Planning.planRootField Sample.schema [("v", .string "x")]
    (Sample.allBooks [Sample.leaf "title"]) = .ok _ := rfl
  refine ⟨_, planned, ?_⟩
  have identifies : Sample.shelf.Identifies Sample.books :=
    ⟨by decide, by decide, by decide⟩
  have readsBack : ∀ value, (∃ t, value = .string t) →
      (ScalarBinding.plain "String" "Built-in String" .text).ReadsBack value := by
    rintro _ ⟨t, rfl⟩
    refine ⟨⟨_, rfl⟩, fun _ _ h => ?_, fun payload => ?_⟩
    · cases h
    · cases payload
  have asked : Sample.leaf "title" ∈ [Sample.leaf "title"] := List.mem_cons_self
  have answered : Sample.run Sample.shelf [("v", .string "x")]
      (Sample.allBooks [Sample.leaf "title"]) = .ok (.object [("select",
        .array [.object [("title", .string "x")], .object [("title", .string "z")]])]) := rfl
  have stands : (Operand.ofValue (.variable "v")).resolve [("v", .string "x")] =
    .ok (.string "x") := rfl
  refine (Planning.executeRoot_equals Sample.schema_built rfl rfl rfl (.inl (by decide))
    Sample.title_ownColumn Sample.shelf_filled readsBack identifies rfl planned rfl (by decide)
    (by decide) (fun _ _ => ⟨by decide, by decide⟩) asked answered List.mem_cons_self rfl
    (by decide) (fun m n given => ?_) stands).2
  obtain ⟨t, number⟩ := given
  cases number

end EntityQuery
