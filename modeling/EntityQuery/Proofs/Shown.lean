/-
EntityQuery/Proofs/Shown.lean

Every requested field is in the answer.

The objects of an answer are made of choices of rows: at every place of the
request, the choices that share an identifier make one object.  In it, a scalar
field is to be the answer for the cell that the first choice has for it, and an
association the objects made of all these choices for the field's own
selection (`Reshape.Shows`).

The selected fields mirror the requested ones, so each requested field makes
one member under its response key, and the induction is on this mirroring
(`Reshape.forall₂_shows`).  Filing the members by name keeps the last one of
each key.  So a field is shown unless a later field of the same selection has
its key (`Planning.executeRoot_shows`); below the root nothing refuses such
fields.
-/
import EntityQuery.Proofs.Capped

namespace EntityQuery

open Store Joins

/-! ### Objects of choices -/

/-- The choices that share the identifier of the row at a path, in order of
first appearance. -/
def EntityType.grouped (e : EntityType) (path : List String) (choices : List Choice) :
    List (List Choice) :=
  (choices.filterMap fun choice => e.idText? (choice path)).eraseDups.map fun id =>
    choices.filter fun choice => e.idText? (choice path) = some id

namespace Reshape

variable (s : QuerySchema)

mutual

/-- What a requested field of an entity at a path is shown as, in the object of
some choices. -/
def Shows (e : EntityType) (path : List String) (choices : List Choice) :
    Document.Field → Json → Prop
  | .mk _ name _ selection, value =>
    match e.scalar? name, s.association? e name with
    | some (column, b), _ =>
      b.output (cellOf (choices.head?.bind (· path)) column) = .ok value
    | none, some A => ∃ objects, value = A.collected objects ∧
        List.Forall₂ (fun group object => ∃ members, object = .object members ∧
          ShowsAll A.target (path ++ [name]) group selection members)
            (A.target.grouped (path ++ [name]) choices) objects
    | none, none => False

/-- The members show the requested fields, each under its response key; a key
is left to the last field that has it. -/
def ShowsAll (e : EntityType) (path : List String) (choices : List Choice) :
    List Document.Field → Keyed Json → Prop
  | [], _ => True
  | f :: fs, members =>
    (f.responseKey ∉ fs.map (·.responseKey) → ∃ value,
      Keyed.find? members f.responseKey = some value ∧ Shows e path choices f value) ∧
    ShowsAll e path choices fs members

end

/-- The objects show the requested fields, one object for each group of
choices. -/
def ShowsObjects (e : EntityType) (path : List String) (choices : List Choice)
    (requested : List Document.Field) (objects : List Json) : Prop :=
  List.Forall₂ (fun group object => ∃ members, object = .object members ∧
    ShowsAll s e path group requested members) (e.grouped path choices) objects

variable {s} {e : EntityType} {path : List String} {choices : List Choice}

theorem shows_scalar {label : Option String} {name : String}
    {arguments : List (String × Document.Value)} {selection : List Document.Field}
    {field : SchemaField} {b : ScalarBinding} {value : Json}
    (found : e.field? name = some field) (bound : field.binding = some b)
    (answered : b.output (cellOf (choices.head?.bind (· path)) field.descriptor.column) =
      .ok value) : Shows s e path choices (.mk label name arguments selection) value := by
  rw [Shows, EntityType.scalar?_of_bound found bound]
  exact answered

theorem shows_association {label : Option String} {name : String}
    {arguments : List (String × Document.Value)} {selection : List Document.Field}
    {A : Association} {objects : List Json} (leads : s.association? e name = some A)
    (shown : ShowsObjects s A.target (path ++ [name]) choices selection objects) :
    Shows s e path choices (.mk label name arguments selection) (A.collected objects) := by
  rw [Shows, EntityType.scalar?_of_association leads, leads]
  exact ⟨objects, rfl, shown⟩

/-- Members that are made one for each requested field show the fields. -/
theorem showsAll_ofPairs {fs : List Document.Field} {pairs : List (String × Json)}
    (each : List.Forall₂ (fun f pair => pair.1 = f.responseKey ∧ Shows s e path choices f pair.2)
      fs pairs) (before : List (String × Json)) :
    ShowsAll s e path choices fs (Keyed.ofPairs (before ++ pairs)) := by
  induction each generalizing before with
  | nil => trivial
  | @cons f pair fs pairs first rest ih =>
    obtain ⟨key, value⟩ := pair
    obtain ⟨rfl, shown⟩ := first
    have keys : Keyed.keys pairs = fs.map (·.responseKey) := by
      clear ih
      induction rest with
      | nil => rfl
      | cons one _ ih => exact congrArg₂ List.cons one.1 ih
    -- Of pairs with one key the last stands, and nothing behind a field has its
    -- key if it is the last.
    constructor
    · intro last
      rw [← keys] at last
      exact ⟨value, Keyed.find?_ofPairs_of_last before _ value last, shown⟩
    · rw [List.append_cons]
      exact ih _

/-! ### Objects of rows -/

variable {joins : Joins} {columns : List Column} {bindings : List Binding}

/-- The rows of an object are those of the choices of an object. -/
theorem groups_resultOf (distinct : (columns.map (·.name)).Nodup)
    (covers : ∀ binding ∈ bindings, Covers joins binding) {a column : String}
    (joined : joins.aliasOf? path = some a) (asked : ⟨.column a e.idColumn, column⟩ ∈ columns) :
    ∃ groups : List (List Binding),
      Reshape.groups column (bindings.map (Tables.resultOf columns)) =
        groups.map (List.map (Tables.resultOf columns)) ∧
      e.grouped path (bindings.map (choiceOf joins)) =
        groups.map (List.map (choiceOf joins)) ∧
      ∀ group ∈ groups, ∀ binding ∈ group, binding ∈ bindings := by
  -- A row is told by the identifier of the row that its binding chooses, so that both group alike.
  have idText : ∀ binding ∈ bindings, Reshape.idText? column (Tables.resultOf columns binding) =
      e.idText? (choiceOf joins binding path) := by
    intro binding hb
    simp only [Reshape.idText?, EntityType.idText?]
    rw [Tables.cell_resultOf distinct (covers binding hb) asked joined]
  have ids : ((bindings.map (Tables.resultOf columns)).filterMap
      (Reshape.idText? column)).eraseDups = (bindings.filterMap fun binding =>
        e.idText? (choiceOf joins binding path)).eraseDups.map id := by
    rw [List.filterMap_map, List.map_id]
    exact congrArg List.eraseDups (List.filterMap_congr idText)
  refine ⟨(bindings.filterMap fun binding => e.idText? (choiceOf joins binding path)).eraseDups.map
    fun id => bindings.filter fun binding => e.idText? (choiceOf joins binding path) = some id,
    ?_, ?_, ?_⟩
  · rw [Reshape.groups_eq_map ids, List.map_map]
    refine List.map_congr_left fun id _ => ?_
    rw [List.filter_map]
    refine congrArg (List.map _) (List.filter_congr fun binding hb => ?_)
    rw [Function.comp_apply, idText binding hb]
    rfl
  · unfold EntityType.grouped
    rw [List.filterMap_map, List.map_map]
    refine List.map_congr_left fun id _ => ?_
    rw [List.filter_map]
    rfl
  · intro group hg binding hb
    obtain ⟨id, -, rfl⟩ := List.mem_map.1 hg
    exact (List.mem_filter.1 hb).1

/-- Objects made of rows show what the members of each group show. -/
theorem showsObjects_of_members (distinct : (columns.map (·.name)).Nodup)
    (covers : ∀ binding ∈ bindings, Covers joins binding) {entity a column : String}
    {p : List String} {fs : List Document.Field} {gs : List SelectedField}
    (joined : joins.aliasOf? path = some a) (asked : ⟨.column a e.idColumn, column⟩ ∈ columns)
    (each : ∀ group : List Binding, (∀ binding ∈ group, Covers joins binding) → ∀ pairs,
      Reshape.members (group.map (Tables.resultOf columns)) gs = .ok pairs →
      List.Forall₂ (fun f pair => pair.1 = f.responseKey ∧
        Shows s e path (group.map (choiceOf joins)) f pair.2) fs pairs)
    {objects : List Json} (made : Reshape.objects (bindings.map (Tables.resultOf columns))
      (.mk entity p a column gs) = .ok objects) :
    ShowsObjects s e path (bindings.map (choiceOf joins)) fs objects := by
  obtain ⟨groups, rows, choices, among⟩ := groups_resultOf distinct covers joined asked
  rw [Reshape.objects, rows] at made
  obtain ⟨answers, found, same⟩ := Outcome.bind_eq_ok.1 made
  cases same
  rw [Outcome.mapM_map] at found
  have pairs := Outcome.mapM_eq_ok.1 found
  unfold ShowsObjects
  rw [choices, List.forall₂_map_left_iff, List.forall₂_map_right_iff]
  clear rows choices found made
  -- Group by group, each giving one object.
  induction pairs with
  | nil => exact .nil
  | @cons group pairs groups answers first rest ih =>
    obtain ⟨here, later⟩ := List.forall_mem_cons.1 among
    have own := each group (fun binding hb => covers binding (here binding hb)) pairs first
    exact .cons ⟨_, rfl, showsAll_ofPairs own []⟩ (ih later)

/-- Each requested field makes one member, which shows it. -/
theorem forall₂_shows (distinct : (columns.map (·.name)).Nodup) {fs : List Document.Field}
    {gs : List SelectedField} (mirrors : Selection.Mirrors s joins columns e path fs gs)
    (covers : ∀ binding ∈ bindings, Covers joins binding) {pairs : List (String × Json)}
    (made : Reshape.members (bindings.map (Tables.resultOf columns)) gs = .ok pairs) :
    List.Forall₂ (fun f pair => pair.1 = f.responseKey ∧
      Shows s e path (bindings.map (choiceOf joins)) f pair.2) fs pairs := by
  induction mirrors generalizing bindings pairs with
  | nil =>
    cases made
    exact .nil
  | @scalar e path label name a arguments field b fs gs found bound joined asked rest ih =>
    rw [Reshape.members] at made
    obtain ⟨pair, own, made⟩ := Outcome.bind_eq_ok.1 made
    obtain ⟨pairs, others, made⟩ := Outcome.bind_eq_ok.1 made
    cases made
    rw [Reshape.member] at own
    obtain ⟨value, answered, own⟩ := Outcome.bind_eq_ok.1 own
    cases own
    refine .cons ⟨rfl, shows_scalar found bound ?_⟩ (ih covers others)
    -- The cell is that of the first row of the group.
    have answered := Outcome.mapError_eq_ok.1 answered
    cases bindings with
    | nil => exact answered
    | cons binding bindings =>
      have cell := Tables.cell_resultOf distinct (covers binding List.mem_cons_self) asked joined
      show b.output (cellOf (choiceOf joins binding path) _) = .ok value
      rw [← cell]
      exact answered
  | @association e path label name a A selection fs fields gs leads joined asked below rest
      ihBelow ihRest =>
    rw [Reshape.members] at made
    obtain ⟨pair, own, made⟩ := Outcome.bind_eq_ok.1 made
    obtain ⟨pairs, others, made⟩ := Outcome.bind_eq_ok.1 made
    cases made
    rw [Reshape.member] at own
    obtain ⟨objects, found, own⟩ := Outcome.bind_eq_ok.1 own
    cases own
    rw [← Navigation.collected_eq]
    refine .cons ⟨rfl, shows_association leads ?_⟩ (ihRest covers others)
    exact showsObjects_of_members distinct covers joined asked
      (fun group covers pairs made => ihBelow covers made) found

end Reshape

/-! ### Root fields -/

namespace Planning

variable {s : QuerySchema} {named : String → Prop} {vars : Variables} {field : Document.Field}
variable {plan : RootPlan} {entity : EntityType} {select : Document.Field}
variable {gs : List SelectedField} {tables : Tables} {rootRows : List Row}

/-- The bindings that a planned query makes of the rows of its table: those
that the filter keeps, sorted and cut off at a limit. -/
def delivered [Disorder] (s : QuerySchema) (root : EntityType) (vars : Variables) (tables : Tables)
    (plan : RootPlan) (limit : Option Nat) (rows : List Row) : List Binding :=
  (Tables.cutOff limit (Tables.byKeys plan.query.order
    ((rows.flatMap (kept s root vars tables plan)).map fun binding =>
      (Tables.sortKeys plan.query.order binding, binding)))).map (·.2)

/-- A planned query gives the rows of the bindings it delivers. -/
theorem PlanOf.run_delivered [Disorder] (p : PlanOf s named vars field plan entity select gs)
    (table : Keyed.find? tables plan.query.table = some rootRows) (limit : Option Nat) :
    tables.run (plan.query.limitedTo limit) =
      .ok ((delivered s entity vars tables plan limit rootRows).map
        (Tables.resultOf plan.query.columns)) := by
  rw [p.run_arranged table, Tables.arranged, Tables.map_answer, Tables.byKeys_map,
    Tables.cutOff_map, delivered, List.map_map, List.map_map]
  rfl

/-- What is delivered was kept for one of the rows of the root. -/
theorem mem_delivered [Disorder] {limit : Option Nat} {binding : Binding}
    (h : binding ∈ delivered s entity vars tables plan limit rootRows) :
    ∃ row ∈ rootRows, binding ∈ kept s entity vars tables plan row := by
  obtain ⟨pair, hp, rfl⟩ := List.mem_map.1 h
  obtain ⟨binding, hb, rfl⟩ := List.mem_map.1 (Tables.mem_byKeys.1 (Tables.cutOff_subset _ _ hp))
  exact List.mem_flatMap.1 hb

/-- A root field that is answered was planned, and its objects were made of the
rows of its query. -/
theorem executeRoot_eq_ok [Disorder] {x : Executor} {value : Json}
    (answered : (x.executeRoot (fun q => (pure (tables.run q) : Id _)) vars field).run =
      .ok value) :
    ∃ plan rows objects, planRootField x.schema vars field = .ok plan ∧
      tables.run (plan.query.limitedTo x.limit) = .ok rows ∧
      Reshape.objects rows plan.selection.node = .ok objects ∧
      value = .object [(plan.selection.selectKey, .array objects)] := by
  unfold Executor.executeRoot at answered
  split at answered
  · cases answered
  · next plan planned =>
    have answered : x.answer plan (tables.run (plan.query.limitedTo x.limit)) = .ok value :=
      answered
    obtain ⟨rows, run, answered⟩ := Outcome.bind_eq_ok.1 answered
    obtain ⟨-, -, answered⟩ := Outcome.bind_eq_ok.1 answered
    obtain ⟨objects, made, answered⟩ := Outcome.bind_eq_ok.1 answered
    exact ⟨plan, rows, objects, planned, Outcome.mapError_eq_ok.1 run,
      Outcome.mapError_eq_ok.1 made, (Outcome.pure_eq_ok.1 answered).symm⟩

/-- **Every requested field is in the answer.**  The objects of a root field
that is answered are made of the choices of rows that its query delivers, one
for each identifier; in each of them, at every depth, a requested field is
found under its response key with its own value, unless a later field of the
same selection asks for the key. -/
theorem executeRoot_shows [Disorder] {x : Executor} {name : String}
    {descriptors : List EntityDescriptor} {registry : ScalarRegistry}
    (built : QuerySchema.build name descriptors registry = .ok x.schema)
    (dotless : ∀ e ∈ x.schema.entities, Dotless e.idField.name)
    {text : String} {op : Document.Operation} (parsed : Document.parse text = .ok op)
    (requested : field ∈ op.selection) {value : Json}
    (answered : (x.executeRoot (fun q => (pure (tables.run q) : Id _)) vars field).run =
      .ok value) :
    ∃ plan entity select rows objects,
      planRootField x.schema vars field = .ok plan ∧ x.schema.root? field.name = some entity ∧
      field.selection = [select] ∧
      Keyed.find? tables entity.descriptor.qualifiedTable = some rows ∧
      value = .object [(select.responseKey, .array objects)] ∧
      Reshape.ShowsObjects x.schema entity []
        ((delivered x.schema entity vars tables plan x.limit rows).map
          (choiceOf plan.query.joins)) select.selection objects := by
  obtain ⟨plan, rows, objects, planned, run, made, rfl⟩ := executeRoot_eq_ok answered
  have named := Document.Field.allThroughout_iff.1 (Document.named_parse parsed) field requested
  obtain ⟨entity, select, gs, p⟩ :=
    planOf planned ⟨QuerySchema.identified_of_build built, dotless⟩ named.below
  have rootDotless := dotless entity (QuerySchema.mem_of_root? p.root)
  cases table : Keyed.find? tables plan.query.table with
  | none =>
    have unknown := Tables.run_unknown (q := plan.query.limitedTo x.limit) table
    cases unknown.symm.trans run
  | some rootRows =>
    rw [p.run_delivered table] at run
    cases run
    -- What is delivered are bindings of the planned joins, so that every column has a row to read.
    have covers : ∀ binding ∈ delivered x.schema entity vars tables plan x.limit rootRows,
        Covers plan.query.joins binding := by
      intro binding hb
      obtain ⟨row, -, hk⟩ := mem_delivered hb
      exact (p.spans (List.mem_filter.1 hk).1).1.covers
    rw [p.selection] at made
    refine ⟨plan, entity, select, rootRows, objects, planned, p.root, p.selects, ?_, ?_, ?_⟩
    · rw [← p.table]
      exact table
    · rw [p.selection]
    · exact Reshape.showsObjects_of_members p.distinct covers (aliasOf?_nil _) (p.id rootDotless)
        (fun group covers pairs own =>
          Reshape.forall₂_shows p.distinct (p.mirrors fun _ dotless => dotless) covers own) made

end Planning

/-! ### The small library -/

open Planning in
/-- In the library, what the document asks for is in its answer: the title of
each book, and for its author the name and the books. -/
theorem executeRoot_shows_library :
    ∃ op field value, Document.parse Sample.document = .ok op ∧ field ∈ op.selection ∧
      (Executor.executeRoot ⟨Sample.schema, none⟩ Sample.source [] field).run = .ok value ∧
      value.text = Sample.answer ∧
      ∃ (plan : RootPlan) (entity : EntityType) (select : Document.Field) (rows : List Row)
          (objects : List Json),
        planRootField Sample.schema [] field = .ok plan ∧
        value = .object [(select.responseKey, .array objects)] ∧
        Reshape.ShowsObjects Sample.schema entity []
          ((delivered Sample.schema entity [] Sample.tables plan none rows).map
            (choiceOf plan.query.joins)) select.selection objects := by
  have ran : ((Document.parse Sample.document).toOption.bind fun op =>
      op.selection.head?.bind fun field =>
        (Executor.executeRoot ⟨Sample.schema, none⟩ Sample.source [] field).run.toOption.map
          Json.text) = some Sample.answer := by decide +kernel
  obtain ⟨op, parsed, ran⟩ := Option.bind_eq_some_iff.1 ran
  obtain ⟨field, first, ran⟩ := Option.bind_eq_some_iff.1 ran
  obtain ⟨value, answered, text⟩ := Option.map_eq_some_iff.1 ran
  have parsed := Outcome.toOption_eq_some.1 parsed
  have answered := Outcome.toOption_eq_some.1 answered
  have requested := List.mem_of_head? first
  obtain ⟨plan, entity, select, rows, objects, planned, -, -, -, same, shown⟩ :=
    @executeRoot_shows [] field Sample.tables _ ⟨Sample.schema, none⟩ _ _ _ Sample.schema_built
      (by decide) _ _ parsed requested _ answered
  exact ⟨op, field, value, parsed, requested, answered, text, plan, entity, select, rows, objects,
    planned, same, shown⟩

namespace Sample

/-- Fields of the books, all under one name. -/
def underOneName (names : List String) : Document.Field :=
  .mk none "books" [] [.mk none "select" [] (names.map fun name => .mk (some "x") name [] [])]

/-- The text of what they are answered with. -/
def answerUnderOneName (names : List String) : Option String :=
  (Executor.executeRoot ⟨schema, none⟩ source [] (underOneName names)).run.toOption.map Json.text

/-- Of two fields under one name, the first is not in the answer. -/
theorem not_shown :
    answerUnderOneName ["id"] =
      some "\x7b\"select\":[\x7b\"x\":\"1\"\x7d,\x7b\"x\":\"2\"\x7d,\x7b\"x\":\"3\"\x7d]\x7d" ∧
    answerUnderOneName ["id", "title"] =
      some "\x7b\"select\":[\x7b\"x\":\"x\"\x7d,\x7b\"x\":\"x\"\x7d,\x7b\"x\":\"z\"\x7d]\x7d" := by
  decide +kernel

end Sample

end EntityQuery
