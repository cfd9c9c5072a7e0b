/-
EntityQuery/Proofs/Groups.lean

The groups of joined rows.

Joining multiplies rows: below one row of an entity, every combination of
what its associations lead to is a row of the result.  Grouping has to find
the partners of a row again among all these.

The rows to look at belong to one place in the tree of associations
(`Tables.Located`): their choices agree with a given row at a path, and which
rows they are depends on what was chosen on the way there only.  The joins for
an association from there spread these rows over its options, and the joins
after it repeat them; so the identifiers that appear are those of the partners,
in the order of their table (`Located.identifiers`), and the rows of one
partner are again located, one step further (`Located.partner`).
-/
import EntityQuery.Proofs.Columns
import EntityQuery.Proofs.Distinct

namespace EntityQuery

open Store Joins

/-! ### Identified rows -/

/-- The text of the identifier of a row of an entity, if there is a row and it
has one. -/
def EntityType.idText? (e : EntityType) (row : Option Row) : Option String :=
  let id := cellOf row e.idColumn
  if id.isNull then none else some id.text

/-- The table of an entity is there, and the texts of its identifiers tell its
rows apart. -/
structure Tables.Identifies (tables : Tables) (e : EntityType) : Prop where
  table : (Keyed.find? tables e.descriptor.qualifiedTable).isSome
  present : ∀ row ∈ tables.rowsOf e.descriptor.qualifiedTable,
    (cellOf (some row) e.idColumn).isNull = false
  distinct : ((tables.rowsOf e.descriptor.qualifiedTable).map fun row =>
    (cellOf (some row) e.idColumn).text).Nodup

namespace Tables.Identifies

variable {tables : Tables} {e : EntityType} {row row' : Row}

/-- A table whose rows are told apart exists. -/
theorem find?_table (h : tables.Identifies e) :
    Keyed.find? tables e.descriptor.qualifiedTable =
      some (tables.rowsOf e.descriptor.qualifiedTable) := by
  obtain ⟨rows, table⟩ := Option.isSome_iff_exists.1 h.table
  rw [rowsOf, table]
  rfl

/-- A row that is told apart from others has an identifier. -/
theorem idText? (h : tables.Identifies e) (hr : row ∈ tables.rowsOf e.descriptor.qualifiedTable) :
    e.idText? (some row) = some (cellOf (some row) e.idColumn).text := by
  simp only [EntityType.idText?]
  simp [h.present row hr]

/-- Rows of one table with one identifier are the same. -/
theorem injective (h : tables.Identifies e)
    (hr : row ∈ tables.rowsOf e.descriptor.qualifiedTable)
    (hr' : row' ∈ tables.rowsOf e.descriptor.qualifiedTable)
    (same : e.idText? (some row) = e.idText? (some row')) : row = row' := by
  rw [h.idText? hr, h.idText? hr', Option.some.injEq] at same
  exact List.inj_on_of_nodup_map h.distinct hr hr' same

/-- Some of the rows, in order, have the identifiers of these rows. -/
theorem eraseDups (h : tables.Identifies e) (p : Row → Bool) :
    (((tables.rowsOf e.descriptor.qualifiedTable).filter p).filterMap fun row =>
        e.idText? (some row)).eraseDups =
      ((tables.rowsOf e.descriptor.qualifiedTable).filter p).map fun row =>
        (cellOf (some row) e.idColumn).text := by
  have texts : (((tables.rowsOf e.descriptor.qualifiedTable).filter p).filterMap fun row =>
        e.idText? (some row)) =
      ((tables.rowsOf e.descriptor.qualifiedTable).filter p).map fun row =>
        (cellOf (some row) e.idColumn).text := by
    rw [← List.filterMap_eq_map]
    exact List.filterMap_congr fun row hr => h.idText? (List.mem_filter.1 hr).1
  rw [texts]
  exact eraseDups_of_nodup (h.distinct.sublist (List.filter_sublist.map _))

end Tables.Identifies

theorem EntityType.idText?_none (e : EntityType) : e.idText? none = none := rfl

/-- The options have the identifiers of the partners. -/
theorem Association.filterMap_options (A : Association) (tables : Tables) (source : Option Row) :
    (A.options tables source).filterMap A.target.idText? =
      (A.partners tables source).filterMap fun row => A.target.idText? (some row) := by
  simp only [options]
  split
  · next none =>
    rw [List.isEmpty_iff.1 none]
    rfl
  · rw [List.filterMap_map]
    rfl

theorem Association.mem_partners_of_mem_options {A : Association} {tables : Tables}
    {source : Option Row} {row : Row} (h : some row ∈ A.options tables source) :
    row ∈ A.partners tables source := by
  simp only [options] at h
  split at h
  · cases List.mem_singleton.1 h
  · simpa using h

/-! ### Located bindings -/

namespace Tables

variable {s : QuerySchema} {root : EntityType} {joins : Joins} (tables : Tables)

/-- The bindings that joins make of the rows of the root. -/
def bindings (joins : Joins) (rows : List Row) : List Binding :=
  rows.flatMap fun row => tables.spread joins [(rootAlias, some row)]

variable {tables} {rows : List Row} {path : List String} {row : Row} {part : Choice → Bool}

/-- The bindings of planned joins bind all of their aliases. -/
theorem spans_of_mem_bindings (planned : Planned s root joins) {binding : Binding}
    (h : binding ∈ tables.bindings joins rows) : Spans joins binding := by
  obtain ⟨first, -, h⟩ := List.mem_flatMap.1 h
  exact (tables.spans_of_mem_spread planned (spans_root (some first)) h).1

/-- Joining further spreads every binding that there is. -/
theorem bindings_append (before after : Joins) :
    tables.bindings (before ++ after) rows =
      (tables.bindings before rows).flatMap (tables.spread after) := by
  simp only [bindings]
  rw [List.flatMap_assoc]
  exact congrArg (List.flatMap · rows) (funext fun row => spread_append tables before after _)

/-- A part of the bindings is located at a row of a path: it depends on the
rows on the way there, has this row there, and is not empty. -/
structure Located (tables : Tables) (joins : Joins) (rows : List Row) (path : List String)
    (row : Row) (part : Choice → Bool) : Prop where
  above : ∀ choice choice', (∀ p, p <+: path → choice p = choice' p) →
    part choice = part choice'
  here : ∀ binding ∈ tables.bindings joins rows, part (choiceOf joins binding) = true →
    choiceOf joins binding path = some row
  nonempty : ∃ binding ∈ tables.bindings joins rows, part (choiceOf joins binding) = true

/-- The bindings of a part. -/
def parted (tables : Tables) (joins : Joins) (rows : List Row) (part : Choice → Bool) :
    List Binding :=
  (tables.bindings joins rows).filter fun binding => part (choiceOf joins binding)

/-- What later joins make of a binding has the choices of the binding, where it
has any. -/
theorem choiceOf_of_mem_spread {before after : Joins} (planned : Planned s root (before ++ after))
    {binding more : Binding} (spans : Spans before binding)
    (h : more ∈ tables.spread after binding) {p : List String} {a : String}
    (joined : aliasOf? before p = some a) :
    choiceOf (before ++ after) more p = choiceOf before binding p := by
  obtain ⟨-, grown⟩ := tables.spans_of_mem_spread planned spans h
  exact choiceOf_mono joined (List.prefix_append _ _) spans.covers grown

/-- What a join and the joins after it make of a binding has the options of the
association, in order. -/
theorem eraseDups_spread {before after : Joins} {j : Join}
    (planned : Planned s root (before ++ j :: after)) {A : Association}
    (association : s.associationAt root j.path = some A) {binding : Binding}
    (spans : Spans before binding) {α : Type} [DecidableEq α] (key : Option Row → Option α) :
    ((tables.spread (j :: after) binding).filterMap fun more =>
        key (choiceOf (before ++ j :: after) more j.path)).eraseDups =
      ((A.options tables (choiceOf before binding j.path.dropLast)).filterMap key).eraseDups := by
  obtain ⟨earlier, -, follows⟩ := planned.follows rfl
  obtain ⟨A', association', stepped⟩ := tables.step_eq earlier.numbered follows spans
  rw [association] at association'
  cases association'
  rw [List.append_cons] at planned ⊢
  have own := (planned.earlier.aliases (List.mem_append_right _ List.mem_cons_self)).1
  have fresh : j.tableAlias ∉ Keyed.keys binding := by
    rw [follows.tableAlias]
    exact nextAlias_not_mem earlier.numbered spans
  show (((tables.step j binding).flatMap (tables.spread after)).filterMap _).eraseDups = _
  rw [stepped, List.flatMap_map]
  -- Every row that is chosen stays in some binding, and later joins do not change the choice.
  refine eraseDups_filterMap_flatMap (fun row _ => ?_) fun row _ more hm => ?_
  · exact tables.spread_ne_nil planned (spans.concat j row)
  · rw [choiceOf_of_mem_spread planned (spans.concat j row) hm own, choiceOf_last own fresh]

/-! ### Groups -/

variable {name a : String} {A : Association}

/-- The bindings of a located part show the partners of its row, in order, at
the end of an association that is joined. -/
theorem Located.identifiers (located : Located tables joins rows path row part)
    (planned : Planned s root joins) (joined : aliasOf? joins (path ++ [name]) = some a)
    (association : s.associationAt root (path ++ [name]) = some A) :
    ((tables.parted joins rows part).filterMap fun binding =>
        A.target.idText? (choiceOf joins binding (path ++ [name]))).eraseDups =
      ((A.partners tables (some row)).filterMap fun row =>
        A.target.idText? (some row)).eraseDups := by
  -- The join of the association, with the joins before and after it.
  obtain ⟨j, hj, onPath⟩ := exists_join_of_aliasOf? joined (by simp)
  obtain ⟨before, after, rfl⟩ := List.append_of_mem hj
  obtain ⟨earlier, -, follows⟩ := planned.follows rfl
  have parent := follows.parent
  rw [onPath, List.dropLast_concat] at parent
  have stays : ∀ binding ∈ tables.bindings before rows, ∀ more ∈ tables.spread (j :: after) binding,
      ∀ p, p <+: path → choiceOf (before ++ j :: after) more p = choiceOf before binding p := by
    intro binding hb more hm p hp
    obtain ⟨b, joined⟩ := earlier.closed parent hp
    exact choiceOf_of_mem_spread planned (spans_of_mem_bindings earlier hb) hm joined
  -- Whether a binding is in the part is settled before the association is joined.
  have whole : tables.parted (before ++ j :: after) rows part =
      (tables.parted before rows part).flatMap (tables.spread (j :: after)) := by
    simp only [parted]
    rw [bindings_append]
    refine filter_flatMap_eq fun binding hb more hm => ?_
    exact located.above _ _ (stays binding hb more hm)
  have here : ∀ binding ∈ tables.parted before rows part,
      choiceOf before binding path = some row := by
    intro binding hb
    obtain ⟨among, inPart⟩ := List.mem_filter.1 hb
    obtain ⟨more, hm⟩ := List.exists_mem_of_ne_nil _
      (tables.spread_ne_nil planned (spans_of_mem_bindings earlier among))
    have later : more ∈ tables.bindings (before ++ j :: after) rows := by
      rw [bindings_append]
      exact List.mem_flatMap.2 ⟨binding, among, hm⟩
    rw [← stays binding among more hm path List.prefix_rfl]
    refine located.here more later ?_
    rw [located.above _ _ (stays binding among more hm)]
    exact inPart
  have nonempty : tables.parted before rows part ≠ [] := by
    obtain ⟨more, hm, inPart⟩ := located.nonempty
    intro none
    have : more ∈ tables.parted (before ++ j :: after) rows part := List.mem_filter.2 ⟨hm, inPart⟩
    rw [whole, none] at this
    exact absurd this List.not_mem_nil
  -- Each binding of the part is spread over the same options.
  rw [whole, List.filterMap_flatMap, ← A.filterMap_options tables, ← onPath]
  rw [← onPath] at association
  refine (eraseDups_flatMap_congr fun binding hb => ?_).trans (eraseDups_flatMap_const nonempty)
  have spans := spans_of_mem_bindings earlier (List.mem_filter.1 hb).1
  rw [eraseDups_spread planned association spans A.target.idText?, onPath, List.dropLast_concat,
    here binding hb]

/-- The choices of a part that have a row of this identifier at a path. -/
def narrowed (part : Choice → Bool) (e : EntityType) (path : List String) (row : Row) :
    Choice → Bool := fun choice =>
  part choice && decide (e.idText? (choice path) = some (cellOf (some row) e.idColumn).text)

/-- The bindings of a located part that have a certain partner are located at
the partner. -/
theorem Located.partner (located : Located tables joins rows path row part)
    (planned : Planned s root joins) (joined : aliasOf? joins (path ++ [name]) = some a)
    (association : s.associationAt root (path ++ [name]) = some A)
    (identifies : tables.Identifies A.target) {partner : Row}
    (hp : partner ∈ A.partners tables (some row)) :
    Located tables joins rows (path ++ [name]) partner
      (narrowed part A.target (path ++ [name]) partner) where
  above := by
    intro choice choice' same
    simp only [narrowed]
    rw [same _ List.prefix_rfl,
      located.above choice choice' fun p hp => same p (hp.trans (List.prefix_append _ _))]
  here := by
    intro binding hb inPart
    obtain ⟨inPart, identifier⟩ := Bool.and_eq_true_iff.1 inPart
    have identifier := of_decide_eq_true identifier
    obtain ⟨j, hj, onPath⟩ := exists_join_of_aliasOf? joined (by simp)
    obtain ⟨first, -, spread⟩ := List.mem_flatMap.1 hb
    obtain ⟨A', association', option⟩ :=
      consistent_of_mem_spread planned (spans_root (some first)) spread j hj
    rw [onPath, association] at association'
    cases association'
    rw [onPath, List.dropLast_concat, located.here binding hb inPart] at option
    -- The row there is a partner too, and the identifier tells partners apart.
    cases chosen : choiceOf joins binding (path ++ [name]) with
    | none =>
      rw [chosen, EntityType.idText?_none] at identifier
      cases identifier
    | some other =>
      rw [chosen] at option identifier
      have among := Association.mem_partners_of_mem_options option
      rw [← identifies.idText? (List.mem_filter.1 hp).1] at identifier
      rw [identifies.injective (List.mem_filter.1 among).1 (List.mem_filter.1 hp).1 identifier]
  nonempty := by
    -- The identifier of the partner shows, so some binding has it.
    have listed : (cellOf (some partner) A.target.idColumn).text ∈
        (A.partners tables (some row)).filterMap fun row => A.target.idText? (some row) :=
      List.mem_filterMap.2 ⟨partner, hp, identifies.idText? (List.mem_filter.1 hp).1⟩
    rw [← List.mem_eraseDups, ← located.identifiers planned joined association,
      List.mem_eraseDups] at listed
    obtain ⟨binding, hb, identifier⟩ := List.mem_filterMap.1 listed
    obtain ⟨among, inPart⟩ := List.mem_filter.1 hb
    exact ⟨binding, among, Bool.and_eq_true_iff.2 ⟨inPart, decide_eq_true identifier⟩⟩

variable {p : Row → Bool}

/-- What the joins make of some rows of the root shows these rows, in order. -/
theorem identifiers_root (planned : Planned s root joins) (identifies : tables.Identifies root) :
    ((tables.bindings joins ((tables.rowsOf root.descriptor.qualifiedTable).filter p)).filterMap
        fun binding => root.idText? (choiceOf joins binding [])).eraseDups =
      ((tables.rowsOf root.descriptor.qualifiedTable).filter p).map fun row =>
        (cellOf (some row) root.idColumn).text := by
  rw [← identifies.eraseDups]
  refine eraseDups_filterMap_flatMap (fun row _ => ?_) fun row _ binding hb => ?_
  · exact spread_root_ne_nil planned row
  · rw [choiceOf_root_of_mem_spread planned hb]

/-- The bindings that have a certain row at the root are located there. -/
theorem located_root (planned : Planned s root joins) (identifies : tables.Identifies root)
    (hr : row ∈ (tables.rowsOf root.descriptor.qualifiedTable).filter p) :
    Located tables joins ((tables.rowsOf root.descriptor.qualifiedTable).filter p) [] row
      (narrowed (fun _ => true) root [] row) where
  above := by
    intro choice choice' same
    simp only [narrowed]
    rw [same [] List.prefix_rfl]
  here := by
    intro binding hb inPart
    obtain ⟨-, identifier⟩ := Bool.and_eq_true_iff.1 inPart
    have identifier := of_decide_eq_true identifier
    obtain ⟨first, hf, spread⟩ := List.mem_flatMap.1 hb
    rw [choiceOf_root_of_mem_spread planned spread] at identifier ⊢
    rw [← identifies.idText? (List.mem_filter.1 hr).1] at identifier
    -- Rows with one identifier are the same row.
    rw [identifies.injective (List.mem_filter.1 hf).1 (List.mem_filter.1 hr).1 identifier]
  nonempty := by
    obtain ⟨binding, hb⟩ := List.exists_mem_of_ne_nil _
      (spread_root_ne_nil planned row)
    refine ⟨binding, List.mem_flatMap.2 ⟨row, hr, hb⟩, ?_⟩
    refine Bool.and_eq_true_iff.2 ⟨rfl, decide_eq_true ?_⟩
    rw [choiceOf_root_of_mem_spread planned hb]
    exact identifies.idText? (List.mem_filter.1 hr).1

/-- The groups of the rows of a part, where the identifiers that show at a path
are known. -/
theorem groups_parted (planned : Planned s root joins) {columns : List Column}
    (distinct : (columns.map (·.name)).Nodup) {e : EntityType} {column : String}
    (joined : aliasOf? joins path = some a) (asked : ⟨.column a e.idColumn, column⟩ ∈ columns)
    {found : List Row}
    (ids : ((tables.parted joins rows part).filterMap fun binding =>
        e.idText? (choiceOf joins binding path)).eraseDups =
      found.map fun row => (cellOf (some row) e.idColumn).text) :
    Reshape.groups column ((tables.parted joins rows part).map (resultOf columns)) =
      found.map fun row =>
        (tables.parted joins rows (narrowed part e path row)).map (resultOf columns) := by
  have idText : ∀ binding ∈ tables.parted joins rows part,
      Reshape.idText? column (resultOf columns binding) =
        e.idText? (choiceOf joins binding path) := by
    intro binding hb
    have covers := (spans_of_mem_bindings planned (List.mem_filter.1 hb).1).covers
    simp only [Reshape.idText?, EntityType.idText?]
    rw [cell_resultOf distinct covers asked joined]
  rw [← List.filterMap_congr idText, ← Function.comp_def, ← List.filterMap_map] at ids
  rw [Reshape.groups_eq_map ids]
  -- The rows of a group are the part, restricted to one identifier.
  refine List.map_congr_left fun row _ => ?_
  rw [List.filter_map]
  refine congrArg (List.map _) ?_
  simp only [parted]
  rw [List.filter_filter]
  refine List.filter_congr fun binding hb => ?_
  simp only [narrowed]
  cases inPart : part (choiceOf joins binding) with
  | false => rw [Bool.and_false, Bool.false_and]
  | true =>
    rw [Bool.and_true, Bool.true_and, Function.comp_apply,
      idText binding (List.mem_filter.2 ⟨hb, inPart⟩)]

end Tables

end EntityQuery
