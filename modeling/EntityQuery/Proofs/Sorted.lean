/-
EntityQuery/Proofs/Sorted.lean

Rows in the order that a document asks for.

The order arguments of a selection, read from its beginning to its end, are
the sort keys of its plan, one by one (`Planner.requested_planFields`): each
reads the field that the argument stands at, in the row that is joined for the
associations around it.

A plan answers the rows that it answers without an order and a limit, sorted
stably by these keys and then cut off (`Planning.run_sorted`).  The sort of
the store looks at the keys alone, so rows can be thought of as the bindings
that they are made of.
-/
import EntityQuery.Proofs.Precedence

namespace EntityQuery

open Store

/-! ### What is asked for -/

/-- An order asked for at a field, behind the associations that lead to it. -/
structure OrderRequest where
  path : List String
  field : String
  given : Document.Value

/-- The word for a direction. -/
def Direction.word : Direction → String
  | .ascending => "ASC"
  | .descending => "DESC"

namespace Document

/-- The word that a value is: itself, or what its variable stands for. -/
def Value.word? (vars : Variables) : Value → Option String
  | .enum word => some word
  | .string word => some word
  | .variable name =>
    match Keyed.find? vars name with
    | some (.string word) => some word
    | _ => none
  | _ => none

mutual

/-- The orders asked for at a field and below it, in the order in which they
are written. -/
def Field.orders (path : List String) : Field → List OrderRequest
  | .mk _ name arguments selection =>
    (arguments.filter (·.1 = "orderBy")).map (fun argument => ⟨path, name, argument.2⟩) ++
      ordersOf (path ++ [name]) selection

/-- The orders asked for in a selection, in the order in which they are
written. -/
def ordersOf (path : List String) : List Field → List OrderRequest
  | [] => []
  | f :: fs => f.orders path ++ ordersOf path fs

end

end Document

namespace OrderRequest

/-- The value to order by, in the rows chosen for the paths. -/
def value (s : QuerySchema) (root : EntityType) (choice : Choice) (r : OrderRequest) : Json :=
  match (s.entityAt root r.path).bind (·.field? r.field) with
  | some field => cellOf (choice r.path) field.descriptor.column
  | none => .null

/-- The values to order by, in the rows that a binding has for the paths. -/
def values (s : QuerySchema) (root : EntityType) (joins : Joins) (requests : List OrderRequest)
    (binding : Binding) : List Json :=
  requests.map (·.value s root (Joins.choiceOf joins binding))

/-- The sort key is the one that is asked for. -/
structure Gets (s : QuerySchema) (root : EntityType) (vars : Variables) (joins : Joins)
    (r : OrderRequest) (key : OrderKey) : Prop where
  column : ∃ e field a, s.entityAt root r.path = some e ∧ e.field? r.field = some field ∧
    joins.aliasOf? r.path = some a ∧ key.expr = .column a field.descriptor.column
  direction : r.given.word? vars = some key.direction.word

variable {s : QuerySchema} {root : EntityType} {vars : Variables} {joins more : Joins}
variable {r : OrderRequest} {key : OrderKey}

theorem Gets.mono (h : joins <+: more) (gets : r.Gets s root vars joins key) :
    r.Gets s root vars more key := by
  obtain ⟨⟨e, field, a, entity, found, joined, reads⟩, direction⟩ := gets
  exact ⟨⟨e, field, a, entity, found, Joins.aliasOf?_mono h joined, reads⟩, direction⟩

/-- The sort key reads the value. -/
theorem Gets.eval {binding : Binding} (gets : r.Gets s root vars joins key)
    (covers : Joins.Covers joins binding) :
    (eval [] binding key.expr).toOption.getD .null =
      r.value s root (Joins.choiceOf joins binding) := by
  obtain ⟨e, field, a, entity, found, joined, reads⟩ := gets.column
  rw [reads, Tables.eval_column covers joined, value, entity, Option.bind_some, found]
  rfl

end OrderRequest

/-! ### What a plan orders by -/

namespace Planner

open Selection Document

variable {s : QuerySchema} {root : EntityType} {vars : Variables}

theorem word?_of_direction {field : String} {value : Document.Value} {d : Direction}
    (h : direction vars field value = .ok d) : value.word? vars = some d.word := by
  have ofWord : ∀ word, directionOf field word = .ok d → word = some d.word := by
    intro word h
    simp only [directionOf] at h
    split at h <;> cases h <;> rfl
  cases value
  case «variable» name =>
    simp only [direction] at h
    split at h
    · next word found =>
      rw [Value.word?, found]
      exact ofWord _ h
    · cases ofWord _ h
    · cases h
  all_goals exact ofWord _ h

/-- The arguments of a scalar field all are orders. -/
theorem requested_orderArguments {e : EntityType} {a name : String} {p : List String}
    {field : SchemaField} {arguments : List (String × Document.Value)} {u : Unit} {d d' : Draft}
    (h : Gives (orderArguments vars name (.column a field.descriptor.column) arguments) d u d')
    (entity : s.entityAt root p = some e) (found : e.field? name = some field)
    (joined : d.joins.aliasOf? p = some a) :
    ∃ keys, d' = { d with order := d.order ++ keys } ∧
      List.Forall₂ (OrderRequest.Gets s root vars d.joins)
        ((arguments.filter (·.1 = "orderBy")).map fun argument => ⟨p, name, argument.2⟩) keys := by
  -- Along the arguments, of which only the order is admitted; each adds its key at the end.
  induction arguments generalizing d with
  | nil =>
    obtain ⟨-, rfl⟩ := gives_pure.1 h
    exact ⟨[], by rw [List.append_nil], .nil⟩
  | cons argument rest ih =>
    obtain ⟨argument, value⟩ := argument
    simp only [orderArguments] at h
    split at h
    · obtain ⟨_, _, h', -⟩ := gives_bind.1 h
      exact absurd h' gives_throw
    next named =>
    have named : argument = "orderBy" := not_not.1 named
    obtain ⟨given, d₁, h₁, h⟩ := gives_bind.1 h
    obtain ⟨directed, rfl⟩ := gives_lift.1 h₁
    obtain ⟨u₂, d₂, h₂, h⟩ := gives_bind.1 h
    obtain rfl := gives_orderBy.1 h₂
    obtain ⟨keys, rfl, gets⟩ := ih h joined
    refine ⟨⟨.column a field.descriptor.column, given⟩ :: keys, by simp, ?_⟩
    rw [List.filter_cons_of_pos (by simp [named]), List.map_cons]
    exact .cons ⟨⟨e, field, a, entity, found, joined, rfl⟩, word?_of_direction directed⟩ gets

/-- The draft got the sort keys that are asked for. -/
def GetsOrders (s : QuerySchema) (root : EntityType) (vars : Variables) (d d' : Draft)
    (requests : List OrderRequest) : Prop :=
  ∃ keys, d'.order = d.order ++ keys ∧
    List.Forall₂ (OrderRequest.Gets s root vars d'.joins) requests keys

theorem GetsOrders.trans {d d₁ d' : Draft} {first rest : List OrderRequest}
    (h : GetsOrders s root vars d d₁ first) (h' : GetsOrders s root vars d₁ d' rest)
    (grown : d₁.joins <+: d'.joins) : GetsOrders s root vars d d' (first ++ rest) := by
  obtain ⟨keys, order, gets⟩ := h
  obtain ⟨keys', order', gets'⟩ := h'
  refine ⟨keys ++ keys', by rw [order', order, List.append_assoc], ?_⟩
  exact List.rel_append (gets.imp fun r key gets => gets.mono grown) gets'

mutual

/-- Planning a field orders by what is asked for at it and below it. -/
theorem requested_planField {e : EntityType} {a : String} {p : List String} {f : Document.Field}
    {g : SelectedField} {d d' : Draft} (h : Gives (planField s vars e a p f) d g d')
    (entity : s.entityAt root p = some e) (joined : d.joins.aliasOf? p = some a) :
    GetsOrders s root vars d d' (f.orders p) := by
  cases f with
  | mk label name arguments selection =>
  obtain ⟨field, found, scalar | association⟩ := planField_cases h
  · obtain ⟨b, bound, h⟩ := scalar
    obtain ⟨leaf, -, u, d₁, u', asked, ordered⟩ := gives_planScalar h
    have same := gives_project_order asked
    have joins : d₁.joins = d.joins := keepsJoins_project _ _ _ _ _ asked
    rw [← joins] at joined
    obtain ⟨keys, rfl, gets⟩ := requested_orderArguments ordered entity found joined
    have leaf : selection = [] := leaf
    rw [Field.orders, leaf, ordersOf, List.append_nil]
    exact ⟨keys, by rw [same], gets⟩
  · obtain ⟨bound, none, -, next, target, fields, id, d₁, d₂, join, planned, asked, -⟩ :=
      association
    -- An association asks for no order itself, and its fields do so along its path.
    obtain ⟨entity', joined', -⟩ := join.join entity joined found bound
    obtain ⟨keys, order, gets⟩ := requested_planFields planned entity' joined'
    have kept := Keeps.projectId Predicate.cumulative_keepsJoins keepsJoins_project
      _ _ _ _ _ _ asked
    rw [Field.orders, none]
    refine ⟨keys, ?_, ?_⟩
    · rw [gives_projectId_order asked, order, (keepsColumns_join _ _ _ _ _ _ _ _ join).2]
    · rw [kept]
      exact gets

theorem requested_planFields {e : EntityType} {a : String} {p : List String}
    {fs : List Document.Field} {gs : List SelectedField} {d d' : Draft}
    (h : Gives (planFields s vars e a p fs) d gs d') (entity : s.entityAt root p = some e)
    (joined : d.joins.aliasOf? p = some a) :
    GetsOrders s root vars d d' (ordersOf p fs) := by
  cases fs with
  | nil =>
    obtain ⟨-, rfl⟩ := gives_pure.1 h
    exact ⟨[], (List.append_nil _).symm, .nil⟩
  | cons f fs =>
    obtain ⟨g, gs, d₁, rfl, first, others⟩ := planFields_cons h
    have grown := Keeps.planField cumulative_grows grows_join grows_project grows_orderBy
      _ _ _ _ _ _ _ _ _ first
    have grown' := Keeps.planFields cumulative_grows grows_join grows_project grows_orderBy
      _ _ _ _ _ _ _ _ _ others
    have joined₁ := Joins.aliasOf?_mono grown.joins joined
    exact (requested_planField first entity joined).trans
      (requested_planFields others entity joined₁) grown'.joins

end

end Planner

/-- The query without an order and a limit. -/
def Query.plain (q : Query) : Query := { q with order := [], limit := none }

namespace Planning

open Planner Joins

variable {s : QuerySchema} {named : String → Prop} {vars : Variables} {field : Document.Field}
variable {plan : RootPlan} {entity : EntityType} {select : Document.Field}
variable {gs : List SelectedField} {tables : Tables} {rootRows : List Row}

/-- The sort keys of a plan are those that its selection asks for. -/
theorem requested_planRootField (planned : planRootField s vars field = .ok plan)
    (root : s.root? field.name = some entity) (selects : field.selection = [select]) :
    List.Forall₂ (OrderRequest.Gets s entity vars plan.query.joins)
      (Document.ordersOf [] select.selection) plan.query.order := by
  obtain ⟨entity', d, condition, root', run, query⟩ := planRootField_eq_ok planned
  obtain rfl : entity = entity' := Option.some.inj (root.symm.trans root')
  obtain ⟨d₁, selected, -, compiled⟩ := gives_planParts.1 run
  obtain ⟨select', gs, id, d₂, only, fields, asked, -⟩ := gives_planRoot selected
  obtain rfl : select = select' := List.singleton_inj.1 (selects.symm.trans only)
  obtain ⟨keys, order, gets⟩ := requested_planFields fields (s.entityAt_nil entity) (aliasOf?_nil _)
  -- The identifier and the filter come after the orders.
  have kept := Keeps.compileFilter cumulative_keepsColumns keepsColumns_bindValue
    keepsColumns_join _ _ _ _ _ _ _ compiled
  have grown := Keeps.compileFilter cumulative_grows grows_bindValue grows_join _ _ _ _ _ _ _
    compiled
  have grown' := Keeps.projectId cumulative_grows grows_project _ _ _ _ _ _ asked
  have order : plan.query.order = keys := by
    rw [query]
    show d.order = keys
    rw [kept.2, gives_projectId_order asked, order]
    rfl
  have joins : d₂.joins <+: plan.query.joins := by
    rw [query]
    exact grown'.joins.trans grown.joins
  rw [order]
  exact gets.imp fun r key gets => gets.mono joins

/-- The values that a binding is sorted by are those of its rows. -/
theorem sortKeys_eq {requests : List OrderRequest} {order : List OrderKey} {joins : Joins}
    {binding : Binding}
    (gets : List.Forall₂ (OrderRequest.Gets s entity vars joins) requests order)
    (covers : Covers joins binding) :
    Tables.sortKeys order binding = OrderRequest.values s entity joins requests binding := by
  induction gets with
  | nil => rfl
  | cons gets _ ih =>
    rw [Tables.sortKeys, List.map_cons, OrderRequest.values, List.map_cons, gets.eval covers]
    exact congrArg _ ih

/-- Without an order and a limit a plan answers the rows of its bindings. -/
theorem PlanOf.run_plain [Disorder] (p : PlanOf s named vars field plan entity select gs)
    (table : Keyed.find? tables plan.query.table = some rootRows) :
    tables.run plan.query.plain = .ok ((rootRows.flatMap (kept s entity vars tables plan)).map
      (Tables.resultOf plan.query.columns)) := by
  obtain ⟨joined, join, filter, covers⟩ := p.kept_eq rootRows
  rw [Tables.run_of_parts (q := plan.query.plain) rfl rfl table join filter]
  exact Outcome.mapM_ok fun binding hb =>
    Tables.resultRow_eq p.columns p.distinct (covers binding hb) _

/-- The answers of its bindings, with the values asked for. -/
theorem PlanOf.map_answer_values (p : PlanOf s named vars field plan entity select gs)
    {requests : List OrderRequest}
    (gets : List.Forall₂ (OrderRequest.Gets s entity vars plan.query.joins) requests
      plan.query.order) (tables : Tables) (rootRows : List Row) :
    (rootRows.flatMap (kept s entity vars tables plan)).map
        (Tables.answer plan.query.order plan.query.columns) =
      (rootRows.flatMap (kept s entity vars tables plan)).map fun binding =>
        (OrderRequest.values s entity plan.query.joins requests binding,
          Tables.resultOf plan.query.columns binding) := by
  have covers : ∀ binding ∈ rootRows.flatMap (kept s entity vars tables plan),
      Covers plan.query.joins binding := by
    obtain ⟨-, -, -, covers⟩ := p.kept_eq rootRows
    exact covers
  exact List.map_congr_left fun binding hb => Prod.ext (sortKeys_eq gets (covers binding hb)) rfl

/-- With its order a plan answers them sorted by the values asked for. -/
theorem PlanOf.run_sortedBindings [Disorder]
    (p : PlanOf s named vars field plan entity select gs) {requests : List OrderRequest}
    (gets : List.Forall₂ (OrderRequest.Gets s entity vars plan.query.joins) requests
      plan.query.order)
    (table : Keyed.find? tables plan.query.table = some rootRows) (limit : Option Nat) :
    tables.run (plan.query.limitedTo limit) = .ok
      ((Tables.cutOff limit (arrange (fun a b =>
        Tables.keysOrder (plan.query.order.map (·.direction))
          (OrderRequest.values s entity plan.query.joins requests a)
          (OrderRequest.values s entity plan.query.joins requests b) == .lt)
        (rootRows.flatMap (kept s entity vars tables plan)))).map
          (Tables.resultOf plan.query.columns)) := by
  rw [p.run_arranged table limit, Tables.arranged, Tables.byKeys_eq,
    p.map_answer_values gets tables rootRows, arrange_map, Tables.cutOff_map, List.map_map]
  rfl

/-- The sort does not give up if these have an order. -/
theorem PlanOf.givesUp_sortedBindings [Disorder]
    (p : PlanOf s named vars field plan entity select gs) {requests : List OrderRequest}
    (gets : List.Forall₂ (OrderRequest.Gets s entity vars plan.query.joins) requests
      plan.query.order)
    (table : Keyed.find? tables plan.query.table = some rootRows)
    (consistent : Consistent (fun a b => Tables.keysOrder (plan.query.order.map (·.direction))
        (OrderRequest.values s entity plan.query.joins requests a)
        (OrderRequest.values s entity plan.query.joins requests b) == .lt)
      (rootRows.flatMap (kept s entity vars tables plan))) (limit : Option Nat) :
    tables.givesUp (plan.query.limitedTo limit) = false := by
  rw [p.givesUp_eq table limit, p.map_answer_values gets tables rootRows, sort?_map,
    Option.isNone_map]
  exact congrArg Option.isNone (sort?_of_consistent consistent)

/-- The orders asked for, as directions with the values to order by. -/
theorem exists_keys {requests : List OrderRequest} {order : List OrderKey} {joins : Joins}
    (gets : List.Forall₂ (OrderRequest.Gets s entity vars joins) requests order) :
    ∃ keys : List (Direction × (Binding → Json)),
      keys.map (·.1) = order.map (·.direction) ∧
      (∀ binding, keys.map (·.2 binding) =
        OrderRequest.values s entity joins requests binding) ∧
      ∀ key ∈ keys, ∃ r ∈ requests,
        key.2 = fun binding => r.value s entity (choiceOf joins binding) := by
  induction gets with
  | nil => exact ⟨[], rfl, fun _ => rfl, List.forall_mem_nil _⟩
  | @cons r key requests order _ _ ih =>
    obtain ⟨keys, directions, values, members⟩ := ih
    -- Each sort key becomes a direction and the value that it reads in a binding.
    refine ⟨(key.direction, fun binding => r.value s entity (choiceOf joins binding)) :: keys,
      ?_, fun binding => ?_, List.forall_mem_cons.2 ⟨⟨r, List.mem_cons_self, rfl⟩, ?_⟩⟩
    · rw [List.map_cons, directions, List.map_cons]
    · rw [List.map_cons, values]
      rfl
    · exact fun key hk => (members key hk).imp fun r h => ⟨List.mem_cons_of_mem _ h.1, h.2⟩

/-- Orders of columns that have an order give the bindings an order, and sorting
by sort keys is the one way to sort them stably by what these are asked
for. -/
theorem stablySorted_iff [Disorder] {requests : List OrderRequest} {order : List OrderKey}
    {joins : Joins} {bindings : List Binding}
    (gets : List.Forall₂ (OrderRequest.Gets s entity vars joins) requests order)
    (uniform : ∀ r ∈ requests, Uniform (bindings.map fun binding =>
      r.value s entity (choiceOf joins binding))) :
    Consistent (fun a b => Tables.keysOrder (order.map (·.direction))
      (OrderRequest.values s entity joins requests a)
      (OrderRequest.values s entity joins requests b) == .lt) bindings ∧
    ∀ other, StablySorted (fun a b => PrecedesBy (order.map (·.direction))
        (OrderRequest.values s entity joins requests a)
        (OrderRequest.values s entity joins requests b)) bindings other ↔
      other = arrange (fun a b => Tables.keysOrder (order.map (·.direction))
        (OrderRequest.values s entity joins requests a)
        (OrderRequest.values s entity joins requests b) == .lt) bindings := by
  obtain ⟨keys, directions, values, members⟩ := exists_keys gets
  have uniform : ∀ key ∈ keys, Uniform (bindings.map key.2) := by
    intro key hk
    obtain ⟨r, hr, e⟩ := members key hk
    rw [e]
    exact uniform r hr
  have consistent := Tables.consistent_orderBy uniform
  have stable := Tables.stablySorted_orderBy uniform
  simp only [Tables.orderBy, directions, values] at consistent stable
  refine ⟨consistent, fun other =>
    ⟨fun h => h.unique (fun a ha b hb before => ?_) stable, fun e => e ▸ stable⟩⟩
  -- Two stable sorts of one list are the same if no two elements precede each other.
  have asymm := Tables.precedesBy_asymm uniform ha hb
  rw [directions, values, values] at asymm
  exact asymm before

/-- **A plan answers its rows sorted stably by what its selection orders by,
and cut off at its limit.**  The values of each order are to be strings only,
or truth values and integers only, nulls apart; the sort never gives up on
these. -/
theorem run_sorted [Disorder] {name : String} {descriptors : List EntityDescriptor}
    {registry : ScalarRegistry} (built : QuerySchema.build name descriptors registry = .ok s)
    (planned : planRootField s vars field = .ok plan) (root : s.root? field.name = some entity)
    (selects : field.selection = [select])
    (table : Keyed.find? tables plan.query.table = some rootRows)
    (uniform : ∀ r ∈ Document.ordersOf [] select.selection,
      Uniform ((rootRows.flatMap (kept s entity vars tables plan)).map fun binding =>
        r.value s entity (choiceOf plan.query.joins binding))) :
    tables.run plan.query.plain = .ok ((rootRows.flatMap (kept s entity vars tables plan)).map
        (Tables.resultOf plan.query.columns)) ∧
      ∃ directions sorted,
        List.Forall₂ (fun (r : OrderRequest) (d : Direction) => r.given.word? vars = some d.word)
          (Document.ordersOf [] select.selection) directions ∧
        (∀ other, StablySorted
          (fun a b => PrecedesBy directions
            (OrderRequest.values s entity plan.query.joins
              (Document.ordersOf [] select.selection) a)
            (OrderRequest.values s entity plan.query.joins
              (Document.ordersOf [] select.selection) b))
          (rootRows.flatMap (kept s entity vars tables plan)) other ↔ other = sorted) ∧
        ∀ limit, tables.run? (plan.query.limitedTo limit) =
            some (tables.run (plan.query.limitedTo limit)) ∧
          tables.run (plan.query.limitedTo limit) =
            .ok ((Tables.cutOff limit sorted).map (Tables.resultOf plan.query.columns)) := by
  obtain ⟨select', gs, p⟩ := planOf_of_build built planned root
  have gets := requested_planRootField planned root selects
  obtain ⟨consistent, stable⟩ := stablySorted_iff gets uniform
  refine ⟨p.run_plain table, plan.query.order.map (·.direction), _, ?_, stable, fun limit =>
    ⟨Tables.run?_eq_some.2 ⟨p.givesUp_sortedBindings gets table consistent limit, rfl⟩,
      p.run_sortedBindings gets table limit⟩⟩
  exact List.forall₂_map_right_iff.2 (gets.imp fun r key gets => gets.direction)

end Planning

/-! ### The small library -/

namespace Sample

/-- The names of authors and the titles, both in descending order. -/
def descending : Document.Field :=
  .mk none "select" []
    [.mk none "author" [] [.mk none "name" [("orderBy", .enum "DESC")] []],
      .mk none "title" [("orderBy", .enum "DESC")] []]

/-- The books by the names of their authors and by their titles. -/
def ranked : Document.Field := .mk none "books" [] [descending]

theorem descending_orders : Document.ordersOf [] descending.selection =
    [⟨["author"], "name", .enum "DESC"⟩, ⟨[], "title", .enum "DESC"⟩] := rfl

theorem uniform_texts (texts : List (Option String)) :
    Store.Uniform (texts.map fun text => text.elim .null .string) := by
  refine .inl fun v hv some => ?_
  obtain ⟨none | s, -, rfl⟩ := List.mem_map.1 hv
  · exact absurd rfl some
  · exact ⟨s, rfl⟩

end Sample

/-- In the library the book without an author comes last. -/
theorem run_sorted_library :
    ∃ plan, ∃ sorted : List Binding,
      Planning.planRootField Sample.schema [] Sample.ranked = .ok plan ∧
      Sample.tables.run (plan.query.limitedTo (some 2)) =
        .ok ((sorted.take 2).map (Tables.resultOf plan.query.columns)) ∧
      sorted.map (Tables.resultOf plan.query.columns) =
        [[("author.name", .string "yvonne"), ("author.id", .string "a"), ("title", .string "z"),
            ("id", .string "3")],
          [("author.name", .string "yvonne"), ("author.id", .string "a"), ("title", .string "x"),
            ("id", .string "1")],
          [("author.name", .null), ("author.id", .null), ("title", .string "x"),
            ("id", .string "2")]] := by
  have planned : Planning.planRootField Sample.schema [] Sample.ranked = .ok _ := rfl
  have root : Sample.schema.root? Sample.ranked.name = some Sample.books := rfl
  have selects : Sample.ranked.selection = [Sample.descending] := rfl
  have table : Keyed.find? Sample.tables "books" = some _ := rfl
  have authors := Sample.uniform_texts [some "yvonne", none, some "yvonne"]
  have titles := Sample.uniform_texts [some "x", some "x", some "z"]
  obtain ⟨-, directions, sorted, -, -, run⟩ :=
    Planning.run_sorted Sample.schema_built planned root selects table (by
      rw [Sample.descending_orders]
      exact List.forall_mem_cons.2 ⟨authors, List.forall_mem_singleton.2 titles⟩)
  refine ⟨_, sorted, planned, (run (some 2)).2, ?_⟩
  exact (Except.ok.inj (run none).2).symm

end EntityQuery
