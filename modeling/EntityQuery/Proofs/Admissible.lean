/-
EntityQuery/Proofs/Admissible.lean

Which filters compile, and the fault of those that do not.

The fault of a step of planning is the error it ends with, if it does
(`Planner.fault`).  Compiling a leaf may add joins and values to the draft,
but whether it fails, and how, does not depend on what the draft holds
already (`fault_compileLeaf`).  So the fault of a filter is that of its first
leaf that has one, whatever the combinators are (`fault_compile`).

A leaf has no fault exactly if it is admissible (`Predicate.Admissible`): its
path leads over associations to a scalar field that supports the operator,
and the operator takes the operand.  This needs every association to lead to
an entity of the schema, as it does in a schema that was built.
-/
import EntityQuery.Proofs.Built
import EntityQuery.Proofs.Plan

namespace EntityQuery

/-! ### Faults -/

namespace Outcome

variable {ε α β : Type}

/-- The error of a computation that fails. -/
def fault : Except ε α → Option ε
  | .error e => some e
  | .ok _ => none

theorem fault_eq_none {x : Except ε α} : fault x = none ↔ ∃ a, x = .ok a := by
  cases x <;> simp [fault]

theorem fault_eq_some {x : Except ε α} {e : ε} : fault x = some e ↔ x = .error e := by
  cases x <;> simp [fault]

end Outcome

namespace Planner

variable {α β : Type}

/-- The error that the step ends with, from the draft `d`. -/
def fault (x : Planner α) (d : Draft) : Option PlanError := Outcome.fault (x.run d).1

/-- No fault is a run that gives something. -/
theorem fault_eq_none {x : Planner α} {d : Draft} : fault x d = none ↔ ∃ a d', Gives x d a d' := by
  simp only [fault, Outcome.fault_eq_none, Gives]
  constructor
  · rintro ⟨a, h⟩
    exact ⟨a, (x.run d).2, Prod.ext h rfl⟩
  · rintro ⟨a, d', h⟩
    exact ⟨a, congrArg Prod.fst h⟩

@[simp] theorem fault_pure (a : α) (d : Draft) : fault (pure a : Planner α) d = none := rfl

@[simp] theorem fault_throw (e : PlanError) (d : Draft) :
    fault (throw e : Planner α) d = some e := rfl

@[simp] theorem fault_lift (x : Except PlanError α) (d : Draft) :
    fault (liftM x : Planner α) d = Outcome.fault x := rfl

/-- After a first part that gives something, the fault is that of the second.
-/
theorem fault_bind_of_gives {x : Planner α} {f : α → Planner β} {d d' : Draft} {a : α}
    (h : Gives x d a d') : fault (x >>= f) d = fault (f a) d' := by
  have run : x.run d = (.ok a, d') := h
  show Outcome.fault (ExceptT.bindCont f (x.run d).1 (x.run d).2).1 = _
  rw [run]
  rfl

/-- The fault of a first part is that of the whole. -/
theorem fault_bind_of_fault {x : Planner α} {f : α → Planner β} {d : Draft} {e : PlanError}
    (h : fault x d = some e) : fault (x >>= f) d = some e := by
  have error : (x.run d).1 = .error e := Outcome.fault_eq_some.1 h
  show Outcome.fault (ExceptT.bindCont f (x.run d).1 (x.run d).2).1 = _
  rw [error]
  rfl

/-- A step whose fault is known, before one whose fault does not depend on the
draft. -/
theorem fault_bind {x : Planner α} {f : α → Planner β} {d : Draft} {e : Option PlanError}
    (h : ∀ a d', Gives x d a d' → fault (f a) d' = e) :
    fault (x >>= f) d = (fault x d).or e := by
  cases fails : fault x d with
  | none =>
    obtain ⟨a, d', gives⟩ := fault_eq_none.1 fails
    rw [fault_bind_of_gives gives, h a d' gives, Option.none_or]
  | some error => rw [fault_bind_of_fault fails, Option.some_or]

/-- The fault of a computation that is lifted is the fault of what follows it
or its own. -/
theorem fault_lift_bind {x : Except PlanError α} {f : α → Planner β} {d : Draft}
    (h : ∀ a d', fault (f a) d' = none) : fault (liftM x >>= f) d = Outcome.fault x := by
  rw [fault_bind fun a d' _ => h a d', fault_lift, Option.or_none]

@[simp] theorem fault_map (x : Planner α) (f : α → β) (d : Draft) :
    fault (do return f (← x)) d = fault x d := by
  rw [fault_bind fun a d' _ => fault_pure (f a) d', Option.or_none]

/-- Going through a list has the first fault of an element, if the faults of
elements do not depend on the draft. -/
theorem fault_mapM {f : α → Planner β} {faultOf : α → Option PlanError}
    (h : ∀ a d, fault (f a) d = faultOf a) (xs : List α) (d : Draft) :
    fault (xs.mapM f) d = xs.findSome? faultOf := by
  induction xs generalizing d with
  | nil => rfl
  | cons x xs ih =>
    have rest : ∀ (y : β) (d' : Draft),
        fault (do return y :: (← xs.mapM f)) d' = xs.findSome? faultOf := by
      intro y d'
      rw [fault_map, ih]
    rw [List.mapM_cons, fault_bind fun y d' _ => rest y d', h, List.findSome?_cons]
    cases faultOf x <;> rfl

@[simp] theorem fault_bindValue (value : Json) (d : Draft) : fault (bindValue value) d = none := rfl

@[simp] theorem fault_bindValues (values : List Json) (d : Draft) :
    fault (bindValues values) d = none := by
  rw [bindValues, fault_mapM fun value d => fault_bindValue value d, List.findSome?_eq_none_iff]
  exact fun _ _ => rfl

end Planner

/-! ### Faults of comparisons -/

namespace Comparison

open Planner

theorem fault_compareWith (operator : Operator) (b : ScalarBinding) (column : Expr) (value : Json)
    (d : Draft) : fault (compareWith operator b column value) d = none := by
  rw [compareWith, fault_map, fault_bindValue]

theorem fault_membership (b : ScalarBinding) (column : Expr) (values : List Json) (negated : Bool)
    (d : Draft) : fault (membership b column values negated) d = none := by
  rw [membership, fault_map, fault_bindValues]

/-- A value that was coerced is compared without a fault. -/
theorem fault_translate (b : ScalarBinding) (column : Expr) (operator : FilterOperator)
    (value : Json) (d : Draft) : fault (translate b column operator value) d = none := by
  cases operator <;> simp only [translate]
  case eq | ne =>
    split
    · rfl
    · exact fault_compareWith _ _ _ _ _
  case gt | ge | lt | le | like => exact fault_compareWith _ _ _ _ _
  case oneOf | noneOf => exact fault_membership _ _ _ _ _
  case isNull | notNull => rfl
  case locate | contains => rw [fault_map, fault_bindValue]

end Comparison

namespace Predicate

open Planner

variable {schema : QuerySchema} {root : EntityType} {vars : Variables}

/-- The fault of an operand of a supported operator. -/
def operandFault (vars : Variables) (field : String) (b : ScalarBinding)
    (operator : FilterOperator) (operand : Operand) : Option PlanError :=
  if operator.takesFlag then Outcome.fault (flag vars field operator operand)
  else if operator.takesList then Outcome.fault (candidates vars field b operand)
  else Outcome.fault (coerce vars field b operand)

/-- The fault of a comparison is that of its operand, whatever the column and
the draft. -/
theorem fault_comparison (field : String) (column : Expr) (b : ScalarBinding)
    (operator : FilterOperator) (operand : Operand) (d : Draft) :
    fault (comparison vars field column b operator operand) d =
      operandFault vars field b operator operand := by
  simp only [comparison, operandFault]
  split
  · exact fault_lift_bind fun _ _ => rfl
  split
  · exact fault_lift_bind fun _ _ => Comparison.fault_membership _ _ _ _ _
  · exact fault_lift_bind fun _ _ => Comparison.fault_translate _ _ _ _ _

/-! ### Faults of leaves -/

/-- Joining fails or not, whatever the draft holds, and leads to the same
entity. -/
theorem fault_join_bind {α : Type} {parent : EntityType} {a a' : String} {path : List String}
    {field : SchemaField} {f f' : String × EntityType → Planner α}
    (h : ∀ target next next' d d', fault (f (next, target)) d = fault (f' (next', target)) d')
    (d d' : Draft) :
    fault (join schema parent a path field >>= f) d =
      fault (join schema parent a' path field >>= f') d' := by
  simp only [join]
  cases field.descriptor.target?.bind schema.entity? with
  | none => rfl
  | some target => exact h target _ _ _ _

/-- The fault of the rest of a path depends neither on the alias it starts
from nor on the draft. -/
theorem fault_compileFrom {operator : String} {operand : Operand} {entity : EntityType}
    {a a' : String} {before path : List String} (d d' : Draft) :
    fault (compileFrom schema vars operator operand entity a before path) d =
      fault (compileFrom schema vars operator operand entity a' before path) d' := by
  induction path generalizing entity a a' before d d' with
  | nil => rfl
  | cons segment rest ih =>
    unfold compileFrom
    split
    case h_2 => rfl
    dsimp only
    split
    · split
      · rw [fault_comparison, fault_comparison]
      · rfl
    · rfl
    · rfl
    · exact fault_join_bind (fun target next next' d d' => ih d d') d d'

/-- The fault of a leaf, which is found with nothing in the draft. -/
def leafFault (schema : QuerySchema) (root : EntityType) (vars : Variables)
    (leaf : FilterLeaf) : Option PlanError :=
  fault (compileLeaf schema root vars leaf) Draft.empty

/-- The fault of compiling a leaf does not depend on the draft. -/
theorem fault_compileLeaf (leaf : FilterLeaf) (d : Draft) :
    fault (compileLeaf schema root vars leaf) d = leafFault schema root vars leaf := by
  simp only [leafFault, compileLeaf]
  split
  · rfl
  · exact fault_compileFrom _ _

/-! ### Faults of filters -/

mutual

/-- The fault of a filter is the first fault of its leaves. -/
theorem fault_compile (f : Filter) (d : Draft) :
    fault (compile schema root vars f) d = f.leaves.findSome? (leafFault schema root vars) := by
  cases f with
  | leaf condition =>
    rw [compile, fault_compileLeaf]
    exact (List.findSome?_singleton ..).symm
  | and children =>
    rw [compile, fault_map]
    exact fault_compileAll children d
  | or children =>
    rw [compile, fault_map]
    exact fault_compileAll children d
  | not child =>
    rw [compile, fault_map]
    exact fault_compile child d

theorem fault_compileAll (fs : List Filter) (d : Draft) :
    fault (compileAll schema root vars fs) d =
      (Filter.leavesOf fs).findSome? (leafFault schema root vars) := by
  cases fs with
  | nil => rfl
  | cons f fs =>
    have rest : ∀ (e : Expr) (d' : Draft),
        fault (do return e :: (← compileAll schema root vars fs)) d' =
          (Filter.leavesOf fs).findSome? (leafFault schema root vars) := by
      intro e d'
      rw [fault_map, fault_compileAll fs d']
    rw [compileAll, fault_bind fun e d' _ => rest e d', fault_compile f d, Filter.leavesOf,
      List.findSome?_append]

end

end Predicate

/-! ### Operands that are taken -/

namespace Operand

variable {vars : Variables} {b : ScalarBinding}

mutual

/-- The variables that occur in the operand. -/
def names : Operand → List String
  | .variable name => [name]
  | .constant _ => []
  | .list items => namesOf items
  | .object entries => namesIn entries

/-- The variables that occur in operands. -/
def namesOf : List Operand → List String
  | [] => []
  | o :: os => names o ++ namesOf os

/-- The variables that occur in the operands of entries. -/
def namesIn : List (String × Operand) → List String
  | [] => []
  | (_, o) :: es => names o ++ namesIn es

end

/-- Every variable in the operand has a value. -/
def Bound (vars : Variables) (o : Operand) : Prop :=
  ∀ name ∈ o.names, (Keyed.find? vars name).isSome

mutual

/-- An operand has a value exactly if its variables have. -/
theorem resolve_iff_bound (o : Operand) : (∃ j, o.resolve vars = .ok j) ↔ o.Bound vars := by
  cases o with
  | «variable» name =>
    simp only [resolve, variableValue, Bound, names, List.forall_mem_singleton]
    cases Keyed.find? vars name <;> simp
  | constant value => exact ⟨fun _ => List.forall_mem_nil _, fun _ => ⟨value, rfl⟩⟩
  | list items =>
    refine Iff.trans ?_ (resolveItems_iff_bound items)
    constructor
    · rintro ⟨j, h⟩
      obtain ⟨js, values, -⟩ := Outcome.bind_eq_ok.1 h
      exact ⟨js, values⟩
    · rintro ⟨js, values⟩
      exact ⟨.array js, Outcome.bind_eq_ok.2 ⟨js, values, rfl⟩⟩
  | object entries =>
    refine Iff.trans ?_ (resolveEntries_iff_bound entries)
    constructor
    · rintro ⟨j, h⟩
      obtain ⟨members, values, -⟩ := Outcome.bind_eq_ok.1 h
      exact ⟨members, values⟩
    · rintro ⟨members, values⟩
      exact ⟨.object (Keyed.ofPairs members), Outcome.bind_eq_ok.2 ⟨members, values, rfl⟩⟩

/-- Operands can be resolved exactly if all their variables are bound. -/
theorem resolveItems_iff_bound (os : List Operand) :
    (∃ js, resolveItems vars os = .ok js) ↔
      ∀ name ∈ namesOf os, (Keyed.find? vars name).isSome := by
  cases os with
  | nil => exact ⟨fun _ => List.forall_mem_nil _, fun _ => ⟨[], rfl⟩⟩
  | cons o os =>
    rw [namesOf, List.forall_mem_append]
    refine Iff.trans ?_ (and_congr (resolve_iff_bound o) (resolveItems_iff_bound os))
    constructor
    · rintro ⟨js, h⟩
      obtain ⟨j, first, h⟩ := Outcome.bind_eq_ok.1 h
      obtain ⟨js, rest, -⟩ := Outcome.bind_eq_ok.1 h
      exact ⟨⟨j, first⟩, ⟨js, rest⟩⟩
    · rintro ⟨⟨j, first⟩, ⟨js, rest⟩⟩
      exact ⟨j :: js, Outcome.bind_eq_ok.2 ⟨j, first, Outcome.bind_eq_ok.2 ⟨js, rest, rfl⟩⟩⟩

theorem resolveEntries_iff_bound (es : List (String × Operand)) :
    (∃ members, resolveEntries vars es = .ok members) ↔
      ∀ name ∈ namesIn es, (Keyed.find? vars name).isSome := by
  cases es with
  | nil => exact ⟨fun _ => List.forall_mem_nil _, fun _ => ⟨[], rfl⟩⟩
  | cons e es =>
    obtain ⟨key, o⟩ := e
    rw [namesIn, List.forall_mem_append]
    refine Iff.trans ?_ (and_congr (resolve_iff_bound o) (resolveEntries_iff_bound es))
    constructor
    · rintro ⟨members, h⟩
      obtain ⟨j, first, h⟩ := Outcome.bind_eq_ok.1 h
      obtain ⟨members, rest, -⟩ := Outcome.bind_eq_ok.1 h
      exact ⟨⟨j, first⟩, ⟨members, rest⟩⟩
    · rintro ⟨⟨j, first⟩, ⟨members, rest⟩⟩
      exact ⟨(key, j) :: members,
        Outcome.bind_eq_ok.2 ⟨j, first, Outcome.bind_eq_ok.2 ⟨members, rest, rfl⟩⟩⟩

end

theorem bound_list {os : List Operand} : (list os).Bound vars ↔ ∀ o ∈ os, o.Bound vars := by
  show (∀ name ∈ namesOf os, _) ↔ _
  induction os with
  | nil => exact iff_of_true (List.forall_mem_nil _) (List.forall_mem_nil _)
  | cons o os ih => rw [namesOf, List.forall_mem_append, List.forall_mem_cons, ih]; rfl

/-- The coercion of the scalar takes the value of the operand: strictly if it
is a literal, leniently if a variable occurs in it. -/
def Coerces (vars : Variables) (b : ScalarBinding) (o : Operand) : Prop :=
  ∃ j v, o.resolve vars = .ok j ∧
    (if o.hasVariables then b.coercion.input j else b.coercion.literal j) = .ok v

/-- What is coerced was resolved before. -/
theorem Coerces.bound {o : Operand} (h : o.Coerces vars b) : o.Bound vars := by
  obtain ⟨j, -, value, -⟩ := h
  exact (resolve_iff_bound o).1 ⟨j, value⟩

/-- The candidates that the operand names: the items of a list, which may be
the value of a variable, or else the operand alone. -/
def elements (vars : Variables) : Operand → List Operand
  | .list items => items
  | .variable name =>
    match Keyed.find? vars name with
    | some (.array items) => ofItems items
    | _ => [.variable name]
  | o => [o]

/-- The elements of an operand are its items if it is a list, and otherwise
itself. -/
theorem items?_eq_elements {o : Operand} (bound : o.Bound vars) :
    ∃ items, o.items? vars = .ok items ∧ items.getD [o] = o.elements vars := by
  cases o with
  | constant value => exact ⟨none, rfl, rfl⟩
  | object entries => exact ⟨none, rfl, rfl⟩
  | list items => exact ⟨some items, rfl, rfl⟩
  | «variable» name =>
    obtain ⟨j, found⟩ := Option.isSome_iff_exists.1 (bound name List.mem_cons_self)
    simp only [items?, variableValue, elements, found]
    cases j <;> exact ⟨_, rfl, rfl⟩

/-- Candidates that coerce have values for their variables. -/
theorem bound_of_items {o : Operand} {found : Option (List Operand)}
    (items : o.items? vars = .ok found) (h : ∀ item ∈ found.getD [o], item.Coerces vars b) :
    o.Bound vars := by
  cases o with
  | constant value => exact List.forall_mem_nil _
  | object entries =>
    cases items
    exact (h _ List.mem_cons_self).bound
  | list items' =>
    cases items
    exact bound_list.2 fun item hi => (h item hi).bound
  | «variable» name =>
    obtain ⟨j, value, -⟩ := Outcome.bind_eq_ok.1 items
    exact (resolve_iff_bound (.variable name)).1 ⟨j, value⟩

end Operand

namespace Predicate

open Planner

variable {schema : QuerySchema} {root : EntityType} {vars : Variables} {b : ScalarBinding}

/-- The operator takes the operand: a switch is a truth value, the candidates
of a membership test coerce each, and any other operand coerces. -/
def Accepts (vars : Variables) (b : ScalarBinding) (operator : FilterOperator) (o : Operand) :
    Prop :=
  if operator.takesFlag then ∃ p, o.resolve vars = .ok (.bool p)
  else if operator.takesList then ∀ item ∈ o.elements vars, item.Coerces vars b
  else o.Coerces vars b

/-- Coercing has a result exactly if the operand coerces. -/
theorem coerce_iff_coerces {field : String} {o : Operand} :
    (∃ v, coerce vars field b o = .ok v) ↔ o.Coerces vars b := by
  simp only [coerce, Operand.Coerces]
  constructor
  · rintro ⟨v, h⟩
    obtain ⟨j, value, h⟩ := Outcome.bind_eq_ok.1 h
    exact ⟨j, v, value, Outcome.mapError_eq_ok.1 h⟩
  · rintro ⟨j, v, value, h⟩
    exact ⟨v, Outcome.bind_eq_ok.2 ⟨j, value, Outcome.mapError_eq_ok.2 h⟩⟩

/-- Null is taken in as null by every scalar. -/
theorem coerce_of_null {field : String} {o : Operand} (resolved : o.resolve vars = .ok .null) :
    coerce vars field b o = .ok .null := by
  rw [coerce, resolved, Outcome.ok_bind]
  cases b.coercion <;> cases o.hasVariables <;> rfl

theorem flag_iff {field : String} {operator : FilterOperator} {o : Operand} :
    (∃ p, flag vars field operator o = .ok p) ↔ ∃ p, o.resolve vars = .ok (.bool p) := by
  constructor
  · rintro ⟨p, h⟩
    obtain ⟨j, value, h⟩ := Outcome.bind_eq_ok.1 h
    cases j <;> cases h
    exact ⟨p, value⟩
  · rintro ⟨p, value⟩
    exact ⟨p, Outcome.bind_eq_ok.2 ⟨_, value, rfl⟩⟩

/-- There are candidates exactly if every element of the operand coerces. -/
theorem candidates_iff {field : String} {o : Operand} :
    (∃ vs, candidates vars field b o = .ok vs) ↔
      o.Bound vars ∧ ∀ item ∈ o.elements vars, item.Coerces vars b := by
  -- Both directions rest on the items that the operand has once its variables are bound.
  have each : ∀ items : List Operand, (∃ vs, items.mapM (coerce vars field b) = .ok vs) ↔
      ∀ item ∈ items, item.Coerces vars b := by
    intro items
    rw [Outcome.mapM_iff]
    exact forall₂_congr fun item _ => coerce_iff_coerces
  constructor
  · rintro ⟨vs, h⟩
    obtain ⟨found, items, h⟩ := Outcome.bind_eq_ok.1 h
    have coerced := (each _).1 ⟨vs, h⟩
    have bound := Operand.bound_of_items items coerced
    obtain ⟨found', items', same⟩ := Operand.items?_eq_elements bound
    obtain rfl := Except.ok.inj (items.symm.trans items')
    exact ⟨bound, same ▸ coerced⟩
  · rintro ⟨bound, h⟩
    obtain ⟨found, items, same⟩ := Operand.items?_eq_elements bound
    rw [← same] at h
    obtain ⟨vs, all⟩ := (each _).2 h
    exact ⟨vs, Outcome.bind_eq_ok.2 ⟨found, items, all⟩⟩

/-- An operand has no fault exactly if its variables are bound and the operator
accepts it. -/
theorem operandFault_eq_none {field : String} {operator : FilterOperator} {o : Operand} :
    operandFault vars field b operator o = none ↔ o.Bound vars ∧ Accepts vars b operator o := by
  simp only [operandFault, Accepts]
  split
  · rw [Outcome.fault_eq_none, flag_iff]
    exact ⟨fun ⟨p, value⟩ => ⟨(Operand.resolve_iff_bound o).1 ⟨_, value⟩, p, value⟩, fun h => h.2⟩
  split
  · rw [Outcome.fault_eq_none, candidates_iff]
  · rw [Outcome.fault_eq_none, coerce_iff_coerces]
    exact ⟨fun h => ⟨h.bound, h⟩, fun h => h.2⟩

/-! ### Admissible leaves -/

/-- The leaf can be compiled: its path leads over associations to a scalar
field, the scalar supports the operator, and the operator takes the operand,
whose variables all have values. -/
inductive Admissible (schema : QuerySchema) (root : EntityType) (vars : Variables) :
    FilterLeaf → Prop
  | mk {between : List String} {name operator : String} {operand : Operand} {last : EntityType}
      {field : SchemaField} {b : ScalarBinding} {op : FilterOperator}
      (reached : schema.entityAt root between = some last)
      (found : last.field? name = some field) (scalar : field.binding = some b)
      (known : FilterOperator.ofToken? operator = some op) (supported : b.supports op = true)
      (bound : operand.Bound vars) (accepted : Accepts vars b op operand) :
      Admissible schema root vars ⟨between ++ [name], operator, operand⟩

/-- An association that leads to an entity is joined, whatever the draft
holds. -/
theorem gives_join_of_target {target : EntityType} {field : SchemaField}
    (leads : field.descriptor.target?.bind schema.entity? = some target) (parent : EntityType)
    (tableAlias : String) (path : List String) (d : Draft) :
    ∃ next d', Gives (join schema parent tableAlias path field) d (next, target) d' := by
  let added := d.joins.add path field.descriptor tableAlias parent.idColumn
    target.descriptor.qualifiedTable target.idColumn
  exact ⟨added.1, { d with joins := added.2 }, gives_join.2 ⟨target, added.2, leads, rfl, rfl, rfl⟩⟩

/-- The fault of an operator on a scalar field: if it is supported, that of its
operand. -/
def operatorFault (vars : Variables) (field : String) (b : ScalarBinding) (operator : String)
    (operand : Operand) : Option PlanError :=
  match (FilterOperator.ofToken? operator).filter b.supports with
  | some op => operandFault vars field b op operand
  | none => some (.unsupportedOperator field operator b.name)

/-- A path that leads to a scalar field leaves only the operator and its operand
to be at fault. -/
theorem fault_compileFrom_reached {operator : String} {operand : Operand}
    {last : EntityType} {name : String} {field : SchemaField}
    (found : last.field? name = some field) (scalar : field.binding = some b)
    {between : List String} {entity : EntityType}
    (reached : schema.entityAt entity between = some last) (tableAlias : String)
    (before : List String) (d : Draft) :
    ∃ context, fault (compileFrom schema vars operator operand entity tableAlias before
      (between ++ [name])) d = operatorFault vars context b operator operand := by
  induction between generalizing entity tableAlias before d with
  | nil =>
    cases reached
    refine ⟨".".intercalate (before ++ [name]), ?_⟩
    rw [List.nil_append]
    unfold compileFrom operatorFault
    simp only [found, scalar]
    cases (FilterOperator.ofToken? operator).filter b.supports with
    | none => rfl
    | some op => exact fault_comparison _ _ _ _ _ _
  | cons segment rest ih =>
    simp only [QuerySchema.entityAt, List.foldlM_cons] at reached
    obtain ⟨next, follow, further⟩ := Option.bind_eq_some_iff.1 reached
    obtain ⟨A, association, rfl⟩ := Option.map_eq_some_iff.1 follow
    obtain ⟨leads, inside, target, rfl⟩ := (schema.association?_eq_some).1 association
    obtain ⟨nextAlias, d₁, joined⟩ := gives_join_of_target target A.source tableAlias
      (before ++ [segment]) d
    obtain ⟨context, fails⟩ := ih further nextAlias (before ++ [segment]) d₁
    refine ⟨context, ?_⟩
    -- The path goes on after the association.
    obtain ⟨word, words, path⟩ := List.exists_cons_of_ne_nil (List.append_ne_nil_of_right_ne_nil
      rest (List.cons_ne_nil name []))
    rw [path] at fails
    rw [List.cons_append, path]
    unfold compileFrom
    simp only [leads, inside]
    rw [fault_bind_of_gives joined]
    exact fails

/-- So much holds of the leaf as well, from any draft. -/
theorem fault_compileLeaf_reached {operator : String} {operand : Operand}
    {last : EntityType} {name : String} {field : SchemaField}
    (found : last.field? name = some field) (scalar : field.binding = some b)
    {between : List String} (reached : schema.entityAt root between = some last) (d : Draft) :
    ∃ context, fault (compileLeaf schema root vars ⟨between ++ [name], operator, operand⟩) d =
      operatorFault vars context b operator operand := by
  have path : ¬(between ++ [name]).isEmpty = true := by simp
  rw [compileLeaf, if_neg path]
  exact fault_compileFrom_reached found scalar reached rootAlias [] d

/-- A leaf has no fault exactly if it is admissible. -/
theorem leafFault_eq_none {leaf : FilterLeaf} :
    leafFault schema root vars leaf = none ↔ Admissible schema root vars leaf := by
  constructor
  · intro h
    obtain ⟨e, d', compiled⟩ := fault_eq_none.1 h
    obtain ⟨path, operator, operand⟩ := leaf
    obtain ⟨between, name, last, field, b, op, a, d₁, rfl, reached, found, scalar, supported, -, -,
      -, compared⟩ := compileLeaf_cases compiled
    -- The path was walked, so that only the operand is left to be at fault.
    have taken := fault_eq_none.2 ⟨e, d', compared⟩
    rw [fault_comparison] at taken
    obtain ⟨bound, accepted⟩ := operandFault_eq_none.1 taken
    obtain ⟨known, supported⟩ := Option.filter_eq_some_iff.1 supported
    exact .mk reached found scalar known supported bound accepted
  · rintro ⟨reached, found, scalar, known, supported, bound, accepted⟩
    have supported := Option.filter_eq_some_iff.2 ⟨known, supported⟩
    obtain ⟨context, fails⟩ := fault_compileLeaf_reached found scalar reached Draft.empty
    rw [leafFault, fails, operatorFault, supported]
    exact operandFault_eq_none.2 ⟨bound, accepted⟩

/-- **A filter compiles exactly if each of its leaves is admissible.**
Otherwise it fails with the error that its first inadmissible leaf has alone,
with nothing joined and bound before.  An association of an entity on the way
is always joined, so that step never is the one that fails. -/
theorem compile_iff_admissible {name : String} {descriptors : List EntityDescriptor}
    {registry : ScalarRegistry}
    (built : QuerySchema.build name descriptors registry = .ok schema)
    (hr : root ∈ schema.entities) (vars : Variables) (f : Filter) (d : Draft) :
    ((∃ e d', Gives (compile schema root vars f) d e d') ↔
      ∀ leaf ∈ f.leaves, Admissible schema root vars leaf) ∧
    (∀ before leaf after, f.leaves = before ++ leaf :: after →
      (∀ earlier ∈ before, Admissible schema root vars earlier) →
      ¬ Admissible schema root vars leaf →
      ∃ e, ((compile schema root vars f).run d).1 = .error e ∧
        ((compile schema root vars (.leaf leaf)).run Draft.empty).1 = .error e) ∧
    ∀ path entity, schema.entityAt root path = some entity →
      ∀ field ∈ entity.fields, field.binding = none →
        ∀ tableAlias path' d, ∃ next target d',
          Gives (join schema entity tableAlias path' field) d (next, target) d' := by
  refine ⟨?_, ?_, ?_⟩
  · rw [← fault_eq_none, fault_compile, List.findSome?_eq_none_iff]
    exact forall₂_congr fun leaf _ => leafFault_eq_none
  · intro before leaf after leaves earlier inadmissible
    obtain ⟨e, fails⟩ := Option.ne_none_iff_exists'.1 (mt leafFault_eq_none.1 inadmissible)
    -- The leaves before are no obstacle, so that the search for a fault stops here.
    have first : f.leaves.findSome? (leafFault schema root vars) = some e := by
      have none := List.findSome?_eq_none_iff.2 fun l hl => leafFault_eq_none.2 (earlier l hl)
      rw [leaves, List.findSome?_append, none, List.findSome?_cons, fails]
      rfl
    rw [← fault_compile f d] at first
    exact ⟨e, Outcome.fault_eq_some.1 first, Outcome.fault_eq_some.1 fails⟩
  · intro path entity reached field hf scalar tableAlias path' d
    have he := QuerySchema.mem_of_entityAt hr reached
    obtain ⟨target, leads⟩ := QuerySchema.leads_of_build built entity he field hf scalar
    obtain ⟨next, d', joined⟩ := gives_join_of_target leads entity tableAlias path' d
    exact ⟨next, target, d', joined⟩

end Predicate

/-! ### The small library -/

namespace Sample

/-- The title of the author, who has none. -/
def authorTitled : FilterLeaf := ⟨["author", "title"], "EQ", .constant (.string "x")⟩

end Sample

open Predicate Planner in
/-- In the library, a disjunction with a negation compiles, and the same with
a field that authors do not have fails as that field does alone. -/
theorem compile_iff_admissible_library :
    (∃ e d', Gives (compile Sample.schema Sample.books [] (.or [Sample.titled,
      .not Sample.byAuthor])) Draft.empty e d') ∧
    ((compile Sample.schema Sample.books [] (.or [Sample.titled,
        .not (.leaf Sample.authorTitled)])).run Draft.empty).1 =
      .error (.unknownField "Author" "title") := by
  have hr : Sample.books ∈ Sample.schema.entities := List.mem_cons_of_mem _ List.mem_cons_self
  have titled : Admissible Sample.schema Sample.books []
      ⟨[] ++ ["title"], "EQ", .constant (.string "x")⟩ :=
    .mk rfl rfl rfl rfl rfl (List.forall_mem_nil _)
      (show Operand.Coerces [] _ _ from ⟨_, _, rfl, rfl⟩)
  have byAuthor : Admissible Sample.schema Sample.books []
      ⟨["author"] ++ ["name"], "LIKE", .constant (.string "y%")⟩ :=
    .mk rfl rfl rfl rfl rfl (List.forall_mem_nil _)
      (show Operand.Coerces [] _ _ from ⟨_, _, rfl, rfl⟩)
  constructor
  · refine (compile_iff_admissible Sample.schema_built hr [] _ Draft.empty).1.2 ?_
    exact List.forall_mem_cons.2 ⟨titled, List.forall_mem_singleton.2 byAuthor⟩
  · have inadmissible : ¬ Admissible Sample.schema Sample.books [] Sample.authorTitled := by
      intro h
      cases leafFault_eq_none.2 h
    obtain ⟨e, fails, alone⟩ := (compile_iff_admissible Sample.schema_built hr []
      (.or [Sample.titled, .not (.leaf Sample.authorTitled)]) Draft.empty).2.1 [_] _ [] rfl
      (List.forall_mem_singleton.2 titled) inadmissible
    rw [fails]
    exact alone.symm.trans rfl

end EntityQuery
