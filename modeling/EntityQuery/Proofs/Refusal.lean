/-
EntityQuery/Proofs/Refusal.lean

The errors of planning a root field.

A root field is planned from the schema and the variables alone, so no error
of it compares the root with another one: two roots that ask to be answered
under one name are noticed where roots are executed one after another, and
nowhere else (`Planning.refuses_planRootField`).  And a variable that is said
to be unbound is one that has no value.

`Outcome.Refuses P x` says that a computation fails only with errors of which
`P` holds; `Planner.Refuses` is the same for a step of planning, from every
draft.  Both pass through a sequence of steps, so each function below is gone
through once, with the errors it throws itself at the ends.
-/
import EntityQuery.Proofs.Admissible

namespace EntityQuery

/-- An error of one root alone: not that of a name used by several roots, and
that of an unbound variable only for one without a value. -/
def PlanError.Single (vars : Variables) : PlanError → Prop
  | .duplicateResponseKey _ => False
  | .unboundVariable name => Keyed.find? vars name = none
  | _ => True

/-- An error of a value: a variable in it has none, or it does not fit. -/
def PlanError.OfValue (vars : Variables) : PlanError → Prop
  | .unboundVariable name => Keyed.find? vars name = none
  | .invalidValue _ _ => True
  | _ => False

theorem PlanError.OfValue.single {vars : Variables} {e : PlanError} (h : e.OfValue vars) :
    e.Single vars := by
  cases e with
  | duplicateResponseKey key => exact h
  | unboundVariable name => exact h
  | _ => trivial

/-! ### Computations and steps that fail with certain errors only -/

namespace Outcome

variable {ε ε' α β : Type} {P : ε → Prop}

/-- If the computation fails, `P` holds of its error. -/
def Refuses (P : ε → Prop) (x : Except ε α) : Prop := ∀ e, x = .error e → P e

theorem Refuses.ok (a : α) : Refuses P (.ok a : Except ε α) := by
  intro e h
  cases h

theorem Refuses.error {e : ε} (h : P e) : Refuses P (.error e : Except ε α) := by
  intro e' same
  cases same
  exact h

theorem Refuses.mono {Q : ε → Prop} {x : Except ε α} (h : Refuses P x) (weaker : ∀ e, P e → Q e) :
    Refuses Q x :=
  fun e fails => weaker e (h e fails)

theorem Refuses.bind {x : Except ε α} {f : α → Except ε β} (hx : Refuses P x)
    (hf : ∀ a, Refuses P (f a)) : Refuses P (x >>= f) := by
  intro e h
  cases x with
  | error first =>
    cases h
    exact hx e rfl
  | ok a => exact hf a e h

/-- A check before the computation. -/
theorem Refuses.guarded {c : Prop} [Decidable c] {e : ε} {x : Except ε α} (h : P e)
    (hx : Refuses P x) : Refuses P (if c then (do throw e; x) else x) := by
  split
  · exact Refuses.error h
  · exact hx

theorem Refuses.mapError {f : ε' → ε} (h : ∀ e, P (f e)) (x : Except ε' α) :
    Refuses P (x.mapError f) := by
  cases x with
  | error e => exact Refuses.error (h e)
  | ok a => exact Refuses.ok a

theorem Refuses.mapM {f : α → Except ε β} (h : ∀ a, Refuses P (f a)) (xs : List α) :
    Refuses P (xs.mapM f) := by
  induction xs with
  | nil => exact Refuses.ok _
  | cons x xs ih =>
    rw [List.mapM_cons]
    exact Refuses.bind (h x) fun _ => Refuses.bind ih fun _ => Refuses.ok _

end Outcome

namespace Planner

variable {α β : Type} {P : PlanError → Prop}

/-- If the step fails, from whatever draft, `P` holds of its error. -/
def Refuses (P : PlanError → Prop) (x : Planner α) : Prop := ∀ d e, fault x d = some e → P e

theorem Refuses.pure (a : α) : Refuses P (pure a : Planner α) := by
  intro d e h
  cases h

theorem Refuses.throw {e : PlanError} (h : P e) : Refuses P (throw e : Planner α) := by
  intro d e' same
  cases same
  exact h

theorem Refuses.lift {x : Except PlanError α} (h : Outcome.Refuses P x) :
    Refuses P (liftM x : Planner α) := by
  intro d e fails
  exact h e (Outcome.fault_eq_some.1 fails)

theorem Refuses.bind {x : Planner α} {f : α → Planner β} (hx : Refuses P x)
    (hf : ∀ a, Refuses P (f a)) : Refuses P (x >>= f) := by
  intro d e h
  cases fails : fault x d with
  | none =>
    obtain ⟨a, d', gives⟩ := fault_eq_none.1 fails
    rw [fault_bind_of_gives gives] at h
    exact hf a d' e h
  | some first =>
    rw [fault_bind_of_fault fails] at h
    exact hx d e (fails.trans h)

/-- A check before the step. -/
theorem Refuses.guarded {c : Prop} [Decidable c] {e : PlanError} {x : Planner α} (h : P e)
    (hx : Refuses P x) : Refuses P (if c then (do MonadExcept.throw e; x) else x) := by
  split
  · exact Refuses.bind (Refuses.throw h) fun _ => hx
  · exact hx

/-- A change of the draft does not fail. -/
theorem Refuses.modifyGet (f : Draft → α × Draft) : Refuses P (modifyGet f : Planner α) := by
  intro d e h
  cases h

end Planner

/-! ### Values and criteria -/

namespace Operand

open Outcome

variable {vars : Variables}

theorem refuses_variableValue (name : String) :
    Refuses (PlanError.OfValue vars) (variableValue vars name) := by
  unfold variableValue
  split
  · exact Refuses.ok _
  · next absent => exact Refuses.error absent

mutual

/-- An operand is refused for its value alone. -/
theorem refuses_resolve (o : Operand) : Refuses (PlanError.OfValue vars) (resolve vars o) := by
  cases o with
  | «variable» name => exact refuses_variableValue name
  | constant value => exact Refuses.ok _
  | list items => exact Refuses.bind (refuses_resolveItems items) fun _ => Refuses.ok _
  | object entries => exact Refuses.bind (refuses_resolveEntries entries) fun _ => Refuses.ok _

theorem refuses_resolveItems (os : List Operand) :
    Refuses (PlanError.OfValue vars) (resolveItems vars os) := by
  cases os with
  | nil => exact Refuses.ok _
  | cons o os =>
    refine Refuses.bind (refuses_resolve o) fun _ => ?_
    exact Refuses.bind (refuses_resolveItems os) fun _ => Refuses.ok _

theorem refuses_resolveEntries (es : List (String × Operand)) :
    Refuses (PlanError.OfValue vars) (resolveEntries vars es) := by
  match es with
  | [] => exact Refuses.ok _
  | (_, o) :: es =>
    refine Refuses.bind (refuses_resolve o) fun _ => ?_
    exact Refuses.bind (refuses_resolveEntries es) fun _ => Refuses.ok _

end

theorem refuses_entries (context : String) (o : Operand) :
    Refuses (PlanError.OfValue vars) (entries vars context o) := by
  unfold entries
  split
  · exact Refuses.ok _
  · refine Refuses.bind (refuses_variableValue _) fun _ => ?_
    split
    · exact Refuses.ok _
    · exact Refuses.error trivial
  · exact Refuses.error trivial

theorem refuses_items? (o : Operand) : Refuses (PlanError.OfValue vars) (items? vars o) := by
  unfold items?
  split
  · exact Refuses.ok _
  · refine Refuses.bind (refuses_variableValue _) fun _ => ?_
    split
    · exact Refuses.ok _
    · exact Refuses.ok _
  · exact Refuses.ok _

end Operand

namespace Criteria

open Outcome Operand

variable {vars : Variables}

theorem refuses_groupOperands (path : List String) (combinator : String) (value : Operand) :
    Refuses (PlanError.OfValue vars) (groupOperands vars path combinator value) := by
  have checked : ∀ operands : List Operand, Refuses (PlanError.OfValue vars)
      (if operands.isEmpty = true then do
        throw (.invalidValue (context path) (combinator ++ " requires at least one operand"))
        return operands
      else return operands) := fun operands =>
    Refuses.guarded trivial (Refuses.ok operands)
  unfold groupOperands
  refine Refuses.bind (refuses_items? value) fun items => ?_
  cases items with
  | none =>
    refine Refuses.bind (refuses_entries _ value) fun entries => ?_
    exact Refuses.bind (Refuses.ok _) checked
  | some items => exact Refuses.bind (Refuses.ok items) checked

/-- An entry is refused for its value if what is below it is. -/
theorem refuses_readEntry {inner : List String → Operand → Except PlanError Filter}
    (below : ∀ path o, Refuses (PlanError.OfValue vars) (inner path o)) (path : List String)
    (key : String) (value : Operand) :
    Refuses (PlanError.OfValue vars) (readEntry vars inner path key value) := by
  -- A combinator, an object of operators, or criteria of the entity below; only
  -- what is in them is refused.
  unfold readEntry
  split
  · exact Refuses.bind (refuses_groupOperands path key value) fun os =>
      Refuses.bind (Refuses.mapM (below path) os) fun _ => Refuses.ok _
  split
  · exact Refuses.bind (refuses_groupOperands path key value) fun os =>
      Refuses.bind (Refuses.mapM (below path) os) fun _ => Refuses.ok _
  split
  · exact Refuses.bind (below path value) fun _ => Refuses.ok _
  refine Refuses.bind (refuses_entries _ value) fun entries => ?_
  split
  · exact Refuses.ok _
  · exact Refuses.bind (below _ _) fun _ => Refuses.ok _

/-- Criteria are refused for their values, within any depth. -/
theorem refuses_readWithin (room : Nat) (path : List String) (value : Operand) :
    Refuses (PlanError.OfValue vars) (readWithin vars room path value) := by
  induction room generalizing path value with
  | zero => exact Refuses.error trivial
  | succ room ih =>
    refine Refuses.bind (refuses_entries _ value) fun entries => ?_
    refine Refuses.guarded trivial ?_
    refine Refuses.bind (Refuses.mapM (fun entry => ?_) entries) fun _ => Refuses.ok _
    exact refuses_readEntry ih path entry.1 entry.2

theorem refuses_read (argument : Document.Value) :
    Refuses (PlanError.OfValue vars) (read vars argument) := by
  refine Refuses.bind (refuses_entries _ _) fun entries => ?_
  split
  · exact Refuses.ok _
  · exact Refuses.bind (refuses_readWithin _ _ _) fun _ => Refuses.ok _

end Criteria

/-! ### Conditions -/

namespace Predicate

open Planner

variable {schema : QuerySchema} {root : EntityType} {vars : Variables}

theorem refuses_coerce (field : String) (b : ScalarBinding) (operand : Operand) :
    Outcome.Refuses (PlanError.OfValue vars) (coerce vars field b operand) :=
  Outcome.Refuses.bind (Operand.refuses_resolve operand) fun _ =>
    Outcome.Refuses.mapError (fun _ => trivial) _

theorem refuses_flag (field : String) (operator : FilterOperator) (operand : Operand) :
    Outcome.Refuses (PlanError.OfValue vars) (flag vars field operator operand) := by
  refine Outcome.Refuses.bind (Operand.refuses_resolve operand) fun _ => ?_
  split
  · exact Outcome.Refuses.ok _
  · exact Outcome.Refuses.error trivial

theorem refuses_candidates (field : String) (b : ScalarBinding) (operand : Operand) :
    Outcome.Refuses (PlanError.OfValue vars) (candidates vars field b operand) := by
  refine Outcome.Refuses.bind (Operand.refuses_items? operand) fun _ => ?_
  exact Outcome.Refuses.mapM (fun o => refuses_coerce field b o) _

/-- The fault of an operand is one of its value. -/
theorem ofValue_operandFault {field : String} {b : ScalarBinding} {operator : FilterOperator}
    {operand : Operand} {e : PlanError} (h : operandFault vars field b operator operand = some e) :
    e.OfValue vars := by
  unfold operandFault at h
  split at h
  · exact refuses_flag field operator operand e (Outcome.fault_eq_some.1 h)
  split at h
  · exact refuses_candidates field b operand e (Outcome.fault_eq_some.1 h)
  · exact refuses_coerce field b operand e (Outcome.fault_eq_some.1 h)

/-- The error of a comparison is that of its operand. -/
theorem refuses_comparison (field : String) (column : Expr) (b : ScalarBinding)
    (operator : FilterOperator) (operand : Operand) :
    Refuses (PlanError.Single vars) (comparison vars field column b operator operand) := by
  intro d e h
  rw [fault_comparison] at h
  exact (ofValue_operandFault h).single

/-- A join is refused with one error of its own. -/
theorem refuses_join (parent : EntityType) (tableAlias : String) (path : List String)
    (field : SchemaField) :
    Refuses (PlanError.Single vars) (join schema parent tableAlias path field) := by
  unfold join
  split
  · exact Refuses.throw trivial
  · exact Refuses.modifyGet _

theorem single_pastScalar (entity : EntityType) (b : ScalarBinding) (fieldPath segment : String)
    (rest : List String) : (pastScalar entity b fieldPath segment rest).Single vars := by
  unfold pastScalar
  split
  · split <;> trivial
  · trivial

theorem refuses_compileFrom (operator : String) (operand : Operand) (entity : EntityType)
    (tableAlias : String) (before path : List String) :
    Refuses (PlanError.Single vars)
      (compileFrom schema vars operator operand entity tableAlias before path) := by
  -- Along the path, one entity after the other.
  induction path generalizing entity tableAlias before with
  | nil => exact Refuses.throw trivial
  | cons segment rest ih =>
    unfold compileFrom
    split
    case h_2 => exact Refuses.throw trivial
    dsimp only
    split
    · split
      · exact refuses_comparison _ _ _ _ _
      · exact Refuses.throw trivial
    · exact Refuses.throw (single_pastScalar _ _ _ _ _)
    · exact Refuses.throw trivial
    · exact Refuses.bind (refuses_join _ _ _ _) fun _ => ih _ _ _

theorem refuses_compileLeaf (leaf : FilterLeaf) :
    Refuses (PlanError.Single vars) (compileLeaf schema root vars leaf) := by
  unfold compileLeaf
  split
  · exact Refuses.throw trivial
  · exact refuses_compileFrom _ _ _ _ _ _

/-- The error of a filter is that of one of its leaves. -/
theorem refuses_compile (f : Filter) :
    Refuses (PlanError.Single vars) (compile schema root vars f) := by
  intro d e h
  rw [fault_compile] at h
  obtain ⟨leaf, -, fails⟩ := List.exists_of_findSome?_eq_some h
  exact refuses_compileLeaf leaf _ e fails

end Predicate

/-! ### Selections -/

namespace Selection

open Planner

variable {schema : QuerySchema} {vars : Variables}

theorem refuses_direction (field : String) (value : Document.Value) :
    Outcome.Refuses (PlanError.Single vars) (direction vars field value) := by
  -- A direction is a word, also behind a variable.
  have ofWord : ∀ word, Outcome.Refuses (PlanError.Single vars) (directionOf field word) := by
    intro word
    unfold directionOf
    split
    · exact Outcome.Refuses.ok _
    · exact Outcome.Refuses.ok _
    · exact Outcome.Refuses.error trivial
  unfold direction
  split
  · exact ofWord _
  · exact ofWord _
  · split
    · exact ofWord _
    · exact ofWord _
    · next absent => exact Outcome.Refuses.error absent
  · exact ofWord _

theorem refuses_orderArguments (field : String) (column : Expr)
    (arguments : List (String × Document.Value)) :
    Refuses (PlanError.Single vars) (orderArguments vars field column arguments) := by
  induction arguments with
  | nil => exact Refuses.pure _
  | cons argument rest ih =>
    obtain ⟨name, value⟩ := argument
    refine Refuses.guarded trivial ?_
    refine Refuses.bind (Refuses.lift (refuses_direction _ _)) fun _ => ?_
    exact Refuses.bind (Refuses.modifyGet _) fun _ => ih

theorem refuses_planScalar (entity : EntityType) (tableAlias : String) (path : List String)
    (field : SchemaField) (b : ScalarBinding) (requested : Document.Field) :
    Refuses (PlanError.Single vars) (planScalar vars entity tableAlias path field b requested) := by
  have planned : Refuses (PlanError.Single vars) (do
      let column : Expr := .column tableAlias field.descriptor.column
      let name := columnName path requested.name
      Planner.project column name
      orderArguments vars requested.name column requested.arguments
      return SelectedField.scalar requested.responseKey name b) :=
    Refuses.bind (Refuses.modifyGet _) fun _ =>
      Refuses.bind (refuses_orderArguments _ _ _) fun _ => Refuses.pure _
  unfold planScalar
  split
  · exact planned
  · exact Refuses.bind (Refuses.throw trivial) fun _ => planned

theorem refuses_checkAssociation (entity : EntityType) (requested : Document.Field) :
    Outcome.Refuses (PlanError.Single vars) (checkAssociation entity requested) := by
  unfold checkAssociation
  split
  · exact Outcome.Refuses.error trivial
  · split
    · exact Outcome.Refuses.error trivial
    · exact Outcome.Refuses.ok _

theorem refuses_projectId (entity : EntityType) (tableAlias : String) (path : List String) :
    Refuses (PlanError.Single vars) (projectId entity tableAlias path) :=
  Refuses.bind (Refuses.modifyGet _) fun _ => Refuses.pure _

mutual

theorem refuses_planField (entity : EntityType) (tableAlias : String) (path : List String)
    (requested : Document.Field) :
    Refuses (PlanError.Single vars) (planField schema vars entity tableAlias path requested) := by
  cases requested with
  | mk label name arguments selection =>
    rw [planField]
    split
    · dsimp only
      split
      · exact refuses_planScalar _ _ _ _ _ _
      · refine Refuses.bind (Refuses.lift (refuses_checkAssociation _ _)) fun _ => ?_
        refine Refuses.bind (Predicate.refuses_join _ _ _ _) fun _ => ?_
        refine Refuses.bind (refuses_planFields _ _ _ selection) fun _ => ?_
        exact Refuses.bind (refuses_projectId _ _ _) fun _ => Refuses.pure _
    · exact Refuses.throw trivial

theorem refuses_planFields (entity : EntityType) (tableAlias : String) (path : List String)
    (requested : List Document.Field) :
    Refuses (PlanError.Single vars) (planFields schema vars entity tableAlias path requested) := by
  cases requested with
  | nil => exact Refuses.pure _
  | cons f fs =>
    rw [planFields]
    refine Refuses.bind (refuses_planField _ _ _ f) fun _ => ?_
    exact Refuses.bind (refuses_planFields _ _ _ fs) fun _ => Refuses.pure _

end

theorem refuses_findSelect (rootName : String) (found : Option Document.Field)
    (fields : List Document.Field) :
    Outcome.Refuses (PlanError.Single vars) (findSelect rootName found fields) := by
  induction fields generalizing found with
  | nil => exact Outcome.Refuses.ok _
  | cons f rest ih =>
    unfold findSelect
    split
    · exact Outcome.Refuses.error trivial
    split
    · exact Outcome.Refuses.error trivial
    · exact ih _

theorem refuses_planRoot (entity : EntityType) (root : Document.Field) :
    Refuses (PlanError.Single vars) (planRoot schema vars entity root) := by
  unfold planRoot
  refine Refuses.bind (Refuses.lift (refuses_findSelect _ _ _)) fun found => ?_
  split
  · refine Refuses.guarded trivial ?_
    refine Refuses.bind (Refuses.bind (refuses_planFields _ _ _ _) fun _ => ?_) fun _ =>
      Refuses.pure _
    exact Refuses.bind (refuses_projectId _ _ _) fun _ => Refuses.pure _
  · exact Refuses.throw trivial

end Selection

/-! ### Root fields -/

namespace Planning

open Planner

variable {schema : QuerySchema} {vars : Variables}

theorem refuses_planParts (entity : EntityType) (field : Document.Field) :
    Refuses (PlanError.Single vars) (planParts schema vars entity field) := by
  have filter : Outcome.Refuses (PlanError.Single vars) (filterOf vars field) := by
    unfold filterOf
    split
    · exact Outcome.Refuses.ok _
    · exact Outcome.Refuses.ok _
    · exact (Criteria.refuses_read _).mono fun _ => PlanError.OfValue.single
  have condition : ∀ f, Refuses (PlanError.Single vars) (compileFilter schema entity vars f) := by
    intro f
    cases f with
    | none => exact Refuses.pure _
    | some f => exact Refuses.bind (Predicate.refuses_compile f) fun _ => Refuses.pure _
  refine Refuses.bind (Selection.refuses_planRoot _ _) fun _ => ?_
  refine Refuses.bind (Refuses.lift filter) fun _ => ?_
  exact Refuses.bind (condition _) fun _ => Refuses.pure _

/-- The error of a root field that cannot be planned is its own. -/
theorem refuses_planRootField (field : Document.Field) :
    Outcome.Refuses (PlanError.Single vars) (planRootField schema vars field) := by
  intro e h
  unfold planRootField at h
  split at h
  case h_2 =>
    cases h
    trivial
  next entity root =>
  dsimp only at h
  -- Arguments are looked at before anything is planned.
  split at h
  · next argument value found =>
    have own : (PlanError.unknownArgument field.name argument).Single vars := trivial
    exact Outcome.Refuses.error own e h
  · split at h
    · cases h
    · next failed =>
      cases h
      exact refuses_planParts entity field Draft.empty e
        (Outcome.fault_eq_some.2 (congrArg Prod.fst failed))

end Planning

end EntityQuery
