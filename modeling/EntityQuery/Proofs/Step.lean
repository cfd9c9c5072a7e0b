/-
EntityQuery/Proofs/Step.lean

What a step of planning does to the draft.

`Planner.Gives x d a d'` says that the step `x` succeeds from the draft `d`,
with the outcome `a` and the draft `d'`.  Each way of making a step has one
equivalence that takes such a statement apart, so a plan is followed from its
first step to its last without ever unfolding the monad.

`Planner.Keeps R x` says that `x` relates the draft before it to the draft
after it by `R` whenever it succeeds, and `Planner.Leaves R x` says so of
steps that fail as well.  For a relation that holds of doing nothing and of
doing one thing after another (`Cumulative`), it is enough to look at the four
primitive steps: binding a value, joining a table, asking for a column and
ordering.  Whole filters and whole selections follow (`Leaves.compile`,
`Keeps.planRoot`).
-/
import EntityQuery.Planning.Root
import EntityQuery.Proofs.Keyed

namespace EntityQuery

namespace Planner

variable {α β : Type}

/-! ### Steps that succeed -/

/-- From the draft `d` the step gives `a` and leaves the draft `d'`. -/
def Gives (x : Planner α) (d : Draft) (a : α) (d' : Draft) : Prop :=
  x.run d = (.ok a, d')

@[simp] theorem gives_pure {a b : α} {d d' : Draft} :
    Gives (pure a) d b d' ↔ a = b ∧ d = d' := by
  show ((Except.ok a, d) : Except PlanError α × Draft) = (.ok b, d') ↔ _
  simp

theorem run_bind (x : Planner α) (f : α → Planner β) (d : Draft) :
    (x >>= f).run d =
      match x.run d with
      | (.ok a, d₁) => (f a).run d₁
      | (.error e, d₁) => (.error e, d₁) := by
  show ExceptT.bindCont f (x.run d).1 (x.run d).2 = _
  rcases x.run d with ⟨e | a, d₁⟩ <;> rfl

/-- A sequence gives what its second part gives after its first. -/
theorem gives_bind {x : Planner α} {f : α → Planner β} {b : β} {d d' : Draft} :
    Gives (x >>= f) d b d' ↔ ∃ a d₁, Gives x d a d₁ ∧ Gives (f a) d₁ b d' := by
  simp only [Gives]
  rw [run_bind]
  rcases x.run d with ⟨e | a, d₁⟩
  · constructor
    · intro h
      cases h
    · rintro ⟨a, d₂, hx, -⟩
      cases hx
  · constructor
    · intro h
      exact ⟨a, d₁, rfl, h⟩
    · rintro ⟨a', d₂, hx, h⟩
      cases hx
      exact h

@[simp] theorem gives_throw {e : PlanError} {a : α} {d d' : Draft} :
    ¬ Gives (throw e) d a d' := by
  intro h
  have error : ((Except.error e, d) : Except PlanError α × Draft) = (.ok a, d') := h
  cases error

@[simp] theorem gives_lift {x : Except PlanError α} {a : α} {d d' : Draft} :
    Gives (liftM x) d a d' ↔ x = .ok a ∧ d = d' := by
  show ((x, d) : Except PlanError α × Draft) = (.ok a, d') ↔ _
  simp

@[simp] theorem gives_modifyGet {f : Draft → α × Draft} {a : α} {d d' : Draft} :
    Gives (modifyGet f) d a d' ↔ f d = (a, d') := by
  show ((Except.ok (f d).1, (f d).2) : Except PlanError α × Draft) = (.ok a, d') ↔ _
  simp [Prod.ext_iff]

@[simp] theorem gives_modify {f : Draft → Draft} {u : PUnit} {d d' : Draft} :
    Gives (modify f) d u d' ↔ f d = d' := by
  show ((Except.ok PUnit.unit, f d) : Except PlanError PUnit × Draft) = (.ok u, d') ↔ _
  simp

/-! ### Steps that keep a relation -/

/-- A relation that holds of doing nothing, and of one change after another. -/
structure Cumulative (R : Draft → Draft → Prop) : Prop where
  refl : ∀ d, R d d
  trans : ∀ {d d₁ d₂}, R d d₁ → R d₁ d₂ → R d d₂

/-- Where the step succeeds, the draft after it is related to the one before. -/
def Keeps (R : Draft → Draft → Prop) (x : Planner α) : Prop :=
  ∀ d a d', Gives x d a d' → R d d'

variable {R : Draft → Draft → Prop}

theorem Keeps.pure (hR : Cumulative R) (a : α) : Keeps R (Pure.pure a : Planner α) := by
  intro d b d' h
  obtain ⟨-, rfl⟩ := gives_pure.1 h
  exact hR.refl d

theorem Keeps.throw (e : PlanError) : Keeps R (MonadExcept.throw e : Planner α) := by
  intro d a d' h
  exact absurd h gives_throw

theorem Keeps.lift (hR : Cumulative R) (x : Except PlanError α) :
    Keeps R (liftM x : Planner α) := by
  intro d a d' h
  obtain ⟨-, rfl⟩ := gives_lift.1 h
  exact hR.refl d

/-- A relation that can be followed is kept by a sequence if both parts keep
it. -/
theorem Keeps.bind (hR : Cumulative R) {x : Planner α} {f : α → Planner β} (hx : Keeps R x)
    (hf : ∀ a, Keeps R (f a)) : Keeps R (x >>= f) := by
  intro d b d' h
  obtain ⟨a, d₁, h₁, h₂⟩ := gives_bind.1 h
  exact hR.trans (hx d a d₁ h₁) (hf a d₁ b d' h₂)

theorem Keeps.mapM (hR : Cumulative R) {f : α → Planner β} (hf : ∀ a, Keeps R (f a))
    (xs : List α) : Keeps R (xs.mapM f) := by
  induction xs with
  | nil => exact Keeps.pure hR _
  | cons x xs ih =>
    rw [List.mapM_cons]
    refine Keeps.bind hR (hf x) fun y => ?_
    exact Keeps.bind hR ih fun ys => Keeps.pure hR _

/-! ### Steps that may fail -/

/-- However the step ends, the draft it leaves is related to the one before. -/
def Leaves (R : Draft → Draft → Prop) (x : Planner α) : Prop := ∀ d, R d (x.run d).2

/-- What holds after every run holds after those that succeed. -/
theorem Leaves.keeps {x : Planner α} (h : Leaves R x) : Keeps R x := by
  intro d a d' gives
  have run : x.run d = (.ok a, d') := gives
  have left := h d
  rwa [run] at left

theorem Leaves.pure (hR : Cumulative R) (a : α) : Leaves R (Pure.pure a : Planner α) := hR.refl

theorem Leaves.throw (hR : Cumulative R) (e : PlanError) :
    Leaves R (MonadExcept.throw e : Planner α) := hR.refl

theorem Leaves.lift (hR : Cumulative R) (x : Except PlanError α) :
    Leaves R (liftM x : Planner α) := hR.refl

/-- A second step starts from what the first one left, or is never taken. -/
theorem Leaves.bind (hR : Cumulative R) {x : Planner α} {f : α → Planner β} (hx : Leaves R x)
    (hf : ∀ a, Leaves R (f a)) : Leaves R (x >>= f) := by
  intro d
  have first := hx d
  rw [run_bind]
  rcases run : x.run d with ⟨e | a, d₁⟩
  · rw [run] at first
    exact first
  · rw [run] at first
    exact hR.trans first (hf a d₁)

theorem Leaves.mapM (hR : Cumulative R) {f : α → Planner β} (hf : ∀ a, Leaves R (f a))
    (xs : List α) : Leaves R (xs.mapM f) := by
  induction xs with
  | nil => exact Leaves.pure hR _
  | cons x xs ih =>
    rw [List.mapM_cons]
    refine Leaves.bind hR (hf x) fun y => ?_
    exact Leaves.bind hR ih fun ys => Leaves.pure hR _

/-! ### Whole filters -/

/-- The relation is kept by binding any value. -/
def KeptByBinding (R : Draft → Draft → Prop) : Prop := ∀ value, Keeps R (bindValue value)

/-- The relation is kept by joining any association. -/
def KeptByJoining (R : Draft → Draft → Prop) : Prop :=
  ∀ schema parent tableAlias path field, Keeps R (join schema parent tableAlias path field)

/-- Binding never fails. -/
theorem Leaves.bindValue (hb : KeptByBinding R) (value : Json) : Leaves R (bindValue value) :=
  fun d => hb value d _ _ rfl

/-- Joining fails before it joins. -/
theorem Leaves.join (hR : Cumulative R) (hj : KeptByJoining R) (schema : QuerySchema)
    (parent : EntityType) (tableAlias : String) (path : List String) (field : SchemaField) :
    Leaves R (join schema parent tableAlias path field) := by
  intro d
  have kept := hj schema parent tableAlias path field d
  simp only [Planner.join] at kept ⊢
  split at kept
  · exact hR.refl d
  · exact kept _ _ rfl

theorem Leaves.compareWith (hR : Cumulative R) (hb : KeptByBinding R) (operator : Operator)
    (b : ScalarBinding) (column : Expr) (value : Json) :
    Leaves R (Comparison.compareWith operator b column value) :=
  Leaves.bind hR (Leaves.bindValue hb _) fun _ => Leaves.pure hR _

theorem Leaves.membership (hR : Cumulative R) (hb : KeptByBinding R) (b : ScalarBinding)
    (column : Expr) (values : List Json) (negated : Bool) :
    Leaves R (Comparison.membership b column values negated) :=
  Leaves.bind hR (Leaves.mapM hR (Leaves.bindValue hb) _) fun _ => Leaves.pure hR _

theorem Leaves.translate (hR : Cumulative R) (hb : KeptByBinding R) (b : ScalarBinding)
    (column : Expr) (operator : FilterOperator) (value : Json) :
    Leaves R (Comparison.translate b column operator value) := by
  have check : ∀ isNull, Leaves R (Pure.pure (Comparison.nullCheck column isNull) : Planner Expr) :=
    fun _ => Leaves.pure hR _
  cases operator <;> simp only [Comparison.translate]
  case eq | ne =>
    split
    · exact check _
    · exact Leaves.compareWith hR hb _ b column value
  case gt | ge | lt | le | like => exact Leaves.compareWith hR hb _ b column value
  case oneOf | noneOf => exact Leaves.membership hR hb b column _ _
  case isNull | notNull => exact check _
  case locate | contains =>
    exact Leaves.bind hR (Leaves.bindValue hb _) fun _ => Leaves.pure hR _

theorem Leaves.comparison (hR : Cumulative R) (hb : KeptByBinding R) (vars : Variables)
    (field : String) (column : Expr) (b : ScalarBinding) (operator : FilterOperator)
    (operand : Operand) :
    Leaves R (Predicate.comparison vars field column b operator operand) := by
  simp only [Predicate.comparison]
  split
  · exact Leaves.bind hR (Leaves.lift hR _) fun _ => Leaves.pure hR _
  split
  · exact Leaves.bind hR (Leaves.lift hR _) fun _ => Leaves.membership hR hb _ _ _ _
  · exact Leaves.bind hR (Leaves.lift hR _) fun _ => Leaves.translate hR hb _ _ _ _

theorem Leaves.compileFrom (hR : Cumulative R) (hb : KeptByBinding R) (hj : KeptByJoining R)
    (schema : QuerySchema) (vars : Variables) (operator : String) (operand : Operand)
    (entity : EntityType) (tableAlias : String) (before path : List String) :
    Leaves R
      (Predicate.compileFrom schema vars operator operand entity tableAlias before path) := by
  -- Along the path; every step joins, compares at its end, or stops the planning.
  induction path generalizing entity tableAlias before with
  | nil => exact Leaves.throw hR _
  | cons segment rest ih =>
    unfold Predicate.compileFrom
    split
    · dsimp only
      split
      · split
        · exact Leaves.comparison hR hb _ _ _ _ _ _
        · exact Leaves.throw hR _
      · exact Leaves.throw hR _
      · exact Leaves.throw hR _
      · exact Leaves.bind hR (Leaves.join hR hj _ _ _ _ _) fun _ => ih _ _ _
    · exact Leaves.throw hR _

theorem Leaves.compileLeaf (hR : Cumulative R) (hb : KeptByBinding R) (hj : KeptByJoining R)
    (schema : QuerySchema) (root : EntityType) (vars : Variables) (leaf : FilterLeaf) :
    Leaves R (Predicate.compileLeaf schema root vars leaf) := by
  simp only [Predicate.compileLeaf]
  split
  · exact Leaves.throw hR _
  · exact Leaves.compileFrom hR hb hj _ _ _ _ _ _ _ _

mutual

/-- What binding and joining keep, a whole filter keeps, even one that fails
in the middle. -/
theorem Leaves.compile (hR : Cumulative R) (hb : KeptByBinding R) (hj : KeptByJoining R)
    (schema : QuerySchema) (root : EntityType) (vars : Variables) (f : Filter) :
    Leaves R (Predicate.compile schema root vars f) := by
  cases f with
  | leaf condition =>
    rw [Predicate.compile]
    exact Leaves.compileLeaf hR hb hj schema root vars condition
  | and children =>
    rw [Predicate.compile]
    exact Leaves.bind hR (Leaves.compileAll hR hb hj schema root vars children) fun _ =>
      Leaves.pure hR _
  | or children =>
    rw [Predicate.compile]
    exact Leaves.bind hR (Leaves.compileAll hR hb hj schema root vars children) fun _ =>
      Leaves.pure hR _
  | not child =>
    rw [Predicate.compile]
    exact Leaves.bind hR (Leaves.compile hR hb hj schema root vars child) fun _ =>
      Leaves.pure hR _

theorem Leaves.compileAll (hR : Cumulative R) (hb : KeptByBinding R) (hj : KeptByJoining R)
    (schema : QuerySchema) (root : EntityType) (vars : Variables) (fs : List Filter) :
    Leaves R (Predicate.compileAll schema root vars fs) := by
  cases fs with
  | nil => exact Leaves.pure hR _
  | cons f fs =>
    rw [Predicate.compileAll]
    refine Leaves.bind hR (Leaves.compile hR hb hj schema root vars f) fun _ => ?_
    exact Leaves.bind hR (Leaves.compileAll hR hb hj schema root vars fs) fun _ => Leaves.pure hR _

end

section Succeeding

variable (hR : Cumulative R) (hb : KeptByBinding R)

include hR hb

theorem Keeps.comparison (vars : Variables) (field : String) (column : Expr) (b : ScalarBinding)
    (operator : FilterOperator) (operand : Operand) :
    Keeps R (Predicate.comparison vars field column b operator operand) :=
  (Leaves.comparison hR hb vars field column b operator operand).keeps

variable (hj : KeptByJoining R)

include hj

theorem Keeps.compileLeaf (schema : QuerySchema) (root : EntityType) (vars : Variables)
    (leaf : FilterLeaf) : Keeps R (Predicate.compileLeaf schema root vars leaf) :=
  (Leaves.compileLeaf hR hb hj schema root vars leaf).keeps

theorem Keeps.compile (schema : QuerySchema) (root : EntityType) (vars : Variables)
    (f : Filter) : Keeps R (Predicate.compile schema root vars f) :=
  (Leaves.compile hR hb hj schema root vars f).keeps

theorem Keeps.compileAll (schema : QuerySchema) (root : EntityType) (vars : Variables)
    (fs : List Filter) : Keeps R (Predicate.compileAll schema root vars fs) :=
  (Leaves.compileAll hR hb hj schema root vars fs).keeps

theorem Keeps.compileFilter (schema : QuerySchema) (root : EntityType) (vars : Variables)
    (f : Option Filter) : Keeps R (Planning.compileFilter schema root vars f) := by
  cases f with
  | none => exact Keeps.pure hR _
  | some f =>
    exact Keeps.bind hR (Keeps.compile hR hb hj schema root vars f) fun _ => Keeps.pure hR _

end Succeeding

/-! ### Whole selections -/

/-- The relation is kept by asking for any column. -/
def KeptByProjecting (R : Draft → Draft → Prop) : Prop :=
  ∀ expr name, Keeps R (project expr name)

/-- The relation is kept by ordering by any key. -/
def KeptByOrdering (R : Draft → Draft → Prop) : Prop :=
  ∀ expr direction, Keeps R (orderBy expr direction)

theorem Keeps.orderArguments (hR : Cumulative R) (ho : KeptByOrdering R) (vars : Variables)
    (field : String) (column : Expr) (arguments : List (String × Document.Value)) :
    Keeps R (Selection.orderArguments vars field column arguments) := by
  induction arguments with
  | nil => exact Keeps.pure hR _
  | cons argument rest ih =>
    obtain ⟨name, value⟩ := argument
    simp only [Selection.orderArguments]
    split
    · exact Keeps.bind hR (Keeps.throw _) fun _ => Keeps.bind hR (Keeps.lift hR _) fun _ =>
        Keeps.bind hR (ho _ _) fun _ => ih
    · exact Keeps.bind hR (Keeps.lift hR _) fun _ => Keeps.bind hR (ho _ _) fun _ => ih

theorem Keeps.planScalar (hR : Cumulative R) (hp : KeptByProjecting R) (ho : KeptByOrdering R)
    (vars : Variables) (entity : EntityType) (tableAlias : String) (path : List String)
    (field : SchemaField) (b : ScalarBinding) (requested : Document.Field) :
    Keeps R (Selection.planScalar vars entity tableAlias path field b requested) := by
  simp only [Selection.planScalar]
  split
  · exact Keeps.bind hR (hp _ _) fun _ =>
      Keeps.bind hR (Keeps.orderArguments hR ho _ _ _ _) fun _ => Keeps.pure hR _
  · exact Keeps.bind hR (Keeps.throw _) fun _ => Keeps.bind hR (hp _ _) fun _ =>
      Keeps.bind hR (Keeps.orderArguments hR ho _ _ _ _) fun _ => Keeps.pure hR _

theorem Keeps.projectId (hR : Cumulative R) (hp : KeptByProjecting R) (entity : EntityType)
    (tableAlias : String) (path : List String) :
    Keeps R (Selection.projectId entity tableAlias path) :=
  Keeps.bind hR (hp _ _) fun _ => Keeps.pure hR _

mutual

theorem Keeps.planField (hR : Cumulative R) (hj : KeptByJoining R) (hp : KeptByProjecting R)
    (ho : KeptByOrdering R) (schema : QuerySchema) (vars : Variables) (entity : EntityType)
    (tableAlias : String) (path : List String) (requested : Document.Field) :
    Keeps R (Selection.planField schema vars entity tableAlias path requested) := by
  cases requested with
  | mk label name arguments selection =>
    rw [Selection.planField]
    split
    · dsimp only
      split
      · exact Keeps.planScalar hR hp ho _ _ _ _ _ _ _
      · refine Keeps.bind hR (Keeps.lift hR _) fun _ => ?_
        refine Keeps.bind hR (hj _ _ _ _ _) fun _ => ?_
        refine Keeps.bind hR (Keeps.planFields hR hj hp ho _ _ _ _ _ selection) fun _ => ?_
        exact Keeps.bind hR (Keeps.projectId hR hp _ _ _) fun _ => Keeps.pure hR _
    · exact Keeps.throw _

theorem Keeps.planFields (hR : Cumulative R) (hj : KeptByJoining R) (hp : KeptByProjecting R)
    (ho : KeptByOrdering R) (schema : QuerySchema) (vars : Variables) (entity : EntityType)
    (tableAlias : String) (path : List String) (requested : List Document.Field) :
    Keeps R (Selection.planFields schema vars entity tableAlias path requested) := by
  cases requested with
  | nil => exact Keeps.pure hR _
  | cons f fs =>
    rw [Selection.planFields]
    refine Keeps.bind hR (Keeps.planField hR hj hp ho _ _ _ _ _ f) fun _ => ?_
    exact Keeps.bind hR (Keeps.planFields hR hj hp ho _ _ _ _ _ fs) fun _ => Keeps.pure hR _

end

theorem Keeps.planNode (hR : Cumulative R) (hj : KeptByJoining R) (hp : KeptByProjecting R)
    (ho : KeptByOrdering R) (schema : QuerySchema) (vars : Variables) (entity : EntityType)
    (tableAlias : String) (path : List String) (requested : List Document.Field) :
    Keeps R (Selection.planNode schema vars entity tableAlias path requested) := by
  refine Keeps.bind hR (Keeps.planFields hR hj hp ho _ _ _ _ _ _) fun _ => ?_
  exact Keeps.bind hR (Keeps.projectId hR hp _ _ _) fun _ => Keeps.pure hR _

/-- What joining, projecting and ordering keep, a whole selection keeps. -/
theorem Keeps.planRoot (hR : Cumulative R) (hj : KeptByJoining R) (hp : KeptByProjecting R)
    (ho : KeptByOrdering R) (schema : QuerySchema) (vars : Variables) (entity : EntityType)
    (root : Document.Field) : Keeps R (Selection.planRoot schema vars entity root) := by
  simp only [Selection.planRoot]
  refine Keeps.bind hR (Keeps.lift hR _) fun _ => ?_
  split
  · split
    · exact Keeps.bind hR (Keeps.throw _) fun _ =>
        Keeps.bind hR (Keeps.planNode hR hj hp ho _ _ _ _ _ _) fun _ => Keeps.pure hR _
    · exact Keeps.bind hR (Keeps.planNode hR hj hp ho _ _ _ _ _ _) fun _ => Keeps.pure hR _
  · exact Keeps.throw _

end Planner

end EntityQuery
