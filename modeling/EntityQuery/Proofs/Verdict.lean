/-
EntityQuery/Proofs/Verdict.lean

What the comparison of a column says about a cell.

The condition of a supported operator is an expression over a column and over
values that are bound to the query on the way.  Its value depends on nothing
but the cell in that column: `Predicate.verdict` computes it from the cell
directly, with no expression, no alias and no bound values.  It is always a
truth value.  `eval_comparison` says that the expression has the value that
the verdict names.

An expression keeps its value when more values are bound after it
(`Store.eval_mono`), which is why the rest of a plan cannot disturb it.
-/
import EntityQuery.Proofs.Draft
import EntityQuery.Proofs.Outcome
import EntityQuery.Proofs.Truth

namespace EntityQuery

/-! ### Values that are bound later -/

namespace Store

variable {ps qs : Parameters} {binding : Binding}

mutual

/-- An expression with a value keeps it when more values are bound. -/
theorem eval_mono (h : ps <+: qs) (e : Expr) {v : Json}
    (hv : eval ps binding e = .ok v) : eval qs binding e = .ok v := by
  -- Only the names of bound values look at the parameters.
  cases e with
  | literal value => exact hv
  | column tableAlias name => exact hv
  | parameter name =>
    simp only [eval, parameterValue] at hv ⊢
    split at hv
    · next found => rw [Keyed.find?_mono h found]; exact hv
    · cases hv
  | list items =>
    obtain ⟨vs, hvs, e⟩ := Outcome.bind_eq_ok.1 hv
    exact Outcome.bind_eq_ok.2 ⟨vs, evalAll_mono h items hvs, e⟩
  | toText inner =>
    obtain ⟨w, hw, e⟩ := Outcome.bind_eq_ok.1 hv
    exact Outcome.bind_eq_ok.2 ⟨w, eval_mono h inner hw, e⟩
  | locate needle haystack =>
    obtain ⟨w, hw, rest⟩ := Outcome.bind_eq_ok.1 hv
    obtain ⟨n, hn, e⟩ := Outcome.bind_eq_ok.1 rest
    refine Outcome.bind_eq_ok.2 ⟨w, eval_mono h haystack hw, ?_⟩
    exact Outcome.bind_eq_ok.2 ⟨n, eval_mono h needle hn, e⟩
  | sameDocument left right =>
    obtain ⟨l, hl, rest⟩ := Outcome.bind_eq_ok.1 hv
    obtain ⟨r, hr, e⟩ := Outcome.bind_eq_ok.1 rest
    refine Outcome.bind_eq_ok.2 ⟨l, eval_mono h left hl, ?_⟩
    exact Outcome.bind_eq_ok.2 ⟨r, eval_mono h right hr, e⟩
  | apply operator operands =>
    obtain ⟨vs, hvs, e⟩ := Outcome.bind_eq_ok.1 hv
    exact Outcome.bind_eq_ok.2 ⟨vs, evalAll_mono h operands hvs, e⟩

theorem evalAll_mono (h : ps <+: qs) (es : List Expr) {vs : List Json}
    (hvs : evalAll ps binding es = .ok vs) : evalAll qs binding es = .ok vs := by
  cases es with
  | nil => exact hvs
  | cons e es =>
    obtain ⟨w, hw, rest⟩ := Outcome.bind_eq_ok.1 hvs
    obtain ⟨ws, hws, e'⟩ := Outcome.bind_eq_ok.1 rest
    refine Outcome.bind_eq_ok.2 ⟨w, eval_mono h e hw, ?_⟩
    exact Outcome.bind_eq_ok.2 ⟨ws, evalAll_mono h es hws, e'⟩

end

theorem evalAll_cons {e : Expr} {es : List Expr} {v : Json} {vs : List Json}
    (h : eval ps binding e = .ok v) (hs : evalAll ps binding es = .ok vs) :
    evalAll ps binding (e :: es) = .ok (v :: vs) := by
  rw [evalAll, h, Outcome.ok_bind, hs]
  rfl

theorem eval_apply {operator : Operator} {operands : List Expr} {vs : List Json}
    (h : evalAll ps binding operands = .ok vs) :
    eval ps binding (.apply operator operands) = applyOperator operator vs := by
  rw [eval, h, Outcome.ok_bind]

theorem eval_binary {operator : Operator} {left right : Expr} {l r : Json}
    (hl : eval ps binding left = .ok l) (hr : eval ps binding right = .ok r) :
    eval ps binding (.binary operator left right) = applyOperator operator [l, r] :=
  eval_apply (evalAll_cons hl (evalAll_cons hr rfl))

theorem eval_toText {inner : Expr} {v : Json} (h : eval ps binding inner = .ok v) :
    eval ps binding (.toText inner) = .ok (textValue v) := by
  rw [eval, h, Outcome.ok_bind]
  rfl

end Store

namespace Planner

open Store

variable {d d' : Draft} {binding : Binding}

/-- A bound value is what its expression stands for. -/
theorem eval_bindValue {value : Json} {e : Expr} (h : Gives (bindValue value) d e d')
    (hd : d.parameters.Sequential) : eval d'.parameters binding e = .ok value := by
  obtain ⟨rfl, rfl⟩ := gives_bindValue.1 h
  simp only [eval, parameterValue]
  rw [Keyed.find?_append_new value hd.nextName_not_mem]

theorem evalAll_bindValues {values : List Json} {es : List Expr}
    (h : Gives (bindValues values) d es d') (hd : d.parameters.Sequential) :
    evalAll d'.parameters binding es = .ok values := by
  simp only [bindValues] at h
  induction values generalizing d es with
  | nil =>
    obtain ⟨rfl, rfl⟩ := gives_pure.1 h
    rfl
  | cons value values ih =>
    rw [List.mapM_cons, gives_bind] at h
    obtain ⟨e, d₁, first, h⟩ := h
    obtain ⟨es, d₂, others, h⟩ := gives_bind.1 h
    obtain ⟨rfl, rfl⟩ := gives_pure.1 h
    -- What is bound later does not change what the first value is found as.
    have grown := Keeps.mapM cumulative_grows grows_bindValue values _ _ _ others
    have bound : eval d₁.parameters binding e = .ok value := eval_bindValue first hd
    refine evalAll_cons (eval_mono grown.parameters e bound) ?_
    exact ih others (sequential_bindValue value _ _ _ first hd)

end Planner

/-! ### Verdicts on a cell -/

namespace Comparison

open Store

/-- The form in which a cell is compared. -/
def storedCell (b : ScalarBinding) (cell : Json) : Json :=
  match b.storage with
  | .encoded => textValue cell
  | .native => cell

/-- What an operator with a value says about a cell. -/
def verdict (b : ScalarBinding) (operator : FilterOperator) (value cell : Json) : Json :=
  let compared (operator : Operator) :=
    comparison operator (storedCell b cell) (storedValue b value)
  match operator with
  | .eq => if value.isNull then .bool cell.isNull else compared .equal
  | .ne => if value.isNull then .bool !cell.isNull else compared .notEqual
  | .gt => compared .greaterThan
  | .ge => compared .greaterThanEqual
  | .lt => compared .lessThan
  | .le => compared .lessThanEqual
  | .like => likeValue (storedCell b cell) (storedValue b value)
  | .locate =>
    comparison .greaterThan (locateValue (.string (b.coercion.needle value)) (textValue cell))
      (.ofInt 0)
  | .contains => sameDocumentValue (textValue cell) (b.coercion.stored value)
  | .oneOf => Store.membership (storedCell b cell) [storedValue b value] true
  | .noneOf => Store.membership (storedCell b cell) [storedValue b value] false
  | .isNull => .bool cell.isNull
  | .notNull => .bool !cell.isNull

end Comparison

namespace Predicate

/-- What an operator with an operand says about a cell of a field. -/
def verdict (vars : Variables) (field : String) (b : ScalarBinding) (operator : FilterOperator)
    (operand : Operand) (cell : Json) : Except PlanError Json := do
  if operator.takesFlag then
    let given ← flag vars field operator operand
    return .bool (cell.isNull == (decide (operator = .isNull) == given))
  else if operator.takesList then
    let values ← candidates vars field b operand
    return Store.membership (Comparison.storedCell b cell)
      (values.map (Comparison.storedValue b)) (!decide (operator = .noneOf))
  else
    let value ← coerce vars field b operand
    return Comparison.verdict b operator value cell

end Predicate

/-! ### Verdicts are truth values -/

/-- The value is true, false or null. -/
def Json.IsTruth (j : Json) : Prop := ∃ t : Truth, j = t.toJson

namespace Json.IsTruth

theorem null : IsTruth .null := ⟨.unknown, rfl⟩

theorem bool (b : Bool) : IsTruth (.bool b) := Truth.toJson_of_bool b

theorem ite {p : Prop} [Decidable p] {j k : Json} (hj : j.IsTruth) (hk : k.IsTruth) :
    IsTruth (if p then j else k) := by
  split
  · exact hj
  · exact hk

theorem comparison (operator : Operator) (l r : Json) :
    (Store.comparison operator l r).IsTruth :=
  ite null (bool _)

theorem membership (l : Json) (candidates : List Json) (expected : Bool) :
    (Store.membership l candidates expected).IsTruth :=
  ite null (bool _)

theorem sameDocumentValue (l r : Json) : (Store.sameDocumentValue l r).IsTruth :=
  ite null (bool _)

theorem likeValue (text pattern : Json) : (Store.likeValue text pattern).IsTruth := by
  simp only [Store.likeValue]
  split
  · exact bool _
  · exact null

end Json.IsTruth

theorem Comparison.isTruth_verdict (b : ScalarBinding) (operator : FilterOperator)
    (value cell : Json) : (verdict b operator value cell).IsTruth := by
  cases operator <;> unfold verdict
  case eq | ne => exact Json.IsTruth.ite (Json.IsTruth.bool _) (Json.IsTruth.comparison _ _ _)
  case gt | ge | lt | le | locate => exact Json.IsTruth.comparison _ _ _
  case like => exact Json.IsTruth.likeValue _ _
  case contains => exact Json.IsTruth.sameDocumentValue _ _
  case oneOf | noneOf => exact Json.IsTruth.membership _ _ _
  case isNull | notNull => exact Json.IsTruth.bool _

/-- A verdict is true, false or null. -/
theorem Predicate.isTruth_verdict {vars : Variables} {field : String} {b : ScalarBinding}
    {operator : FilterOperator} {operand : Operand} {cell v : Json}
    (h : verdict vars field b operator operand cell = .ok v) : v.IsTruth := by
  simp only [verdict] at h
  split at h
  · obtain ⟨given, -, e⟩ := Outcome.bind_eq_ok.1 h
    rw [← Outcome.pure_eq_ok.1 e]
    exact Json.IsTruth.bool _
  split at h
  · obtain ⟨values, -, e⟩ := Outcome.bind_eq_ok.1 h
    rw [← Outcome.pure_eq_ok.1 e]
    exact Json.IsTruth.membership _ _ _
  · obtain ⟨value, -, e⟩ := Outcome.bind_eq_ok.1 h
    rw [← Outcome.pure_eq_ok.1 e]
    exact Comparison.isTruth_verdict _ _ _ _

/-! ### Conditions have the value of their verdict -/

namespace Comparison

open Store Planner

variable {d d' : Draft} {binding : Binding} {tableAlias name : String} {cell : Json}

theorem eval_nullCheck {ps : Parameters} (h : columnValue binding tableAlias name = .ok cell)
    (isNull : Bool) :
    eval ps binding (nullCheck (.column tableAlias name) isNull) =
      .ok (.bool (cell.isNull == isNull)) := by
  have operand : evalAll ps binding [.column tableAlias name] = .ok [cell] := evalAll_cons h rfl
  simp only [nullCheck]
  rw [eval_apply operand]
  cases isNull
  · show Except.ok (Json.bool !cell.isNull) = _
    simp
  · show Except.ok (Json.bool cell.isNull) = _
    simp

theorem eval_columnText {ps : Parameters} (h : columnValue binding tableAlias name = .ok cell) :
    eval ps binding (.toText (.column tableAlias name)) = .ok (textValue cell) :=
  eval_toText h

theorem eval_storedColumn {ps : Parameters} (h : columnValue binding tableAlias name = .ok cell)
    (b : ScalarBinding) :
    eval ps binding (storedColumn b (.column tableAlias name)) = .ok (storedCell b cell) := by
  simp only [storedColumn, storedCell]
  cases b.storage
  · exact h
  · exact eval_columnText h

theorem eval_compareWith {operator : Operator} {b : ScalarBinding} {value : Json} {e : Expr}
    (h : Gives (compareWith operator b (.column tableAlias name) value) d e d')
    (hd : d.parameters.Sequential) (hc : columnValue binding tableAlias name = .ok cell) :
    eval d'.parameters binding e =
      applyOperator operator [storedCell b cell, storedValue b value] := by
  obtain ⟨bound, d₁, first, h⟩ := gives_bind.1 h
  obtain ⟨rfl, rfl⟩ := gives_pure.1 h
  exact eval_binary (eval_storedColumn hc b) (eval_bindValue first hd)

theorem eval_membership {b : ScalarBinding} {values : List Json} {negated : Bool} {e : Expr}
    (h : Gives (membership b (.column tableAlias name) values negated) d e d')
    (hd : d.parameters.Sequential) (hc : columnValue binding tableAlias name = .ok cell) :
    eval d'.parameters binding e =
      .ok (Store.membership (storedCell b cell) (values.map (storedValue b)) !negated) := by
  obtain ⟨candidates, d₁, first, h⟩ := gives_bind.1 h
  obtain ⟨rfl, rfl⟩ := gives_pure.1 h
  have items : eval d₁.parameters binding (.list candidates) =
      .ok (.array (values.map (storedValue b))) := by
    rw [eval, evalAll_bindValues first hd]
    rfl
  rw [eval_binary (eval_storedColumn hc b) items]
  cases negated <;> rfl

theorem eval_translate {b : ScalarBinding} {operator : FilterOperator} {value : Json} {e : Expr}
    (h : Gives (translate b (.column tableAlias name) operator value) d e d')
    (hd : d.parameters.Sequential) (hc : columnValue binding tableAlias name = .ok cell) :
    eval d'.parameters binding e = .ok (verdict b operator value cell) := by
  cases operator <;> simp only [translate] at h
  case eq | ne =>
    simp only [verdict]
    split at h
    · -- Equality with null asks whether there is a value.
      next null =>
      obtain ⟨rfl, rfl⟩ := gives_pure.1 h
      simp [eval_nullCheck hc, null]
    · next value =>
      rw [eval_compareWith h hd hc]
      simp [applyOperator, value]
  case gt | ge | lt | le | like =>
    rw [eval_compareWith h hd hc]
    rfl
  case locate =>
    -- A place is found if it comes after zero.
    obtain ⟨needle, d₁, first, h⟩ := gives_bind.1 h
    obtain ⟨rfl, rfl⟩ := gives_pure.1 h
    have place : eval d₁.parameters binding (.locate needle (.toText (.column tableAlias name))) =
        .ok (locateValue (.string (b.coercion.needle value)) (textValue cell)) := by
      rw [eval, eval_columnText hc, Outcome.ok_bind, eval_bindValue first hd]
      rfl
    exact eval_binary place rfl
  case contains =>
    obtain ⟨bound, d₁, first, h⟩ := gives_bind.1 h
    obtain ⟨rfl, rfl⟩ := gives_pure.1 h
    rw [eval, eval_columnText hc, Outcome.ok_bind, eval_bindValue first hd]
    rfl
  case oneOf | noneOf => exact eval_membership h hd hc
  case isNull | notNull =>
    obtain ⟨rfl, rfl⟩ := gives_pure.1 h
    rw [eval_nullCheck hc]
    simp only [verdict]
    simp

end Comparison

namespace Predicate

open Store Planner

/-- The condition of a field has the value that the verdict on the cell of
the field names. -/
theorem eval_comparison {vars : Variables} {field tableAlias name : String} {b : ScalarBinding}
    {operator : FilterOperator} {operand : Operand} {d d' : Draft} {binding : Binding} {e : Expr}
    {cell : Json}
    (h : Gives (comparison vars field (.column tableAlias name) b operator operand) d e d')
    (hd : d.parameters.Sequential) (hc : columnValue binding tableAlias name = .ok cell) :
    ∃ v, verdict vars field b operator operand cell = .ok v ∧
      eval d'.parameters binding e = .ok v := by
  -- The three kinds of operand, in the order in which the compiler tells them apart.
  simp only [comparison] at h
  simp only [verdict]
  split at h
  · next switch =>
    obtain ⟨given, d₁, step, h⟩ := gives_bind.1 h
    obtain ⟨read, rfl⟩ := gives_lift.1 step
    obtain ⟨rfl, rfl⟩ := gives_pure.1 h
    rw [if_pos switch, read]
    exact ⟨_, rfl, Comparison.eval_nullCheck hc _⟩
  split at h
  · next noSwitch list =>
    obtain ⟨values, d₁, step, h⟩ := gives_bind.1 h
    obtain ⟨read, rfl⟩ := gives_lift.1 step
    rw [if_neg noSwitch, if_pos list, read]
    exact ⟨_, rfl, Comparison.eval_membership h hd hc⟩
  · next noSwitch noList =>
    obtain ⟨value, d₁, step, h⟩ := gives_bind.1 h
    obtain ⟨read, rfl⟩ := gives_lift.1 step
    rw [if_neg noSwitch, if_neg noList, read]
    exact ⟨_, rfl, Comparison.eval_translate h hd hc⟩

end Predicate

end EntityQuery
