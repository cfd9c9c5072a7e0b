/-
EntityQuery/Proofs/Scope.lean

Queries that always run.

An expression has a value where its aliases are bound, its parameters are
given and every operator has the operands it takes (`eval_total`); no value
that a row may hold makes it fail.  A query whose joins bring the aliases that
its expressions read (`Query.Scoped`) therefore runs on every store: all that
can be missing is its root table (`Tables.run_total`).  There is an answer
unless the sort gives up, on more than twenty bindings whose sort keys have no
consistent order (`Tables.of_givesUp`).
-/
import EntityQuery.Proofs.Arranged
import EntityQuery.Proofs.Keyed
import EntityQuery.Proofs.Outcome
import EntityQuery.Store.Tables
import Mathlib.Data.List.Basic

namespace EntityQuery

/-! ### Names in expressions -/

namespace Expr

mutual

/-- The aliases of the columns in an expression, in order. -/
def aliases : Expr → List String
  | .literal _ => []
  | .column tableAlias _ => [tableAlias]
  | .parameter _ => []
  | .list items => aliasesOf items
  | .toText inner => aliases inner
  | .locate needle haystack => aliases needle ++ aliases haystack
  | .sameDocument left right => aliases left ++ aliases right
  | .apply _ operands => aliasesOf operands

/-- The aliases of the columns in expressions, in order. -/
def aliasesOf : List Expr → List String
  | [] => []
  | e :: es => aliases e ++ aliasesOf es

end

end Expr

/-- The operator takes these operands. -/
def Operator.Takes (operator : Operator) (operands : List Expr) : Prop :=
  match operator with
  | .and | .or => True
  | .not | .isNull | .isNotNull => ∃ e, operands = [e]
  | .oneOf | .noneOf => ∃ e candidates, operands = [e, .list candidates]
  | _ => ∃ left right, operands = [left, right]

namespace Expr

mutual

/-- Every operator in the expression has the operands it takes. -/
def Applied : Expr → Prop
  | .literal _ => True
  | .column _ _ => True
  | .parameter _ => True
  | .list items => AllApplied items
  | .toText inner => Applied inner
  | .locate needle haystack => Applied needle ∧ Applied haystack
  | .sameDocument left right => Applied left ∧ Applied right
  | .apply operator operands => operator.Takes operands ∧ AllApplied operands

/-- Every operator in the expressions has the operands it takes. -/
def AllApplied : List Expr → Prop
  | [] => True
  | e :: es => Applied e ∧ AllApplied es

end

/-- The expression reads these aliases and these parameters only, and applies
operators as they are to be applied. -/
structure Scoped (e : Expr) (scope names : List String) : Prop where
  aliases : ∀ a ∈ e.aliases, a ∈ scope
  parameters : ∀ n ∈ e.parameters, n ∈ names
  applied : e.Applied

end Expr

/-! ### Expressions that have a value -/

namespace Store

variable {ps : Parameters} {binding : Binding}

/-- An operator fails on no values of the operands it takes. -/
theorem applyOperator_total {operator : Operator} {operands : List Expr} {vs : List Json}
    (takes : operator.Takes operands) (h : evalAll ps binding operands = .ok vs) :
    ∃ v, applyOperator operator vs = .ok v := by
  -- Operators are applied to as many operands as they take, and to a list where they take one.
  have one : (∃ e, operands = [e]) → ∃ v, vs = [v] := by
    rintro ⟨e, rfl⟩
    obtain ⟨v, -, h⟩ := Outcome.bind_eq_ok.1 h
    cases h
    exact ⟨v, rfl⟩
  have two : (∃ l r, operands = [l, r]) → ∃ l r, vs = [l, r] := by
    rintro ⟨l, r, rfl⟩
    obtain ⟨v, -, h⟩ := Outcome.bind_eq_ok.1 h
    obtain ⟨ws, h', h⟩ := Outcome.bind_eq_ok.1 h
    obtain ⟨w, -, h'⟩ := Outcome.bind_eq_ok.1 h'
    cases h'
    cases h
    exact ⟨v, w, rfl⟩
  have listed : (∃ e items, operands = [e, .list items]) → ∃ v ws, vs = [v, .array ws] := by
    rintro ⟨e, items, rfl⟩
    obtain ⟨v, -, h⟩ := Outcome.bind_eq_ok.1 h
    obtain ⟨ws, h', h⟩ := Outcome.bind_eq_ok.1 h
    obtain ⟨w, list, h'⟩ := Outcome.bind_eq_ok.1 h'
    obtain ⟨items, -, list⟩ := Outcome.bind_eq_ok.1 list
    cases list
    cases h'
    cases h
    exact ⟨v, items, rfl⟩
  cases operator
  case and | or => exact ⟨_, rfl⟩
  case not | isNull | isNotNull =>
    obtain ⟨v, rfl⟩ := one takes
    exact ⟨_, rfl⟩
  case oneOf | noneOf =>
    obtain ⟨v, ws, rfl⟩ := listed takes
    exact ⟨_, rfl⟩
  all_goals
    obtain ⟨l, r, rfl⟩ := two takes
    exact ⟨_, rfl⟩

/-- A column of a bound alias has a value. -/
theorem exists_column {a name : String} (h : a ∈ Keyed.keys binding) :
    ∃ v, columnValue binding a name = .ok v := by
  obtain ⟨row, found⟩ := Option.isSome_iff_exists.1 (Keyed.isSome_find?.2 h)
  simp only [columnValue]
  rw [found]
  cases row <;> exact ⟨_, rfl⟩

mutual

/-- **An expression has a value where its aliases are bound and its parameters
are given.** -/
theorem eval_total (e : Expr) (aliases : ∀ a ∈ e.aliases, a ∈ Keyed.keys binding)
    (names : ∀ n ∈ e.parameters, n ∈ Keyed.keys ps) (applied : e.Applied) :
    ∃ v, eval ps binding e = .ok v := by
  cases e with
  | literal value => exact ⟨_, rfl⟩
  | column a name => exact exists_column (aliases a List.mem_cons_self)
  | parameter name =>
    obtain ⟨v, found⟩ := Option.isSome_iff_exists.1
      (Keyed.isSome_find?.2 (names name List.mem_cons_self))
    refine ⟨v, ?_⟩
    simp only [eval, parameterValue]
    rw [found]
  | list items =>
    obtain ⟨vs, h⟩ := evalAll_total items aliases names applied
    exact ⟨.array vs, by rw [eval, h]; rfl⟩
  | toText inner =>
    obtain ⟨v, h⟩ := eval_total inner aliases names applied
    exact ⟨textValue v, by rw [eval, h]; rfl⟩
  | locate needle haystack =>
    obtain ⟨n, hn⟩ := eval_total needle (fun a ha => aliases a (List.mem_append_left _ ha))
      (fun n hn => names n (List.mem_append_left _ hn)) applied.1
    obtain ⟨h, hh⟩ := eval_total haystack (fun a ha => aliases a (List.mem_append_right _ ha))
      (fun n hn => names n (List.mem_append_right _ hn)) applied.2
    exact ⟨locateValue n h, by rw [eval, hh, hn]; rfl⟩
  | sameDocument left right =>
    obtain ⟨l, hl⟩ := eval_total left (fun a ha => aliases a (List.mem_append_left _ ha))
      (fun n hn => names n (List.mem_append_left _ hn)) applied.1
    obtain ⟨r, hr⟩ := eval_total right (fun a ha => aliases a (List.mem_append_right _ ha))
      (fun n hn => names n (List.mem_append_right _ hn)) applied.2
    exact ⟨sameDocumentValue l r, by rw [eval, hl, hr]; rfl⟩
  | apply operator operands =>
    obtain ⟨vs, h⟩ := evalAll_total operands aliases names applied.2
    obtain ⟨v, applies⟩ := applyOperator_total applied.1 h
    exact ⟨v, by rw [eval, h]; exact applies⟩

theorem evalAll_total (es : List Expr) (aliases : ∀ a ∈ Expr.aliasesOf es, a ∈ Keyed.keys binding)
    (names : ∀ n ∈ Expr.parametersOf es, n ∈ Keyed.keys ps) (applied : Expr.AllApplied es) :
    ∃ vs, evalAll ps binding es = .ok vs := by
  cases es with
  | nil => exact ⟨[], rfl⟩
  | cons e es =>
    obtain ⟨v, hv⟩ := eval_total e (fun a ha => aliases a (List.mem_append_left _ ha))
      (fun n hn => names n (List.mem_append_left _ hn)) applied.1
    obtain ⟨vs, hvs⟩ := evalAll_total es (fun a ha => aliases a (List.mem_append_right _ ha))
      (fun n hn => names n (List.mem_append_right _ hn)) applied.2
    exact ⟨v :: vs, by rw [evalAll, hv, Outcome.ok_bind, hvs]; rfl⟩

end

/-! ### Bindings -/

/-- All the aliases are bound. -/
def Binds (scope : List String) (binding : Binding) : Prop :=
  ∀ a ∈ scope, a ∈ Keyed.keys binding

/-- A scoped expression has a value where its scope is bound. -/
theorem Binds.eval {scope : List String} {e : Expr} (h : Binds scope binding)
    (closed : e.Scoped scope (Keyed.keys ps)) : ∃ v, eval ps binding e = .ok v :=
  eval_total e (fun a ha => h a (closed.aliases a ha)) closed.parameters closed.applied

/-- Binding one more alias. -/
theorem Binds.put {scope : List String} (h : Binds scope binding) (a : String)
    (row : Option Row) : Binds (scope ++ [a]) (Keyed.put a row binding) := by
  intro b hb
  rw [← Keyed.isSome_find?]
  by_cases same : b = a
  · subst same
    rw [Keyed.find?_put_self]
    rfl
  · rw [Keyed.find?_put_of_ne _ _ same, Keyed.isSome_find?]
    rcases List.mem_append.1 hb with hb | hb
    · exact h b hb
    · exact absurd (List.mem_singleton.1 hb) same

end Store

/-! ### Queries that run -/

/-- The condition of each join reads the aliases before it and its own. -/
def Joins.Scoped (names : List String) : List String → Joins → Prop
  | _, [] => True
  | scope, j :: js =>
    j.condition.Scoped (scope ++ [j.tableAlias]) names ∧ Scoped names (scope ++ [j.tableAlias]) js

/-- The aliases of a query: that of its root, and those of its joins. -/
def Query.aliases (q : Query) : List String := q.tableAlias :: q.joins.map (·.tableAlias)

/-- Every expression of the query reads aliases that are there, and parameters
that are given. -/
structure Query.Scoped (q : Query) : Prop where
  joins : Joins.Scoped (Keyed.keys q.parameters) [q.tableAlias] q.joins
  columns : ∀ c ∈ q.columns, c.expr.Scoped q.aliases (Keyed.keys q.parameters)
  filter : ∀ e, q.filter = some e → e.Scoped q.aliases (Keyed.keys q.parameters)
  order : ∀ k ∈ q.order, k.expr.Scoped q.aliases (Keyed.keys q.parameters)

namespace Tables

open Store

variable {tables : Tables} {ps : Parameters} {scope : List String}

/-- A condition whose aliases are bound finds its rows. -/
theorem matching_total {tableAlias : String} {condition : Expr} {binding : Binding}
    (h : Binds scope binding)
    (closed : condition.Scoped (scope ++ [tableAlias]) (Keyed.keys ps)) (rows : List Row) :
    ∃ found, matching ps tableAlias condition binding rows = .ok found ∧
      ∀ b ∈ found, Binds (scope ++ [tableAlias]) b := by
  induction rows with
  | nil => exact ⟨[], rfl, List.forall_mem_nil _⟩
  | cons row rows ih =>
    obtain ⟨others, e, bound⟩ := ih
    have here := h.put tableAlias (some row)
    obtain ⟨v, hv⟩ := here.eval closed
    refine ⟨if isTrue v then Keyed.put tableAlias (some row) binding :: others else others, ?_, ?_⟩
    · rw [matching, hv, Outcome.ok_bind, e]
      rfl
    · split
      · exact List.forall_mem_cons.2 ⟨here, bound⟩
      · exact bound

theorem extend_total {j : Join} {binding : Binding} (h : Binds scope binding)
    (closed : j.condition.Scoped (scope ++ [j.tableAlias]) (Keyed.keys ps)) :
    ∃ found, extend tables ps j binding = .ok found ∧
      ∀ b ∈ found, Binds (scope ++ [j.tableAlias]) b := by
  obtain ⟨found, e, bound⟩ := matching_total h closed (rowsOf tables j.table)
  simp only [extend]
  rw [e, Outcome.ok_bind]
  split
  · exact ⟨_, rfl, List.forall_mem_singleton.2 (h.put _ _)⟩
  · exact ⟨_, rfl, bound⟩

/-- Joins each of which is scoped by those before it can all be made. -/
theorem joinAll_total {joins : Joins} {bindings : List Binding}
    (h : ∀ b ∈ bindings, Binds scope b) (closed : Joins.Scoped (Keyed.keys ps) scope joins) :
    ∃ found, joinAll tables ps bindings joins = .ok found ∧
      ∀ b ∈ found, Binds (scope ++ joins.map (·.tableAlias)) b := by
  induction joins generalizing scope bindings with
  | nil =>
    refine ⟨bindings, rfl, ?_⟩
    rw [List.map_nil, List.append_nil]
    exact h
  | cons j js ih =>
    have step : ∀ b ∈ bindings, ∃ found, extend tables ps j b = .ok found ∧
        ∀ b ∈ found, Binds (scope ++ [j.tableAlias]) b := fun b hb => extend_total (h b hb) closed.1
    obtain ⟨lists, e, bound⟩ := Outcome.mapM_total step
    have flat : ∀ b ∈ lists.flatten, Binds (scope ++ [j.tableAlias]) b := by
      intro b hb
      obtain ⟨list, hl, hb⟩ := List.mem_flatten.1 hb
      exact bound list hl b hb
    obtain ⟨found, e', bound'⟩ := ih flat closed.2
    refine ⟨found, ?_, ?_⟩
    · rw [joinAll, e, Outcome.ok_bind, e']
    · rw [List.map_cons, List.append_cons]
      exact bound'

/-- A scoped filter keeps some of the bindings. -/
theorem keep_total {condition : Expr} {bindings : List Binding}
    (h : ∀ b ∈ bindings, Binds scope b) (closed : condition.Scoped scope (Keyed.keys ps)) :
    ∃ kept, keep ps condition bindings = .ok kept ∧ ∀ b ∈ kept, Binds scope b := by
  have tests : ∀ b ∈ bindings, (do return isTrue (← eval ps b condition)) =
      (.ok (isTrue ((eval ps b condition).toOption.getD .null)) : Except StoreError Bool) := by
    intro b hb
    obtain ⟨v, hv⟩ := (h b hb).eval closed
    rw [hv]
    rfl
  refine ⟨_, Outcome.filterM_ok tests, fun b hb => h b (List.mem_filter.1 hb).1⟩

theorem keyed_total {order : List OrderKey} {bindings : List Binding}
    (h : ∀ b ∈ bindings, Binds scope b)
    (closed : ∀ k ∈ order, k.expr.Scoped scope (Keyed.keys ps)) :
    ∃ found, keyed ps order bindings = .ok found ∧ ∀ pair ∈ found, Binds scope pair.2 := by
  refine Outcome.mapM_total fun b hb => ?_
  obtain ⟨values, e, -⟩ := Outcome.mapM_total (P := fun _ => True) fun k hk =>
    ((h b hb).eval (closed k hk)).imp fun v hv => ⟨hv, trivial⟩
  exact ⟨(values, b), by rw [e]; rfl, h b hb⟩

/-- Scoped sort keys give an order. -/
theorem sorted_total [Disorder] {order : List OrderKey} {bindings : List Binding}
    (h : ∀ b ∈ bindings, Binds scope b)
    (closed : ∀ k ∈ order, k.expr.Scoped scope (Keyed.keys ps)) :
    ∃ ordered, sorted ps order bindings = .ok ordered ∧ ∀ b ∈ ordered, Binds scope b := by
  simp only [sorted]
  split
  · exact ⟨bindings, rfl, h⟩
  · obtain ⟨found, e, bound⟩ := keyed_total h closed
    rw [e]
    refine ⟨_, rfl, fun b hb => ?_⟩
    obtain ⟨pair, hp, rfl⟩ := List.mem_map.1 hb
    exact bound pair ((arrange_perm _ _).mem_iff.1 hp)

theorem resultRow_total {columns : List Column} {binding : Binding} (h : Binds scope binding)
    (closed : ∀ c ∈ columns, c.expr.Scoped scope (Keyed.keys ps)) :
    ∃ row, resultRow ps columns binding = .ok row := by
  have cells : ∀ c ∈ columns, ∃ cell,
      (do return (c.name, ← eval ps binding c.expr)) =
        (.ok cell : Except StoreError (String × Json)) ∧ True := by
    intro c hc
    obtain ⟨v, hv⟩ := h.eval (closed c hc)
    exact ⟨(c.name, v), by rw [hv]; rfl, trivial⟩
  obtain ⟨cells, e, -⟩ := Outcome.mapM_total cells
  simp only [resultRow]
  rw [e]
  exact ⟨_, rfl⟩

theorem bindingsOf_total {q : Query} (closed : q.Scoped) {rows : List Row}
    (table : Keyed.find? tables q.table = some rows) :
    ∃ kept, tables.bindingsOf q = .ok kept ∧ ∀ b ∈ kept, Binds q.aliases b := by
  -- Every binding starts with the root, and the joins bind one alias after the other behind it.
  have roots : ∀ b ∈ rows.map fun row => ([(q.tableAlias, some row)] : Binding),
      Binds [q.tableAlias] b := by
    intro b hb
    obtain ⟨row, -, rfl⟩ := List.mem_map.1 hb
    exact fun a ha => ha
  obtain ⟨joined, e, bound⟩ : ∃ joined, joinAll tables q.parameters
      (rows.map fun row => [(q.tableAlias, some row)]) q.joins = .ok joined ∧
        ∀ b ∈ joined, Binds q.aliases b := joinAll_total roots closed.joins
  simp only [bindingsOf]
  rw [table]
  simp only [e, Outcome.ok_bind]
  cases filter : q.filter with
  | none => exact ⟨joined, rfl, bound⟩
  | some condition => exact keep_total bound (closed.filter condition filter)

/-- **A scoped query runs on every store that has its root table.** -/
theorem run_total [Disorder] {q : Query} (closed : q.Scoped) {rows : List Row}
    (table : Keyed.find? tables q.table = some rows) : ∃ result, run tables q = .ok result := by
  obtain ⟨kept, e, bound⟩ := bindingsOf_total closed table
  obtain ⟨ordered, e', bound⟩ := sorted_total bound closed.order
  have limited : ∀ b ∈ q.limit.elim ordered ordered.take, Binds q.aliases b := by
    cases q.limit with
    | none => exact bound
    | some limit => exact fun b hb => bound b (List.mem_of_mem_take hb)
  obtain ⟨result, e₃, -⟩ := Outcome.mapM_total (P := fun _ => True) fun b hb =>
    (resultRow_total (limited b hb) closed.columns).imp fun row h => ⟨h, trivial⟩
  refine ⟨result, ?_⟩
  simp only [run, e, Outcome.ok_bind, e']
  cases limit : q.limit <;> rw [limit] at e₃ <;> exact e₃

/-- Without its root table a query has no bindings. -/
theorem bindingsOf_unknown {q : Query} (table : Keyed.find? tables q.table = none) :
    tables.bindingsOf q = .error (.unknownTable q.table) := by
  simp only [bindingsOf]
  rw [table]
  rfl

/-- Without its root table a query does not run. -/
theorem run_unknown [Disorder] {q : Query} (table : Keyed.find? tables q.table = none) :
    run tables q = .error (.unknownTable q.table) := by
  rw [run, bindingsOf_unknown table]
  rfl

/-! ### Queries that are answered -/

/-- A query without an order is always answered. -/
theorem givesUp_unordered [Disorder] {q : Query} (unordered : q.order = []) :
    tables.givesUp q = false := by
  simp only [givesUp, sorts, unordered, List.isEmpty_nil, if_true]
  rfl

/-- Without its root table a query has nothing to sort. -/
theorem givesUp_unknown [Disorder] {q : Query} (table : Keyed.find? tables q.table = none) :
    tables.givesUp q = false := by
  cases order : q.order with
  | nil => exact givesUp_unordered order
  | cons key keys =>
    simp only [givesUp, sorts, order, bindingsOf_unknown table]
    rfl

/-- What there is of an answer is what running the query gives. -/
theorem run?_eq_some [Disorder] {q : Query} {result : Except StoreError (List Row)} :
    tables.run? q = some result ↔ tables.givesUp q = false ∧ tables.run q = result := by
  cases stuck : tables.givesUp q <;> simp [run?, stuck]

/-- A run has no outcome exactly if its sort gives up. -/
theorem run?_eq_none [Disorder] {q : Query} :
    tables.run? q = none ↔ tables.givesUp q = true := by
  cases stuck : tables.givesUp q <;> simp [run?, stuck]

/-- The sort gives up only on many bindings whose sort keys have no consistent
order. -/
theorem of_givesUp [Disorder] {q : Query} (h : tables.givesUp q = true) :
    q.order ≠ [] ∧ ∃ keyed, tables.sorts q = .ok keyed ∧
      insertionLimit < keyed.length ∧ ¬Consistent (precedes q.order) keyed := by
  unfold givesUp at h
  cases sorts : tables.sorts q with
  | error e =>
    rw [sorts] at h
    cases h
  | ok keyed =>
    rw [sorts] at h
    have inconsistent := of_sort?_eq_none (Option.isNone_iff_eq_none.1 h)
    refine ⟨fun unordered => ?_, keyed, rfl, inconsistent⟩
    -- Without an order there is nothing to sort.
    simp only [Tables.sorts, unordered, List.isEmpty_nil, if_true] at sorts
    cases sorts
    exact absurd inconsistent.1 (Nat.not_lt_zero _)

end Tables

end EntityQuery
