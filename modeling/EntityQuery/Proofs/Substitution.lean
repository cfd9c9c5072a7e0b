/-
EntityQuery/Proofs/Substitution.lean

Operands of conditions through variables.

An operand, or any value inside it, may be given by a variable in its place
(`Operand.Stands`).  A closed operand has one value, whatever the variables
are, and its replacement has the same value (`Operand.Stands.resolve`).

What is done with the value depends on the form.  A literal is coerced
strictly, and anything with a variable in it leniently; the two agree on what
the strict coercion accepts (`Coercion.input_of_literal`).  The candidates of
a membership test are the items of a list, which a variable for the whole list
has, too (`Predicate.candidates_of_stands`).  So a filter that compiles is
compiled to the same condition with the same joins and values after the
replacement (`Predicate.compile_of_stands`).
-/
import EntityQuery.Proofs.Agreement
import EntityQuery.Proofs.Indirection

namespace EntityQuery

/-! ### Strict and lenient coercion -/

namespace Coercion

/-- What the strict check accepts, the lenient one accepts with the same
outcome. -/
theorem check_lenient {scalar : String} {kind : ScalarKind} {value v : Json}
    (h : check scalar kind false value = .ok v) : check scalar kind true value = .ok v := by
  cases null : value.isNull with
  | true =>
    simp only [check, null, if_true] at h ⊢
    exact h
  | false =>
    rw [check_of_not_null _ null] at h ⊢
    cases kind
    case text =>
      cases value
      case number n =>
        -- The scalar `ID` takes numbers, lenient or not.
        simp only [checkText, Bool.false_or, Bool.true_or, if_true] at h ⊢
        split at h
        · exact h
        · cases h
      all_goals exact h
    case integer =>
      cases value
      case number n => cases n <;> exact h
      case string s => cases h
      all_goals exact h
    case float | boolean =>
      cases value
      case string s => cases h
      all_goals exact h
    case date | dateTime | payload => exact h

/-- What is accepted as a literal is accepted as the value of a variable. -/
theorem input_of_literal {c : Coercion} {value v : Json} (h : c.literal value = .ok v) :
    c.input value = .ok v := by
  cases c with
  | document => exact h
  | plain scalar kind => exact check_lenient h

end Coercion

namespace Operand

/-! ### Closed operands -/

mutual

/-- No variable occurs in the operand, and no constant is a list or an
object. -/
def Closed : Operand → Prop
  | .variable _ => False
  | .constant value => ofJson value = .constant value
  | .list items => AllClosed items
  | .object entries => EntriesClosed entries

/-- The same of several operands. -/
def AllClosed : List Operand → Prop
  | [] => True
  | o :: os => Closed o ∧ AllClosed os

/-- The same of the operands of entries. -/
def EntriesClosed : List (String × Operand) → Prop
  | [] => True
  | (_, o) :: es => Closed o ∧ EntriesClosed es

end

mutual

theorem Closed.hasVariables {o : Operand} (h : o.Closed) : o.hasVariables = false := by
  cases o with
  | «variable» name => exact h.elim
  | constant value => rfl
  | list items => exact AllClosed.hasVariables h
  | object entries => exact EntriesClosed.hasVariables h

theorem AllClosed.hasVariables {os : List Operand} (h : AllClosed os) :
    anyHasVariables os = false := by
  cases os with
  | nil => rfl
  | cons o os => rw [anyHasVariables, h.1.hasVariables, AllClosed.hasVariables h.2]; rfl

theorem EntriesClosed.hasVariables {es : List (String × Operand)} (h : EntriesClosed es) :
    anyEntryHasVariables es = false := by
  cases es with
  | nil => rfl
  | cons e es =>
    obtain ⟨name, o⟩ := e
    rw [anyEntryHasVariables, h.1.hasVariables, EntriesClosed.hasVariables h.2]
    rfl

end

/-! ### Their values -/

theorem resolveEntries_ofMembers {vars : Variables} {members : List (String × Json)}
    (h : ∀ member ∈ members, resolve vars (ofJson member.2) = .ok member.2) :
    resolveEntries vars (ofMembers members) = .ok members := by
  induction members with
  | nil => rfl
  | cons member members ih =>
    obtain ⟨name, j⟩ := member
    obtain ⟨first, rest⟩ := List.forall_mem_cons.1 h
    rw [ofMembers, resolveEntries, first, Outcome.ok_bind, ih rest]
    rfl

mutual

/-- A closed operand has a value, the same whatever the variables are; and so
has its value, written as an operand. -/
theorem Closed.value (o : Operand) (closed : o.Closed) :
    ∃ j, ∀ vars, o.resolve vars = .ok j ∧ (ofJson j).resolve vars = .ok j := by
  cases o with
  | «variable» name => exact closed.elim
  | constant value =>
    have scalar : ofJson value = .constant value := closed
    refine ⟨value, fun vars => ⟨rfl, ?_⟩⟩
    rw [scalar]
    rfl
  | list items =>
    obtain ⟨js, h⟩ := AllClosed.values items closed
    refine ⟨.array js, fun vars => ⟨?_, ?_⟩⟩
    · rw [resolve, (h vars).1]
      rfl
    · rw [ofJson, resolve, (h vars).2]
      rfl
  | object entries =>
    obtain ⟨members, h⟩ := EntriesClosed.values entries closed
    have filed := Keyed.filed_ofPairs members
    refine ⟨.object (Keyed.ofPairs members), fun vars => ⟨?_, ?_⟩⟩
    · rw [resolve, (h vars).1]
      rfl
    · -- Filing what is filed already changes nothing.
      have again : resolveEntries vars (ofMembers (Keyed.ofPairs members)) =
          .ok (Keyed.ofPairs members) :=
        resolveEntries_ofMembers fun member hm => (h vars).2 member (filed.2 member hm)
      rw [ofJson, resolve, again, Outcome.ok_bind, Keyed.ofPairs_eq_self filed.1]
      rfl

theorem AllClosed.values (os : List Operand) (closed : AllClosed os) :
    ∃ js, ∀ vars, resolveItems vars os = .ok js ∧ resolveItems vars (ofItems js) = .ok js := by
  cases os with
  | nil => exact ⟨[], fun vars => ⟨rfl, rfl⟩⟩
  | cons o os =>
    obtain ⟨j, first⟩ := Closed.value o closed.1
    obtain ⟨js, rest⟩ := AllClosed.values os closed.2
    refine ⟨j :: js, fun vars => ⟨?_, ?_⟩⟩
    · rw [resolveItems, (first vars).1, Outcome.ok_bind, (rest vars).1]
      rfl
    · rw [ofItems, resolveItems, (first vars).2, Outcome.ok_bind, (rest vars).2]
      rfl

theorem EntriesClosed.values (es : List (String × Operand)) (closed : EntriesClosed es) :
    ∃ members, ∀ vars, resolveEntries vars es = .ok members ∧
      ∀ member ∈ members, (ofJson member.2).resolve vars = .ok member.2 := by
  cases es with
  | nil => exact ⟨[], fun vars => ⟨rfl, List.forall_mem_nil _⟩⟩
  | cons e es =>
    obtain ⟨name, o⟩ := e
    obtain ⟨j, first⟩ := Closed.value o closed.1
    obtain ⟨members, rest⟩ := EntriesClosed.values es closed.2
    refine ⟨(name, j) :: members, fun vars => ⟨?_, ?_⟩⟩
    · rw [resolveEntries, (first vars).1, Outcome.ok_bind, (rest vars).1]
      rfl
    · exact List.forall_mem_cons.2 ⟨(first vars).2, (rest vars).2⟩

end

/-! ### Variables for values -/

mutual

/-- The operand is also given with variables for values in it, each bound to
the JSON value of its place. -/
inductive Stands (vars : Variables) : Operand → Operand → Prop
  | kept (o : Operand) : Stands vars o o
  | bound {o : Operand} {name : String} {j : Json} (value : o.resolve [] = .ok j)
      (found : Keyed.find? vars name = some j) : Stands vars o (.variable name)
  | list {os os' : List Operand} (each : AllStand vars os os') : Stands vars (.list os) (.list os')
  | object {es es' : List (String × Operand)} (each : EntriesStand vars es es') :
      Stands vars (.object es) (.object es')

/-- Operands are also given, one by one. -/
inductive AllStand (vars : Variables) : List Operand → List Operand → Prop
  | nil : AllStand vars [] []
  | cons {o o' : Operand} {os os' : List Operand} (here : Stands vars o o')
      (rest : AllStand vars os os') : AllStand vars (o :: os) (o' :: os')

/-- Entries are also given, one by one. -/
inductive EntriesStand (vars : Variables) :
    List (String × Operand) → List (String × Operand) → Prop
  | nil : EntriesStand vars [] []
  | cons {key : String} {o o' : Operand} {es es' : List (String × Operand)}
      (here : Stands vars o o') (rest : EntriesStand vars es es') :
      EntriesStand vars ((key, o) :: es) ((key, o') :: es')

end

variable {vars₀ vars : Variables}

theorem AllStand.refl (os : List Operand) : AllStand vars os os := by
  induction os with
  | nil => exact .nil
  | cons o os ih => exact .cons (.kept o) ih

mutual

/-- A replacement has the value of the closed operand it stands for. -/
theorem Stands.resolve {o o' : Operand} (h : Stands vars o o') (closed : o.Closed) {j : Json}
    (value : o.resolve vars₀ = .ok j) : o'.resolve vars = .ok j := by
  -- Without variables the operand has one value, whatever is bound.
  obtain ⟨i, same⟩ := Closed.value o closed
  obtain rfl : i = j := Except.ok.inj ((same vars₀).1.symm.trans value)
  cases h with
  | kept => exact (same vars).1
  | bound value found =>
    obtain rfl := Except.ok.inj ((same []).1.symm.trans value)
    rw [Operand.resolve, variableValue, found]
  | list each =>
    obtain ⟨js, items, h⟩ := Outcome.bind_eq_ok.1 value
    rw [Operand.resolve, AllStand.resolve each closed items]
    exact h
  | object each =>
    obtain ⟨members, entries, h⟩ := Outcome.bind_eq_ok.1 value
    rw [Operand.resolve, EntriesStand.resolve each closed entries]
    exact h

theorem AllStand.resolve {os os' : List Operand} (h : AllStand vars os os')
    (closed : AllClosed os) {js : List Json} (values : resolveItems vars₀ os = .ok js) :
    resolveItems vars os' = .ok js := by
  cases h with
  | nil => exact values
  | cons here rest =>
    obtain ⟨j, first, h⟩ := Outcome.bind_eq_ok.1 values
    obtain ⟨js, others, h⟩ := Outcome.bind_eq_ok.1 h
    rw [resolveItems, Stands.resolve here closed.1 first, Outcome.ok_bind,
      AllStand.resolve rest closed.2 others]
    exact h

theorem EntriesStand.resolve {es es' : List (String × Operand)} (h : EntriesStand vars es es')
    (closed : EntriesClosed es) {members : List (String × Json)}
    (values : resolveEntries vars₀ es = .ok members) :
    resolveEntries vars es' = .ok members := by
  cases h with
  | nil => exact values
  | cons here rest =>
    obtain ⟨j, first, h⟩ := Outcome.bind_eq_ok.1 values
    obtain ⟨members, others, h⟩ := Outcome.bind_eq_ok.1 h
    rw [resolveEntries, Stands.resolve here closed.1 first, Outcome.ok_bind,
      EntriesStand.resolve rest closed.2 others]
    exact h

end

end Operand

/-! ### Comparisons -/

namespace Predicate

open Operand Planner

variable {vars₀ vars : Variables} {field : String} {b : ScalarBinding} {o o' : Operand}

/-- An operand with the value of a closed one is coerced with the same
outcome. -/
theorem coerce_of_resolve (closed : o.Closed)
    (same : ∀ j, o.resolve vars₀ = .ok j → o'.resolve vars = .ok j) {v : Json}
    (h : coerce vars₀ field b o = .ok v) : coerce vars field b o' = .ok v := by
  obtain ⟨j, value, h⟩ := Outcome.bind_eq_ok.1 h
  rw [closed.hasVariables] at h
  have literal := Outcome.mapError_eq_ok.1 h
  rw [coerce, same j value, Outcome.ok_bind, Outcome.mapError_eq_ok]
  split
  · exact Coercion.input_of_literal literal
  · exact literal

theorem flag_of_stands (h : Stands vars o o') (closed : o.Closed) {operator : FilterOperator}
    {given : Bool} (read : flag vars₀ field operator o = .ok given) :
    flag vars field operator o' = .ok given := by
  obtain ⟨j, value, read⟩ := Outcome.bind_eq_ok.1 read
  rw [flag, h.resolve closed value]
  exact read

theorem mapM_coerce_of_stand {os os' : List Operand} (h : AllStand vars os os')
    (closed : AllClosed os) {values : List Json}
    (read : os.mapM (coerce vars₀ field b) = .ok values) :
    os'.mapM (coerce vars field b) = .ok values := by
  induction os generalizing os' values with
  | nil =>
    cases h
    exact read
  | cons o os ih =>
    cases h with
    | cons here rest =>
      rw [List.mapM_cons] at read ⊢
      obtain ⟨v, first, read⟩ := Outcome.bind_eq_ok.1 read
      obtain ⟨vs, others, read⟩ := Outcome.bind_eq_ok.1 read
      rw [coerce_of_resolve closed.1 (fun _ => here.resolve closed.1) first, Outcome.ok_bind,
        ih rest closed.2 others]
      exact read

/-- The items of a closed list are coerced as the items of its value. -/
theorem mapM_coerce_ofItems {os : List Operand} (closed : AllClosed os) {js : List Json}
    (values : resolveItems vars₀ os = .ok js) {vs : List Json}
    (read : os.mapM (coerce vars₀ field b) = .ok vs) :
    (ofItems js).mapM (coerce vars field b) = .ok vs := by
  induction os generalizing js vs with
  | nil =>
    cases values
    exact read
  | cons o os ih =>
    obtain ⟨j, first, values⟩ := Outcome.bind_eq_ok.1 values
    obtain ⟨js, others, values⟩ := Outcome.bind_eq_ok.1 values
    cases values
    rw [List.mapM_cons] at read
    obtain ⟨v, coerced, read⟩ := Outcome.bind_eq_ok.1 read
    obtain ⟨vs, more, read⟩ := Outcome.bind_eq_ok.1 read
    obtain ⟨i, same⟩ := Closed.value o closed.1
    obtain rfl := Except.ok.inj ((same vars₀).1.symm.trans first)
    -- The item given for the operand resolves to the same value.
    have again : ∀ k, o.resolve vars₀ = .ok k → (ofJson i).resolve vars = .ok k := by
      intro k value
      obtain rfl := Except.ok.inj (first.symm.trans value)
      exact (same vars).2
    rw [ofItems, List.mapM_cons, coerce_of_resolve closed.1 again coerced, Outcome.ok_bind,
      ih closed.2 others more]
    exact read

/-- A closed operand is written as a list, or it has no items and neither has
what stands for it. -/
theorem items?_of_stands (h : Stands vars o o') (closed : o.Closed) (vars₀ : Variables) :
    (∃ os, o = .list os) ∨
      o.items? vars₀ = .ok none ∧ o'.items? vars = .ok none := by
  -- Only a list has items; that case is left to the caller.
  cases o with
  | «variable» name => exact closed.elim
  | list os => exact .inl ⟨os, rfl⟩
  | constant value =>
    have scalar : ofJson value = .constant value := closed
    refine .inr ⟨rfl, ?_⟩
    cases h with
    | kept => rfl
    | bound is found =>
      cases is
      rw [items?_variable found, scalar]
      rfl
  | object es =>
    refine .inr ⟨rfl, ?_⟩
    cases h with
    | kept | object => rfl
    | bound is found =>
      obtain ⟨members, -, is⟩ := Outcome.bind_eq_ok.1 is
      cases is
      rw [items?_variable found]
      rfl

/-- The candidates of a membership test are the same. -/
theorem candidates_of_stands (h : Stands vars o o') (closed : o.Closed) {values : List Json}
    (read : candidates vars₀ field b o = .ok values) :
    candidates vars field b o' = .ok values := by
  rcases items?_of_stands h closed vars₀ with ⟨os, rfl⟩ | ⟨alone, alone'⟩
  · have read : os.mapM (coerce vars₀ field b) = .ok values := read
    cases h with
    | kept =>
      exact mapM_coerce_of_stand (AllStand.refl os) closed read
    | @bound _ name j value found =>
      obtain ⟨js, items, h⟩ := Outcome.bind_eq_ok.1 value
      cases h
      obtain ⟨ks, same⟩ := AllClosed.values os closed
      obtain rfl := Except.ok.inj ((same []).1.symm.trans items)
      rw [candidates, items?_variable found]
      exact mapM_coerce_ofItems closed (same vars₀).1 read
    | list each => exact mapM_coerce_of_stand each closed read
  · rw [candidates, alone] at read
    rw [candidates, alone']
    exact mapM_coerce_of_stand (.cons h .nil) ⟨closed, trivial⟩ read

/-- A comparison with what stands for an operand is the comparison with the
operand. -/
theorem comparison_of_stands (h : Stands vars o o') (closed : o.Closed) {column : Expr}
    {operator : FilterOperator} {d d' : Draft} {e : Expr}
    (gives : Gives (comparison vars₀ field column b operator o) d e d') :
    Gives (comparison vars field column b operator o') d e d' := by
  simp only [comparison] at gives ⊢
  split at gives
  · next switch =>
    obtain ⟨given, d₁, step, gives⟩ := gives_bind.1 gives
    obtain ⟨read, rfl⟩ := gives_lift.1 step
    rw [if_pos switch]
    exact gives_bind.2 ⟨given, _, gives_lift.2 ⟨flag_of_stands h closed read, rfl⟩, gives⟩
  split at gives
  · next noSwitch list =>
    obtain ⟨values, d₁, step, gives⟩ := gives_bind.1 gives
    obtain ⟨read, rfl⟩ := gives_lift.1 step
    rw [if_neg noSwitch, if_pos list]
    exact gives_bind.2 ⟨values, _, gives_lift.2 ⟨candidates_of_stands h closed read, rfl⟩, gives⟩
  · next noSwitch noList =>
    obtain ⟨value, d₁, step, gives⟩ := gives_bind.1 gives
    obtain ⟨read, rfl⟩ := gives_lift.1 step
    have same := coerce_of_resolve closed (fun _ => h.resolve closed) read
    rw [if_neg noSwitch, if_neg noList]
    exact gives_bind.2 ⟨value, _, gives_lift.2 ⟨same, rfl⟩, gives⟩

/-! ### Filters -/

variable {schema : QuerySchema} {root : EntityType} {d d' : Draft} {e : Expr}

theorem compileFrom_of_stands (h : Stands vars o o') (closed : o.Closed) {operator : String}
    {entity : EntityType} {tableAlias : String} {before path : List String}
    (gives : Gives (compileFrom schema vars₀ operator o entity tableAlias before path) d e d') :
    Gives (compileFrom schema vars operator o' entity tableAlias before path) d e d' := by
  -- The path is walked without looking at the operand.
  induction path generalizing d entity tableAlias before with
  | nil => exact absurd gives gives_throw
  | cons segment rest ih =>
    unfold compileFrom at gives ⊢
    split at gives
    case h_2 => exact absurd gives gives_throw
    next field found =>
    dsimp only at gives ⊢
    split at gives
    · next b scalar =>
      split at gives
      · next op supported =>
        exact comparison_of_stands h closed gives
      · exact absurd gives gives_throw
    · exact absurd gives gives_throw
    · exact absurd gives gives_throw
    · next scalar inside =>
      obtain ⟨⟨next, target⟩, d₁, join, gives⟩ := gives_bind.1 gives
      exact gives_bind.2 ⟨_, d₁, join, ih gives⟩

theorem compileLeaf_of_stands (h : Stands vars o o') (closed : o.Closed) {path : List String}
    {operator : String} (gives : Gives (compileLeaf schema root vars₀ ⟨path, operator, o⟩) d e d') :
    Gives (compileLeaf schema root vars ⟨path, operator, o'⟩) d e d' := by
  simp only [compileLeaf] at gives ⊢
  split at gives
  · exact absurd gives gives_throw
  · next present =>
    rw [if_neg present]
    exact compileFrom_of_stands h closed gives

end Predicate

namespace Filter

/-- The filter is also given with variables for values in its operands. -/
inductive Stands (vars : Variables) : Filter → Filter → Prop
  | leaf (path : List String) (operator : String) {o o' : Operand} (here : o.Stands vars o') :
      Stands vars (.leaf ⟨path, operator, o⟩) (.leaf ⟨path, operator, o'⟩)
  | and {fs fs' : List Filter} (each : List.Forall₂ (Stands vars) fs fs') :
      Stands vars (.and fs) (.and fs')
  | or {fs fs' : List Filter} (each : List.Forall₂ (Stands vars) fs fs') :
      Stands vars (.or fs) (.or fs')
  | not {f f' : Filter} (inner : Stands vars f f') : Stands vars (.not f) (.not f')

/-- No variable occurs in an operand of the filter. -/
def Closed (f : Filter) : Prop := ∀ leaf ∈ f.leaves, leaf.value.Closed

theorem closed_of_mem {fs : List Filter} {f : Filter} (hf : f ∈ fs)
    (closed : ∀ leaf ∈ leavesOf fs, leaf.value.Closed) : f.Closed := by
  rw [leavesOf_eq_flatMap] at closed
  exact fun leaf hl => closed leaf (List.mem_flatMap.2 ⟨f, hf, hl⟩)

end Filter

namespace Predicate

open Planner

variable {schema : QuerySchema} {root : EntityType} {vars₀ vars : Variables}

/-- Several filters compile to the same conditions where each of them does. -/
theorem compileAll_of_forall₂ {fs fs' : List Filter} {R : Filter → Filter → Prop}
    (each : List.Forall₂ R fs fs')
    (same : ∀ f ∈ fs, ∀ {f' d e d'}, R f f' → Gives (compile schema root vars₀ f) d e d' →
      Gives (compile schema root vars f') d e d') {d d' : Draft} {es : List Expr}
    (compiled : Gives (compileAll schema root vars₀ fs) d es d') :
    Gives (compileAll schema root vars fs') d es d' := by
  induction each generalizing d d' es with
  | nil => exact compiled
  | cons here rest ih =>
    obtain ⟨first, others⟩ := List.forall_mem_cons.1 same
    rw [compileAll] at compiled ⊢
    obtain ⟨e, d₁, one, h⟩ := gives_bind.1 compiled
    obtain ⟨es, d₂, more, h⟩ := gives_bind.1 h
    exact gives_bind.2 ⟨e, d₁, first here one, gives_bind.2 ⟨es, d₂, ih others more, h⟩⟩

/-- **Variables for operands change nothing.**  A filter without variables
that compiles is compiled to the same condition, with the same joins and the
same bound values, if operands of its leaves or values inside them are given
by variables. -/
theorem compile_of_stands {f f' : Filter} (stands : f.Stands vars f') (closed : f.Closed)
    {d d' : Draft} {e : Expr} (compiled : Gives (compile schema root vars₀ f) d e d') :
    Gives (compile schema root vars f') d e d' := by
  -- Operands stand in the leaves alone, so that the shape of the filter is the same.
  cases stands with
  | leaf path operator here =>
    rw [compile] at compiled ⊢
    exact compileLeaf_of_stands here (closed _ List.mem_cons_self) compiled
  | @and fs fs' each =>
    rw [compile] at compiled ⊢
    obtain ⟨es, d₁, parts, h⟩ := gives_bind.1 compiled
    have parts' := compileAll_of_forall₂ each
      (fun f hf => fun stands => compile_of_stands stands (Filter.closed_of_mem hf closed)) parts
    exact gives_bind.2 ⟨es, d₁, parts', h⟩
  | @or fs fs' each =>
    rw [compile] at compiled ⊢
    obtain ⟨es, d₁, parts, h⟩ := gives_bind.1 compiled
    have parts' := compileAll_of_forall₂ each
      (fun f hf => fun stands => compile_of_stands stands (Filter.closed_of_mem hf closed)) parts
    exact gives_bind.2 ⟨es, d₁, parts', h⟩
  | not inner =>
    rw [compile] at compiled ⊢
    obtain ⟨e, d₁, part, h⟩ := gives_bind.1 compiled
    exact gives_bind.2 ⟨e, d₁, compile_of_stands inner closed part, h⟩
termination_by f

end Predicate

/-! ### The small library -/

namespace Sample

/-- Books with one of two titles, with certain attributes, or with no
author. -/
def sought : Filter :=
  .or [.leaf ⟨["title"], "IN", .list [.constant (.string "x"), .constant (.string "z")]⟩,
    .leaf ⟨["attributes"], "EQ", .object [("shelf", .list [.constant (.ofInt 3)])]⟩,
    .leaf ⟨["author", "id"], "IS_NULL", .constant (.bool true)⟩]

/-- The same with variables for the titles, for the number of the shelf and
for the switch. -/
def soughtGiven : Filter :=
  .or [.leaf ⟨["title"], "IN", .variable "titles"⟩,
    .leaf ⟨["attributes"], "EQ", .object [("shelf", .list [.variable "shelf"])]⟩,
    .leaf ⟨["author", "id"], "IS_NULL", .variable "none"⟩]

/-- Their values. -/
def soughtValues : Variables :=
  [("titles", .array [.string "x", .string "z"]), ("shelf", .ofInt 3), ("none", .bool true)]

end Sample

open Predicate Planner in
/-- In the library, what is sought through variables compiles to the same
condition. -/
theorem compile_of_stands_library :
    ∃ e d', Gives (compile Sample.schema Sample.books [] Sample.sought) Draft.empty e d' ∧
      Gives (compile Sample.schema Sample.books Sample.soughtValues Sample.soughtGiven)
        Draft.empty e d' := by
  have compiled : Gives (compile Sample.schema Sample.books [] Sample.sought)
    Draft.empty _ _ := rfl
  have closed : Sample.sought.Closed := by
    simp [Sample.sought, Filter.Closed, Filter.leaves, Filter.leavesOf, Operand.Closed,
      Operand.AllClosed, Operand.EntriesClosed, Operand.ofJson, Json.ofInt]
  have titles : Operand.Stands Sample.soughtValues
      (.list [.constant (.string "x"), .constant (.string "z")]) (.variable "titles") :=
    .bound rfl rfl
  have shelf : Operand.Stands Sample.soughtValues
      (.object [("shelf", .list [.constant (.ofInt 3)])])
      (.object [("shelf", .list [.variable "shelf"])]) :=
    .object (.cons (.list (.cons (.bound rfl rfl) .nil)) .nil)
  have switch : Operand.Stands Sample.soughtValues (.constant (.bool true)) (.variable "none") :=
    .bound rfl rfl
  have stands : Sample.sought.Stands Sample.soughtValues Sample.soughtGiven :=
    .or (.cons (.leaf _ _ titles) (.cons (.leaf _ _ shelf) (.cons (.leaf _ _ switch) .nil)))
  exact ⟨_, _, compiled, compile_of_stands stands closed compiled⟩

end EntityQuery
