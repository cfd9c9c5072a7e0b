/-
EntityQuery/Proofs/Joined.lean

Which paths a plan joins.

A selection joins the path of every association that is requested, at any
depth (`Document.Requests`), and a leaf of a filter joins the associations in
front of its field.  Nothing else is ever joined: step by step, the paths of
the draft are those it had before and those of the part that was planned
(`joined_planFields`, `joined_compile`).  Selection and filter work on one
draft, so a path that both use is there once.
-/
import EntityQuery.Proofs.Plan

namespace EntityQuery

/-- The fields request the associations of the path, each below the one
before. -/
inductive Document.Requests : List Document.Field → List String → Prop
  | here {f : Document.Field} {fs : List Document.Field} (mem : f ∈ fs)
      (inside : f.selection ≠ []) : Requests fs [f.name]
  | deeper {f : Document.Field} {fs : List Document.Field} {path : List String} (mem : f ∈ fs)
      (requests : Requests f.selection path) : Requests fs (f.name :: path)

theorem Document.Requests.ne_nil {fs : List Document.Field} {path : List String}
    (h : Document.Requests fs path) : path ≠ [] := by
  cases h <;> exact List.cons_ne_nil _ _

theorem Document.not_requests_nil {path : List String} : ¬ Document.Requests [] path := by
  intro h
  cases h with
  | here mem => cases mem
  | deeper mem => cases mem

/-- The associations that lead to the field of a leaf, as far as they go. -/
def FilterLeaf.Passes (leaf : FilterLeaf) (path : List String) : Prop :=
  path ≠ [] ∧ path <+: leaf.path.dropLast

namespace Planner

open Document (Requests)
open Selection Joins

variable {s : QuerySchema} {vars : Variables}

/-- The step joins these paths, and no others. -/
def Joining (d d' : Draft) (paths : List String → Prop) : Prop :=
  ∀ path, path ∈ d'.joins.map (·.path) ↔ path ∈ d.joins.map (·.path) ∨ paths path

theorem joining_nothing {d d' : Draft} {paths : List String → Prop} (h : d'.joins = d.joins)
    (none : ∀ path, ¬ paths path) : Joining d d' paths := by
  intro path
  rw [h]
  exact ⟨.inl, fun h => h.elim id fun p => absurd p (none path)⟩

/-- What joins some paths and then others joins both. -/
theorem Joining.trans {d d₁ d₂ : Draft} {paths more all : List String → Prop}
    (h : Joining d d₁ paths) (h' : Joining d₁ d₂ more)
    (both : ∀ path, all path ↔ paths path ∨ more path) : Joining d d₂ all := by
  intro path
  rw [h' path, h path, both path, or_assoc]

/-- A field that leads somewhere can be joined. -/
theorem sides?_isSome {field : FieldDescriptor} {target : EntityType}
    (leads : field.target?.bind s.entity? = some target) (parent parentId own targetId : String) :
    sides? field parent parentId own targetId ≠ none := by
  obtain ⟨name, leadsTo, -⟩ := Option.bind_eq_some_iff.1 leads
  simp only [FieldDescriptor.target?] at leadsTo
  intro none
  simp only [sides?] at none
  split at leadsTo
  · cases leadsTo
  · next kind => rw [kind] at none; cases none
  · next kind => rw [kind] at none; cases none

/-- A join adds its path, if it is new. -/
theorem joining_join {parent : EntityType} {parentAlias : String} {p : List String}
    {field : SchemaField} {outcome : String × EntityType} {d d' : Draft}
    (h : Gives (Planner.join s parent parentAlias p field) d outcome d') :
    Joining d d' (· = p) := by
  obtain ⟨target, joins, leads, added, -, rfl⟩ := gives_join.1 h
  intro path
  -- A path is joined once; and an association that leads somewhere has the columns to join by.
  rcases add_cases d.joins p field.descriptor parentAlias parent.idColumn
      target.descriptor.qualifiedTable target.idColumn with
    ⟨j, found, e⟩ | ⟨-, none, -⟩ | ⟨left, right, -, -, e⟩
  · have same : d.joins = joins := congrArg Prod.snd (e.symm.trans added)
    have already : p ∈ d.joins.map (·.path) := by
      obtain ⟨hj, path⟩ := mem_of_find? found
      rw [← path]
      exact List.mem_map_of_mem hj
    rw [← same]
    exact ⟨.inl, fun h => h.elim id fun e => e ▸ already⟩
  · exact absurd none (sides?_isSome leads _ _ _ _)
  · have longer := congrArg Prod.snd (e.symm.trans added)
    simp only at longer
    rw [← longer, List.map_append, List.mem_append, List.map_singleton, List.mem_singleton]

/-! ### Selections -/

/-- The path leads from `p` along what the fields request. -/
def Along (p : List String) (fs : List Document.Field) (path : List String) : Prop :=
  ∃ q, Requests fs q ∧ path = p ++ q

theorem along_cons {p : List String} {f : Document.Field} {fs : List Document.Field}
    {path : List String} : Along p (f :: fs) path ↔ Along p [f] path ∨ Along p fs path := by
  constructor
  · rintro ⟨q, requests, rfl⟩
    cases requests with
    | here mem inside =>
      rcases List.mem_cons.1 mem with rfl | mem
      · exact .inl ⟨_, .here List.mem_cons_self inside, rfl⟩
      · exact .inr ⟨_, .here mem inside, rfl⟩
    | deeper mem requests =>
      rcases List.mem_cons.1 mem with rfl | mem
      · exact .inl ⟨_, .deeper List.mem_cons_self requests, rfl⟩
      · exact .inr ⟨_, .deeper mem requests, rfl⟩
  · rintro (⟨q, requests, rfl⟩ | ⟨q, requests, rfl⟩)
    · cases requests with
      | here mem inside =>
        rw [List.mem_singleton.1 mem] at inside ⊢
        exact ⟨_, .here List.mem_cons_self inside, rfl⟩
      | deeper mem requests =>
        rw [List.mem_singleton.1 mem] at requests ⊢
        exact ⟨_, .deeper List.mem_cons_self requests, rfl⟩
    · cases requests with
      | here mem inside => exact ⟨_, .here (List.mem_cons_of_mem _ mem) inside, rfl⟩
      | deeper mem requests => exact ⟨_, .deeper (List.mem_cons_of_mem _ mem) requests, rfl⟩

/-- An association that is requested, and what is requested below it. -/
theorem along_singleton {p : List String} {f : Document.Field} {path : List String}
    (inside : f.selection ≠ []) :
    Along p [f] path ↔ path = p ++ [f.name] ∨ Along (p ++ [f.name]) f.selection path := by
  constructor
  · rintro ⟨q, requests, rfl⟩
    cases requests with
    | here mem => exact .inl (by rw [List.mem_singleton.1 mem])
    | deeper mem requests =>
      rw [List.mem_singleton.1 mem] at requests ⊢
      exact .inr ⟨_, requests, by rw [List.append_assoc]; rfl⟩
  · rintro (rfl | ⟨q, requests, rfl⟩)
    · exact ⟨_, .here List.mem_cons_self inside, rfl⟩
    · exact ⟨_, .deeper List.mem_cons_self requests, by rw [List.append_assoc]; rfl⟩

/-- A field without a selection requests no association. -/
theorem not_along_leaf {p : List String} {f : Document.Field} {path : List String}
    (leaf : f.selection = []) : ¬ Along p [f] path := by
  rintro ⟨q, requests, rfl⟩
  cases requests with
  | here mem inside =>
    rw [List.mem_singleton.1 mem] at inside
    exact inside leaf
  | deeper mem requests =>
    rw [List.mem_singleton.1 mem, leaf] at requests
    exact Document.not_requests_nil requests

theorem keepsJoins_project : KeptByProjecting Predicate.KeepsJoins := by
  intro expr name d u d' h
  rw [gives_project.1 h]
  simp only [Predicate.KeepsJoins]
  split <;> rfl

theorem keepsJoins_orderBy : KeptByOrdering Predicate.KeepsJoins := by
  intro expr direction d u d' h
  rw [gives_orderBy.1 h]
  rfl

mutual

/-- Planning a field joins the associations that it requests. -/
theorem joining_planField {e : EntityType} {a : String} {p : List String} {f : Document.Field}
    {g : SelectedField} {d d' : Draft} (h : Gives (planField s vars e a p f) d g d') :
    Joining d d' (Along p [f]) := by
  cases f with
  | mk label name arguments selection =>
  obtain ⟨field, found, scalar | association⟩ := planField_cases h
  · -- A scalar field joins nothing, and has no selection.
    obtain ⟨b, bound, h⟩ := scalar
    have kept := Keeps.planScalar Predicate.cumulative_keepsJoins keepsJoins_project
      keepsJoins_orderBy _ _ _ _ _ _ _ _ _ _ h
    obtain ⟨leaf, -⟩ := gives_planScalar h
    exact joining_nothing kept fun path => not_along_leaf leaf
  · obtain ⟨-, -, inside, next, target, fields, id, d₁, d₂, join, below, asked, rfl⟩ := association
    have kept := Keeps.projectId Predicate.cumulative_keepsJoins keepsJoins_project _ _ _ _ _ _ asked
    intro path
    rw [kept]
    refine ((joining_join join).trans (joining_planFields below) ?_) path
    intro path
    exact along_singleton (f := .mk label name arguments selection) inside

/-- Fields of a selection join the paths that they lead along. -/
theorem joining_planFields {e : EntityType} {a : String} {p : List String}
    {fs : List Document.Field} {gs : List SelectedField} {d d' : Draft}
    (h : Gives (planFields s vars e a p fs) d gs d') : Joining d d' (Along p fs) := by
  cases fs with
  | nil =>
    obtain ⟨-, rfl⟩ := gives_pure.1 h
    refine joining_nothing rfl ?_
    rintro path ⟨q, requests, -⟩
    exact Document.not_requests_nil requests
  | cons f fs =>
    obtain ⟨g, gs, d₁, rfl, first, others⟩ := planFields_cons h
    exact (joining_planField first).trans (joining_planFields others) fun path => along_cons

end

/-- Planning a root joins the associations that its selection requests. -/
theorem joining_planRoot {entity : EntityType} {field : Document.Field}
    {selection : RootSelection} {d d' : Draft}
    (h : Gives (Selection.planRoot s vars entity field) d selection d') :
    ∃ select, field.selection = [select] ∧ Joining d d' (Requests select.selection) := by
  obtain ⟨select, gs, id, d₁, only, fields, asked, -⟩ := Planning.gives_planRoot h
  have kept := Keeps.projectId Predicate.cumulative_keepsJoins keepsJoins_project _ _ _ _ _ _ asked
  refine ⟨select, only, fun path => ?_⟩
  rw [kept, joining_planFields fields path]
  refine or_congr_right ⟨?_, fun requests => ⟨path, requests, rfl⟩⟩
  rintro ⟨q, requests, rfl⟩
  exact requests

/-! ### Filters -/

/-- A leaf joins the associations in front of its field. -/
theorem joining_compileFrom {operator : String} {operand : Operand} {entity : EntityType}
    {tableAlias : String} {before way : List String} {e : Expr} {d d' : Draft}
    (h : Gives (Predicate.compileFrom s vars operator operand entity tableAlias before way)
      d e d') :
    Joining d d' fun path => ∃ q, q ≠ [] ∧ q <+: way.dropLast ∧ path = before ++ q := by
  induction way generalizing d entity tableAlias before with
  | nil => exact absurd h gives_throw
  | cons segment rest ih =>
    unfold Predicate.compileFrom at h
    split at h
    case h_2 => exact absurd h gives_throw
    next field found =>
    dsimp only at h
    split at h
    · -- The field is reached, and nothing is joined any more.
      split at h
      · next op supported =>
        refine joining_nothing (Keeps.comparison Predicate.cumulative_keepsJoins
          Predicate.keepsJoins_bindValue _ _ _ _ _ _ _ _ _ h) ?_
        rintro path ⟨q, some, prefixed, -⟩
        exact some (List.prefix_nil.1 prefixed)
      · exact absurd h gives_throw
    · exact absurd h gives_throw
    · exact absurd h gives_throw
    · -- One more association is joined.
      next rest _ _ scalar inside =>
      obtain ⟨⟨next, target⟩, d₁, join, h⟩ := gives_bind.1 h
      refine (joining_join join).trans (ih h) fun path => ?_
      have dropped : (segment :: rest).dropLast = segment :: rest.dropLast :=
        List.dropLast_cons_of_ne_nil (by simpa using inside)
      rw [dropped]
      constructor
      · rintro ⟨q, some, prefixed, rfl⟩
        obtain ⟨x, q, rfl⟩ := List.exists_cons_of_ne_nil some
        obtain ⟨rfl, further⟩ := List.cons_prefix_cons.1 prefixed
        cases q with
        | nil => exact .inl rfl
        | cons y q => exact .inr ⟨y :: q, List.cons_ne_nil _ _, further, by simp⟩
      · rintro (rfl | ⟨q, some, prefixed, rfl⟩)
        · exact ⟨[segment], List.cons_ne_nil _ _, by simp, rfl⟩
        · exact ⟨segment :: q, List.cons_ne_nil _ _, List.cons_prefix_cons.2 ⟨rfl, prefixed⟩,
            by simp⟩

/-- A leaf joins the paths that it passes. -/
theorem joining_compileLeaf {root : EntityType} {leaf : FilterLeaf} {e : Expr} {d d' : Draft}
    (h : Gives (Predicate.compileLeaf s root vars leaf) d e d') : Joining d d' leaf.Passes := by
  simp only [Predicate.compileLeaf] at h
  split at h
  · exact absurd h gives_throw
  · intro path
    rw [joining_compileFrom h path]
    refine or_congr_right ⟨?_, fun passes => ⟨path, passes.1, passes.2, rfl⟩⟩
    rintro ⟨q, some, prefixed, rfl⟩
    exact ⟨some, prefixed⟩

/-- Several leaves join those that one of them passes. -/
theorem joining_compileLeaves {root : EntityType} {leaves : List FilterLeaf} {es : List Expr}
    {d d' : Draft} (h : Gives (Predicate.compileLeaves s root vars leaves) d es d') :
    Joining d d' fun path => ∃ leaf ∈ leaves, leaf.Passes path := by
  simp only [Predicate.compileLeaves] at h
  induction leaves generalizing d es with
  | nil =>
    obtain ⟨-, rfl⟩ := gives_pure.1 h
    refine joining_nothing rfl ?_
    rintro path ⟨leaf, mem, -⟩
    cases mem
  | cons leaf leaves ih =>
    rw [List.mapM_cons, gives_bind] at h
    obtain ⟨e, d₁, first, h⟩ := h
    obtain ⟨es, d₂, others, h⟩ := gives_bind.1 h
    obtain ⟨-, rfl⟩ := gives_pure.1 h
    refine (joining_compileLeaf first).trans (ih others) fun path => ?_
    rw [List.exists_mem_cons_iff]

/-- Compiling a filter joins the associations in front of the fields of its
leaves. -/
theorem joining_compileFilter {root : EntityType} {filter : Option Filter}
    {condition : Option Expr} {d d' : Draft}
    (h : Gives (Planning.compileFilter s root vars filter) d condition d') :
    Joining d d' fun path => ∃ f, filter = some f ∧ ∃ leaf ∈ f.leaves, leaf.Passes path := by
  cases filter with
  | none =>
    obtain ⟨-, rfl⟩ := gives_pure.1 h
    refine joining_nothing rfl ?_
    rintro path ⟨f, none, -⟩
    cases none
  | some f =>
    obtain ⟨e, d₁, compiled, h⟩ := gives_bind.1 h
    obtain ⟨-, rfl⟩ := gives_pure.1 h
    obtain ⟨es, leaves⟩ := (Predicate.compile_iff_leaves f).1 ⟨e, compiled⟩
    intro path
    rw [joining_compileLeaves leaves path]
    refine or_congr_right ⟨fun passes => ⟨f, rfl, passes⟩, ?_⟩
    rintro ⟨_, ⟨⟩, passes⟩
    exact passes

end Planner

/-- The paths that a plan uses: those of the associations requested in its
selection, and those in front of the fields of its filter. -/
def Planning.Uses (requested : List Document.Field) (filter : Option Filter)
    (path : List String) : Prop :=
  Document.Requests requested path ∨ ∃ f, filter = some f ∧ ∃ leaf ∈ f.leaves, leaf.Passes path

open Planner in
/-- A plan joins the paths that it uses, and no others. -/
theorem Planning.joined_iff {s : QuerySchema} {vars : Variables} {field : Document.Field}
    {plan : RootPlan} (h : planRootField s vars field = .ok plan) :
    ∃ select, field.selection = [select] ∧ ∀ path,
      path ∈ plan.query.joins.map (·.path) ↔ Uses select.selection plan.filter path := by
  obtain ⟨entity, d, condition, root, run, query⟩ := planRootField_eq_ok h
  obtain ⟨d₁, selected, -, compiled⟩ := gives_planParts.1 run
  obtain ⟨select, only, joins⟩ := joining_planRoot selected
  refine ⟨select, only, fun path => ?_⟩
  rw [query]
  show path ∈ d.joins.map (·.path) ↔ _
  rw [joining_compileFilter compiled path, joins path]
  simp [Uses, Draft.empty]

end EntityQuery
