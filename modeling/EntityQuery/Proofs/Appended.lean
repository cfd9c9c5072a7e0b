/-
EntityQuery/Proofs/Appended.lean

Compiling only appends.

Filters may be compiled one after another on one draft, and one that fails in
the middle leaves what its first leaves joined and bound.  Still every call
only adds at the ends of the draft, under names that nothing had before
(`Draft.Appends`).  Names come from the places of what they name, so this
rests on one invariant, that the names of the draft are numbered
(`Draft.Numbered`).  Binding and joining keep it, so a call keeps it however
it ends (`Planner.Leaves.compile`), and so does any run of calls.

An expression reads names of the draft that it was compiled on, and nothing
else (`writes_compile`).  What later calls bind and join has other names, so
the expression keeps its value on every binding that the later joins extend
(`Store.eval_frame`).
-/
import EntityQuery.Proofs.Admissible
import EntityQuery.Proofs.Sound
import EntityQuery.Proofs.WellFormed

namespace EntityQuery

theorem Fresh.of_append {taken names : List String} (h : (taken ++ names).Nodup) :
    Fresh taken names := by
  obtain ⟨-, distinct, apart⟩ := List.nodup_append.1 h
  exact ⟨distinct, fun n hn again => apart n again n hn rfl⟩

/-! ### What is added to a draft -/

namespace Draft

/-- The joins and the values of the draft are called by their places. -/
structure Numbered (d : Draft) : Prop where
  joins : d.joins.Numbered
  parameters : d.parameters.Sequential

/-- The joins and the values came to the ends of the draft, under new names.
Every value that was bound keeps its name, and every path its alias. -/
structure Appends (d d' : Draft) (joined : Joins) (bound : Parameters) : Prop where
  joins : d'.joins = d.joins ++ joined
  parameters : d'.parameters = d.parameters ++ bound
  values : ∀ name value, Keyed.find? d.parameters name = some value →
    Keyed.find? d'.parameters name = some value
  paths : ∀ path a, Joins.aliasOf? d.joins path = some a → Joins.aliasOf? d'.joins path = some a
  aliases : Fresh d.aliases (joined.map (·.tableAlias))
  names : Fresh (Keyed.keys d.parameters) (Keyed.keys bound)

variable {d d' : Draft}

/-- A draft that grows to one with numbered names got new names only. -/
theorem Grows.appends (h : d.Grows d') (numbered : d'.Numbered) :
    ∃ joined bound, d.Appends d' joined bound := by
  obtain ⟨joined, joins⟩ := h.joins
  obtain ⟨bound, parameters⟩ := h.parameters
  refine ⟨joined, bound, joins.symm, parameters.symm, ?_, ?_, ?_, ?_⟩
  · intro name value
    exact Keyed.find?_mono h.parameters
  · intro path a
    exact Joins.aliasOf?_mono h.joins
  · have distinct := numbered.joins.nodup_aliases
    rw [← joins, List.map_append] at distinct
    exact Fresh.of_append distinct
  · have distinct := numbered.parameters.nodup
    rw [← parameters, Keyed.keys, List.map_append] at distinct
    exact Fresh.of_append distinct

end Draft

/-! ### Calls on one draft -/

namespace Predicate

open Planner

variable (schema : QuerySchema) (root : EntityType)

/-- The draft after filters were compiled one after another, each with its own
variables.  What a filter added stays, also when it failed. -/
def afterAll (calls : List (Variables × Filter)) (d : Draft) : Draft :=
  calls.foldl (fun d call => ((compile schema root call.1 call.2).run d).2) d

/-- A call keeps the names numbered, however it ends. -/
theorem numbered_compile (vars : Variables) (f : Filter) {d : Draft} (h : d.Numbered) :
    ((compile schema root vars f).run d).2.Numbered where
  joins := Leaves.compile cumulative_numbered numbered_bindValue numbered_join schema root vars f d
    h.joins
  parameters := Leaves.compile cumulative_sequential sequential_bindValue sequential_join schema
    root vars f d h.parameters

/-- Compiling only adds to a draft, whether it gives something or not. -/
theorem grows_compile (vars : Variables) (f : Filter) (d : Draft) :
    d.Grows ((compile schema root vars f).run d).2 :=
  Leaves.compile cumulative_grows grows_bindValue grows_join schema root vars f d

/-- Calls leave a draft numbered, also those that fail on the way. -/
theorem numbered_afterAll (calls : List (Variables × Filter)) {d : Draft} (h : d.Numbered) :
    (afterAll schema root calls d).Numbered := by
  induction calls generalizing d with
  | nil => exact h
  | cons call calls ih => exact ih (numbered_compile schema root call.1 call.2 h)

/-- Calls only add to a draft. -/
theorem grows_afterAll (calls : List (Variables × Filter)) (d : Draft) :
    d.Grows (afterAll schema root calls d) := by
  induction calls generalizing d with
  | nil => exact Draft.Grows.refl d
  | cons call calls ih => exact (grows_compile schema root call.1 call.2 d).trans (ih _)

end Predicate

/-! ### Expressions among more names -/

namespace Store

variable {ps qs : Parameters} {binding binding' : Binding}

mutual

/-- **An expression has the same value wherever its names stand for the
same.** -/
theorem eval_frame (e : Expr)
    (aliases : ∀ a ∈ e.aliases, Keyed.find? binding' a = Keyed.find? binding a)
    (names : ∀ n ∈ e.parameters, Keyed.find? qs n = Keyed.find? ps n) :
    eval qs binding' e = eval ps binding e := by
  cases e with
  | literal value => rfl
  | column a name => simp only [eval, columnValue, aliases a List.mem_cons_self]
  | parameter name => simp only [eval, parameterValue, names name List.mem_cons_self]
  | list items =>
    rw [eval, eval, evalAll_frame items aliases names]
  | toText inner =>
    rw [eval, eval, eval_frame inner aliases names]
  | locate needle haystack =>
    obtain ⟨inNeedle, inHaystack⟩ := List.forall_mem_append.1 aliases
    obtain ⟨ofNeedle, ofHaystack⟩ := List.forall_mem_append.1 names
    rw [eval, eval, eval_frame haystack inHaystack ofHaystack, eval_frame needle inNeedle ofNeedle]
  | sameDocument left right =>
    obtain ⟨inLeft, inRight⟩ := List.forall_mem_append.1 aliases
    obtain ⟨ofLeft, ofRight⟩ := List.forall_mem_append.1 names
    rw [eval, eval, eval_frame left inLeft ofLeft, eval_frame right inRight ofRight]
  | apply operator operands =>
    rw [eval, eval, evalAll_frame operands aliases names]

theorem evalAll_frame (es : List Expr)
    (aliases : ∀ a ∈ Expr.aliasesOf es, Keyed.find? binding' a = Keyed.find? binding a)
    (names : ∀ n ∈ Expr.parametersOf es, Keyed.find? qs n = Keyed.find? ps n) :
    evalAll qs binding' es = evalAll ps binding es := by
  cases es with
  | nil => rfl
  | cons e es =>
    obtain ⟨inFirst, inOthers⟩ := List.forall_mem_append.1 aliases
    obtain ⟨ofFirst, ofOthers⟩ := List.forall_mem_append.1 names
    rw [evalAll, evalAll, eval_frame e inFirst ofFirst, evalAll_frame es inOthers ofOthers]

end

/-- The second binding is the first one with a row, or nothing, bound to the
alias of each join. -/
inductive Extends : Joins → Binding → Binding → Prop
  | nil (binding : Binding) : Extends [] binding binding
  | cons {j : Join} {js : Joins} {binding binding' : Binding} (row : Option Row)
      (rest : Extends js (Keyed.put j.tableAlias row binding) binding') :
      Extends (j :: js) binding binding'

/-- Other aliases are bound to what they were bound to. -/
theorem Extends.find? {joins : Joins} (h : Extends joins binding binding') {a : String}
    (other : a ∉ joins.map (·.tableAlias)) : Keyed.find? binding' a = Keyed.find? binding a := by
  induction h with
  | nil binding => rfl
  | cons row rest ih =>
    rw [List.map_cons, List.mem_cons, not_or] at other
    obtain ⟨here, later⟩ := other
    rw [ih later, Keyed.find?_put_of_ne _ _ here]

end Store

namespace Tables

open Store

variable {tables : Tables} {ps : Parameters}

/-- A binding that was found by a join differs from the one before in the alias
of the join alone. -/
theorem mem_matching {a : String} {condition : Expr} {binding : Binding} {rows : List Row}
    {found : List Binding} (h : matching ps a condition binding rows = .ok found) :
    ∀ b ∈ found, ∃ row, b = Keyed.put a (some row) binding := by
  induction rows generalizing found with
  | nil =>
    cases h
    exact List.forall_mem_nil _
  | cons row rows ih =>
    obtain ⟨value, -, h⟩ := Outcome.bind_eq_ok.1 h
    obtain ⟨others, more, h⟩ := Outcome.bind_eq_ok.1 h
    cases h
    split
    · exact List.forall_mem_cons.2 ⟨⟨row, rfl⟩, ih more⟩
    · exact ih more

theorem mem_extend {j : Join} {binding : Binding} {found : List Binding}
    (h : extend tables ps j binding = .ok found) :
    ∀ b ∈ found, ∃ row, b = Keyed.put j.tableAlias row binding := by
  obtain ⟨hits, searched, h⟩ := Outcome.bind_eq_ok.1 h
  -- A join without a hit keeps the binding once, with no row.
  split at h
  · cases h
    exact List.forall_mem_singleton.2 ⟨none, rfl⟩
  · cases h
    intro b hb
    obtain ⟨row, e⟩ := mem_matching searched b hb
    exact ⟨some row, e⟩

/-- The store extends bindings by joins, and does nothing else to them. -/
theorem extends_of_mem_joinAll {joins : Joins} {bindings found : List Binding}
    (h : joinAll tables ps bindings joins = .ok found) :
    ∀ b' ∈ found, ∃ b ∈ bindings, Extends joins b b' := by
  induction joins generalizing bindings with
  | nil =>
    cases h
    exact fun b hb => ⟨b, hb, .nil b⟩
  | cons j js ih =>
    obtain ⟨lists, extended, h⟩ := Outcome.bind_eq_ok.1 h
    intro b' hb'
    obtain ⟨b₁, hb₁, rest⟩ := ih h b' hb'
    obtain ⟨list, hl, hb₁⟩ := List.mem_flatten.1 hb₁
    obtain ⟨b, hb, step⟩ := Outcome.exists_of_mem_mapM extended hl
    obtain ⟨row, rfl⟩ := mem_extend step b₁ hb₁
    exact ⟨b, hb, .cons row rest⟩

end Tables

/-! ### Expressions of earlier calls -/

namespace Predicate

open Planner Store

variable {schema : QuerySchema} {root : EntityType} {vars : Variables} {f : Filter}

/-- The condition of a filter keeps its value when names are added to the draft
and the binding gets rows for the new joins. -/
theorem eval_of_appends {e : Expr} {d₁ d₂ d₃ : Draft} {joined : Joins} {bound : Parameters}
    (compiled : Gives (compile schema root vars f) d₁ e d₂) (appends : d₂.Appends d₃ joined bound)
    {binding binding' : Binding} (extended : Extends joined binding binding') :
    eval d₃.parameters binding' e = eval d₂.parameters binding e := by
  have writes := writes_compile compiled
  refine eval_frame e (fun a ha => ?_) fun n hn => ?_
  · have inScope : a ∈ d₂.aliases := writes.aliases a ha
    exact extended.find? fun new => appends.aliases.2 a new inScope
  · have named : n ∈ Keyed.keys d₂.parameters := by
      rw [writes.names]
      exact List.mem_append_right _ hn
    obtain ⟨value, found⟩ := Option.isSome_iff_exists.1 (Keyed.isSome_find?.2 named)
    rw [found, appends.values n value found]

/-- **Compiling only appends.**  Each of the filters that are compiled one after
another on one draft adds joins and values with new names to what the filters
before it left, whether it succeeds or fails.  So the condition of a filter that
succeeded has the same value after all later ones, on every binding that their
joins extend. -/
theorem compile_appends {d : Draft} (numbered : d.Numbered)
    {earlier : List (Variables × Filter)} {outcome : Except PlanError Expr} {d₁ d₂ : Draft}
    (before : afterAll schema root earlier d = d₁)
    (call : (compile schema root vars f).run d₁ = (outcome, d₂)) :
    (∃ joined bound, d₁.Appends d₂ joined bound) ∧
    ∀ (later : List (Variables × Filter)) (d₃ : Draft), afterAll schema root later d₂ = d₃ →
      ∃ joined bound, d₂.Appends d₃ joined bound ∧ ∀ e, outcome = .ok e →
        (∀ binding binding', Extends joined binding binding' →
          eval d₃.parameters binding' e = eval d₂.parameters binding e) ∧
        ∀ tables binding found, Tables.joinAll tables d₃.parameters [binding] joined = .ok found →
          ∀ binding' ∈ found, eval d₃.parameters binding' e = eval d₂.parameters binding e := by
  subst before
  obtain rfl : ((compile schema root vars f).run _).2 = d₂ := congrArg Prod.snd call
  have numbered₁ := numbered_afterAll schema root earlier numbered
  have numbered₂ := numbered_compile schema root vars f numbered₁
  refine ⟨(grows_compile schema root vars f _).appends numbered₂, ?_⟩
  rintro later _ rfl
  obtain ⟨joined, bound, appends⟩ := (grows_afterAll schema root later _).appends
    (numbered_afterAll schema root later numbered₂)
  refine ⟨joined, bound, appends, ?_⟩
  rintro e rfl
  -- Names of parameters and aliases that the expression uses were there before,
  -- so that the frame lemma applies to whatever is appended.
  have kept : ∀ binding binding', Extends joined binding binding' → _ :=
    fun binding binding' extended => eval_of_appends call appends extended
  refine ⟨kept, fun tables binding found joins binding' hb => ?_⟩
  obtain ⟨b, hb, extended⟩ := Tables.extends_of_mem_joinAll joins binding' hb
  rw [List.mem_singleton.1 hb] at extended
  exact kept binding binding' extended

end Predicate

namespace Sample

/-- The title is `x`, and so is that of the author, who has none. -/
def bothTitled : Filter := .and [titled, .leaf authorTitled]

/-- One of the books of the author is called `x`. -/
def alsoTitled : Filter := .leaf ⟨["author", "books", "title"], "EQ", .constant (.string "x")⟩

/-- What a filter that fails leaves. -/
def spoilt : Draft := Predicate.afterAll schema books [([], bothTitled)] Draft.empty

end Sample

open Predicate Planner Store in
/-- In the library, a filter that fails leaves a value and a join.  The one after
it appends to them, and its condition has the same value after a third one, with
nothing bound for the join of that one. -/
theorem compile_appends_library :
    ((compile Sample.schema Sample.books [] Sample.bothTitled).run Draft.empty).1 =
        .error (.unknownField "Author" "title") ∧
      Sample.spoilt.aliases = ["t0", "t1"] ∧ Keyed.keys Sample.spoilt.parameters = ["p0"] ∧
      ∃ e d, Gives (compile Sample.schema Sample.books [] Sample.titled) Sample.spoilt e d ∧
        (∃ joined bound, Sample.spoilt.Appends d joined bound) ∧
        eval (afterAll Sample.schema Sample.books [([], Sample.alsoTitled)] d).parameters
            (Keyed.put "t2" none Sample.binding) e =
          eval d.parameters Sample.binding e := by
  refine ⟨rfl, rfl, rfl, _, _, rfl, ?_⟩
  have compiled : (compile Sample.schema Sample.books [] Sample.titled).run Sample.spoilt =
    (.ok _, _) := rfl
  have numbered : Draft.empty.Numbered := ⟨Joins.numbered_nil, rfl⟩
  have before : afterAll Sample.schema Sample.books [([], Sample.bothTitled)] Draft.empty =
    Sample.spoilt := rfl
  obtain ⟨appends, later⟩ := compile_appends numbered before compiled
  refine ⟨appends, ?_⟩
  obtain ⟨joined, bound, added, same⟩ := later [([], Sample.alsoTitled)] _ rfl
  obtain ⟨j, rfl, named⟩ : ∃ j, joined = [j] ∧ j.tableAlias = "t2" :=
    ⟨_, List.append_cancel_left added.joins.symm, rfl⟩
  refine (same _ rfl).1 _ _ (.cons none ?_)
  rw [named]
  exact .nil _

end EntityQuery
