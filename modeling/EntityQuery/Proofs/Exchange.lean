/-
EntityQuery/Proofs/Exchange.lean

Joins in another order.

The rows that a join goes on with depend on the row that was chosen for the
path before its own, and on nothing else.  So two joins that follow each other
may change places unless the second leads on from the first, and the same
choices of rows come out, each as often (`choices_move`).  Joins of the same
paths, in any two orders in which no path comes before the one it leads on
from, therefore make the same choices (`choices_perm`).

The bindings that come out of the joins of a plan make just these choices
(`map_choiceOf_spread`), whatever the aliases are.
-/
import EntityQuery.Proofs.Rows
import Mathlib.Data.List.Perm.Basic

namespace EntityQuery

open Store Joins

/-! ### Choices along paths -/

/-- The rows to go on with for a path, after the choice of a row for the path
before it. -/
def QuerySchema.optionsAt (s : QuerySchema) (root : EntityType) (tables : Tables)
    (choice : Choice) (path : List String) : List (Option Row) :=
  match s.associationAt root path with
  | some A => A.options tables (choice path.dropLast)
  | none => []

namespace Tables

variable (s : QuerySchema) (root : EntityType) (tables : Tables)

/-- The ways of choosing rows for paths, one path after another. -/
def choices : List (List String) → Choice → List Choice
  | [], choice => [choice]
  | path :: paths, choice =>
    (s.optionsAt root tables choice path).flatMap fun row =>
      choices paths (Function.update choice path row)

/-! ### Paths that change places -/

/-- Going through two lists, one inside the other, in either order. -/
theorem flatMap_comm {α β γ : Type} (xs : List α) (ys : List β) (f : α → β → List γ) :
    (xs.flatMap fun x => ys.flatMap (f x)).Perm (ys.flatMap fun y => xs.flatMap (f · y)) := by
  induction xs with
  | nil => simp
  | cons x xs ih =>
    simp only [List.flatMap_cons]
    exact (ih.append_left _).trans (List.flatMap_append_perm ys (f x) _)

variable {s root tables}

/-- A path may come first, if nothing before it leads on to it or from it. -/
theorem choices_move {before after : List (List String)} {path : List String}
    (apart : ∀ q ∈ before, q ≠ path ∧ q.dropLast ≠ path ∧ path.dropLast ≠ q) (choice : Choice) :
    (choices s root tables (before ++ path :: after) choice).Perm
      (choices s root tables (path :: (before ++ after)) choice) := by
  induction before generalizing choice with
  | nil => exact .refl _
  | cons q before ih =>
    obtain ⟨⟨ne, onto, from'⟩, apart⟩ := List.forall_mem_cons.1 apart
    -- Neither choice changes what the other chooses from.
    have first : ∀ row, s.optionsAt root tables (Function.update choice q row) path =
        s.optionsAt root tables choice path := by
      intro row
      simp only [QuerySchema.optionsAt]
      rw [Function.update_of_ne from']
    have second : ∀ row, s.optionsAt root tables (Function.update choice path row) q =
        s.optionsAt root tables choice q := by
      intro row
      simp only [QuerySchema.optionsAt]
      rw [Function.update_of_ne onto]
    have moved := List.Perm.flatMap_left (s.optionsAt root tables choice q) fun row _ =>
      ih apart (Function.update choice q row)
    simp only [choices, List.cons_append, first, second] at moved ⊢
    refine moved.trans ((flatMap_comm _ _ _).trans ?_)
    simp only [Function.update_comm ne]
    exact .refl _

/-- Joins of the same paths make the same choices, if in neither order a path
comes before the one it leads on from. -/
theorem choices_perm {ps qs : List (List String)} (perm : ps.Perm qs) (nodup : ps.Nodup)
    (hp : ps.Pairwise fun p later => p.dropLast ≠ later)
    (hq : qs.Pairwise fun q later => q.dropLast ≠ later) (choice : Choice) :
    (choices s root tables ps choice).Perm (choices s root tables qs choice) := by
  induction ps generalizing qs choice with
  | nil =>
    rw [perm.nil_eq]
  | cons path ps ih =>
    obtain ⟨fresh, nodup⟩ := List.nodup_cons.1 nodup
    obtain ⟨below, hp⟩ := List.pairwise_cons.1 hp
    -- The path chosen first here is moved to the front there, past paths neither
    -- above nor below it.
    obtain ⟨before, after, rfl⟩ := List.append_of_mem (perm.mem_iff.1 List.mem_cons_self)
    have rest : ps.Perm (before ++ after) := (perm.trans List.perm_middle).cons_inv
    have apart : ∀ q ∈ before, q ≠ path ∧ q.dropLast ≠ path ∧ path.dropLast ≠ q := by
      intro q hm
      have later : q ∈ ps := rest.mem_iff.2 (List.mem_append_left _ hm)
      refine ⟨fun e => fresh (e ▸ later), ?_, below q later⟩
      exact (List.pairwise_append.1 hq).2.2 q hm path List.mem_cons_self
    have hq : (before ++ after).Pairwise fun q later => q.dropLast ≠ later :=
      hq.sublist ((List.Sublist.refl before).append (List.sublist_cons_self _ _))
    refine List.Perm.trans ?_ (choices_move apart choice).symm
    exact List.Perm.flatMap_left _ fun row _ => ih rest nodup hp hq _

end Tables

/-! ### Choices that bindings make -/

namespace Joins

variable {s : QuerySchema} {root : EntityType} {joins : Joins} {binding : Binding}

theorem Follows.path_ne_nil {j : Join} (h : Follows s root joins j) : j.path ≠ [] := by
  cases h
  simp

/-- One more join changes the choice at its own path. -/
theorem choiceOf_concat {j : Join} (planned : Planned s root (joins ++ [j]))
    (spans : Spans joins binding) (row : Option Row) :
    choiceOf (joins ++ [j]) (binding ++ [(j.tableAlias, row)]) =
      Function.update (choiceOf joins binding) j.path row := by
  obtain ⟨earlier, -, follows⟩ := planned.follows rfl
  funext path
  -- At its own path a join makes its choice; at every other path nothing changes.
  by_cases own : path = j.path
  · have joined := (planned.aliases (List.mem_append_right _ List.mem_cons_self)).1
    have fresh : j.tableAlias ∉ Keyed.keys binding := by
      rw [follows.tableAlias]
      exact nextAlias_not_mem earlier.numbered spans
    rw [own, Function.update_self, choiceOf_last joined fresh]
  · rw [Function.update_of_ne own]
    cases joined : aliasOf? joins path with
    | some a =>
      exact choiceOf_mono joined (List.prefix_append _ _) spans.covers (List.prefix_append _ _)
    | none =>
      have none : aliasOf? (joins ++ [j]) path = none := by
        by_contra some
        obtain ⟨a, found⟩ := Option.ne_none_iff_exists'.1 some
        rcases aliasOf?_append_singleton found with before | e
        · rw [joined] at before
          cases before
        · exact own e
      simp only [choiceOf]
      rw [joined, none]
      rfl

/-- No path of a plan comes before the one it leads on from. -/
theorem Planned.pairwise (planned : Planned s root joins) :
    (joins.map (·.path)).Pairwise fun p later => p.dropLast ≠ later := by
  induction planned with
  | nil => exact .nil
  | @concat joins last planned new follows ih =>
    rw [List.map_append, List.pairwise_append]
    refine ⟨ih, List.pairwise_singleton _ _, ?_⟩
    intro p hp later hl
    obtain ⟨j, hj, rfl⟩ := List.mem_map.1 hp
    rw [List.map_singleton, List.mem_singleton] at hl
    subst hl
    intro e
    -- The path before that of `j` is joined already.
    obtain ⟨-, a, parent⟩ := planned.aliases hj
    rw [e, aliasOf?, if_neg (by simpa using follows.path_ne_nil), new] at parent
    cases parent

end Joins

namespace Tables

variable {s : QuerySchema} {root : EntityType} {tables : Tables}

/-- What comes out of the joins of a plan are the choices along their
paths. -/
theorem map_choiceOf_spread {before joins : Joins} (planned : Planned s root (before ++ joins))
    {binding : Binding} (spans : Spans before binding) :
    (tables.spread joins binding).map (choiceOf (before ++ joins)) =
      choices s root tables (joins.map (·.path)) (choiceOf before binding) := by
  induction joins generalizing before binding with
  | nil => simp [spread, choices]
  | cons j joins ih =>
    obtain ⟨earlier, -, follows⟩ := planned.follows rfl
    obtain ⟨A, association, stepped⟩ := tables.step_eq earlier.numbered follows spans
    rw [List.append_cons] at planned ⊢
    have one := planned.earlier
    have options : s.optionsAt root tables (choiceOf before binding) j.path =
        A.options tables (choiceOf before binding j.path.dropLast) := by
      simp only [QuerySchema.optionsAt]
      rw [association]
    rw [spread, stepped, List.map_cons, choices, options, List.flatMap_map, List.map_flatMap]
    refine List.flatMap_congr fun row _ => ?_
    rw [ih planned (spans.concat j row), choiceOf_concat one spans row]

/-- Two plans that go on from the same joins with the same paths make the same
choices from a binding, each as often. -/
theorem perm_choiceOf_spread {before joins joins' : Joins}
    (planned : Planned s root (before ++ joins)) (planned' : Planned s root (before ++ joins'))
    (paths : ∀ path, path ∈ (before ++ joins).map (·.path) ↔
      path ∈ (before ++ joins').map (·.path))
    {binding : Binding} (spans : Spans before binding) :
    ((tables.spread joins binding).map (choiceOf (before ++ joins))).Perm
      ((tables.spread joins' binding).map (choiceOf (before ++ joins'))) := by
  have nodup := planned.numbered.paths
  have nodup' := planned'.numbered.paths
  have pairwise := planned.pairwise
  have pairwise' := planned'.pairwise
  rw [List.map_append] at nodup nodup' pairwise pairwise'
  simp only [List.map_append, List.mem_append] at paths
  -- Paths joined before are on neither side, since each is joined once.
  have perm : (joins.map (·.path)).Perm (joins'.map (·.path)) := by
    refine (List.perm_ext_iff_of_nodup nodup.of_append_right nodup'.of_append_right).2 fun p => ?_
    have apart := List.disjoint_of_nodup_append nodup
    have apart' := List.disjoint_of_nodup_append nodup'
    constructor
    · intro hp
      exact ((paths p).1 (.inr hp)).resolve_left fun hb => apart hb hp
    · intro hp
      exact ((paths p).2 (.inr hp)).resolve_left fun hb => apart' hb hp
  rw [map_choiceOf_spread planned spans, map_choiceOf_spread planned' spans]
  exact choices_perm perm nodup.of_append_right (List.pairwise_append.1 pairwise).2.1
    (List.pairwise_append.1 pairwise').2.1 _

end Tables

end EntityQuery
