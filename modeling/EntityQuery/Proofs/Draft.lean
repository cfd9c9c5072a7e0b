/-
EntityQuery/Proofs/Draft.lean

The draft of a query only grows, and its names are numbered.

The four primitive steps add something at the end of the draft or leave it
alone, so the draft after a whole plan begins with the draft before it
(`Draft.Grows`).  The values of a draft are called `p0`, `p1` and so on in
the order of binding (`Parameters.Sequential`), the joins `t1`, `t2` and so
on, and no path is joined twice (`Joins.Numbered`).  Numbered names are all
different, and this is what lets a value or a table that was added first be
found later on, whatever was added in between.
-/
import EntityQuery.Proofs.Step
import Mathlib.Data.List.Infix
import Mathlib.Data.List.Range
import Std.Data.String.ToNat

namespace EntityQuery

/-! ### Numbered names -/

theorem append_toString_injective (letter : String) :
    Function.Injective fun i : Nat => letter ++ toString i := by
  intro i j h
  have chars := congrArg String.toList h
  simp only [String.toList_append, List.append_cancel_left_eq] at chars
  exact Nat.repr_injective (String.toList_inj.1 chars)

namespace Parameters

/-- The name of the value in a place. -/
def nameAt (i : Nat) : String := "p" ++ toString i

/-- Different numbers make different names of parameters. -/
theorem nameAt_injective : Function.Injective nameAt := append_toString_injective "p"

/-- The values are called by their places. -/
def Sequential (ps : Parameters) : Prop :=
  Keyed.keys ps = (List.range ps.length).map nameAt

/-- The next name is new. -/
theorem Sequential.nextName_not_mem {ps : Parameters} (h : ps.Sequential) :
    nextName ps ∉ Keyed.keys ps := by
  rw [h]
  intro hm
  obtain ⟨i, hi, e⟩ := List.mem_map.1 hm
  have : i = ps.length := nameAt_injective e
  rw [List.mem_range] at hi
  omega

/-- Binding a value under it keeps names in sequence. -/
theorem Sequential.append {ps : Parameters} (h : ps.Sequential) (value : Json) :
    Sequential (ps ++ [(nextName ps, value)]) := by
  simp only [Sequential, Keyed.keys]
  rw [List.map_append, List.length_append, List.length_singleton, List.range_succ,
    List.map_append]
  exact congrArg (· ++ [nextName ps]) h

/-- Names in sequence are different. -/
theorem Sequential.nodup {ps : Parameters} (h : ps.Sequential) : (Keyed.keys ps).Nodup := by
  rw [h]
  exact List.Nodup.map nameAt_injective List.nodup_range

end Parameters

namespace Joins

/-- The alias of the join in a place. -/
def aliasAt (i : Nat) : String := "t" ++ toString (i + 1)

theorem aliasAt_injective : Function.Injective aliasAt := by
  intro i j h
  exact Nat.succ_injective (append_toString_injective "t" h)

/-- No join has the alias of the root. -/
theorem aliasAt_ne_root (i : Nat) : aliasAt i ≠ rootAlias := by
  intro h
  exact Nat.succ_ne_zero i (append_toString_injective "t" h)

/-- The joins are called by their places, and every path is joined once. -/
structure Numbered (joins : Joins) : Prop where
  aliases : joins.map (·.tableAlias) = (List.range joins.length).map aliasAt
  paths : (joins.map (·.path)).Nodup

theorem numbered_nil : Numbered [] := ⟨rfl, List.nodup_nil⟩

theorem find?_eq_none {joins : Joins} {path : List String} :
    find? joins path = none ↔ path ∉ joins.map (·.path) := by
  simp only [find?]
  rw [List.find?_eq_none]
  simp

/-- A join of a new path under the next alias keeps joins numbered. -/
theorem Numbered.append {joins : Joins} (h : joins.Numbered) {j : Join}
    (new : find? joins j.path = none) (numbered : j.tableAlias = nextAlias joins) :
    Numbered (joins ++ [j]) := by
  constructor
  · rw [List.map_append, List.length_append, List.length_singleton, List.range_succ,
      List.map_append, h.aliases, List.map_singleton, numbered]
    rfl
  · rw [List.map_append, List.map_singleton]
    exact h.paths.append (List.nodup_singleton _) (by simpa using find?_eq_none.1 new)

/-- No two tables of a query have one alias. -/
theorem Numbered.nodup_aliases {joins : Joins} (h : joins.Numbered) :
    (rootAlias :: joins.map (·.tableAlias)).Nodup := by
  rw [h.aliases]
  refine List.nodup_cons.2 ⟨?_, List.Nodup.map aliasAt_injective List.nodup_range⟩
  intro root
  obtain ⟨i, -, e⟩ := List.mem_map.1 root
  exact aliasAt_ne_root i e

end Joins

/-! ### The primitive steps -/

namespace Planner

variable {d d' : Draft}

/-- Binding a value adds it under the next name and gives the expression that
reads it. -/
theorem gives_bindValue {value : Json} {e : Expr} :
    Gives (bindValue value) d e d' ↔ e = .parameter d.parameters.nextName ∧
      d' = { d with parameters := d.parameters ++ [(d.parameters.nextName, value)] } := by
  simp only [bindValue]
  rw [gives_modifyGet]
  simp only [Parameters.bind, Prod.mk.injEq]
  exact and_congr eq_comm eq_comm

/-- A column is added unless there is one of its name. -/
theorem gives_project {expr : Expr} {name : String} {u : Unit} :
    Gives (project expr name) d u d' ↔ d' =
      if d.columns.any (·.name = name) then d
      else { d with columns := d.columns ++ [⟨expr, name⟩] } := by
  simp only [project]
  rw [gives_modify]
  exact eq_comm

theorem gives_orderBy {expr : Expr} {direction : Direction} {u : Unit} :
    Gives (orderBy expr direction) d u d' ↔
      d' = { d with order := d.order ++ [⟨expr, direction⟩] } := by
  simp only [orderBy]
  rw [gives_modify]
  exact eq_comm

/-- Joining an association goes to its target, whose table is added to the
joins if the path is new. -/
theorem gives_join {schema : QuerySchema} {parent : EntityType} {parentAlias : String}
    {path : List String} {field : SchemaField} {outcome : String × EntityType} :
    Gives (join schema parent parentAlias path field) d outcome d' ↔
      ∃ target joins, field.descriptor.target?.bind schema.entity? = some target ∧
        d.joins.add path field.descriptor parentAlias parent.idColumn
          target.descriptor.qualifiedTable target.idColumn = (outcome.1, joins) ∧
        outcome.2 = target ∧ d' = { d with joins := joins } := by
  simp only [join]
  -- Planning stops where the field leads to no entity.
  split
  · next none =>
    rw [none]
    simp
  · next target found =>
    rw [gives_modifyGet, found]
    obtain ⟨a, e⟩ := outcome
    simp only [Prod.mk.injEq, Option.some.injEq]
    constructor
    · rintro ⟨⟨ha, he⟩, rfl⟩
      exact ⟨target, _, rfl, Prod.ext ha rfl, he.symm, rfl⟩
    · rintro ⟨target', joins, rfl, hadd, he, rfl⟩
      rw [hadd]
      exact ⟨⟨rfl, he.symm⟩, rfl⟩

end Planner

/-! ### Adding a join -/

namespace Joins

/-- Either the path is joined already, or nothing can be joined, or a join
of a new path with the next alias comes to the end. -/
theorem add_cases (joins : Joins) (path : List String) (field : FieldDescriptor)
    (parent parentId table targetId : String) :
    (∃ j, find? joins path = some j ∧
      add joins path field parent parentId table targetId = (j.tableAlias, joins)) ∨
    (find? joins path = none ∧
      sides? field parent parentId (nextAlias joins) targetId = none ∧
      add joins path field parent parentId table targetId = (parent, joins)) ∨
    (∃ left right, find? joins path = none ∧
      sides? field parent parentId (nextAlias joins) targetId = some (left, right) ∧
      add joins path field parent parentId table targetId =
        (nextAlias joins,
          joins ++ [⟨path, table, nextAlias joins, .equal, [left, right], .left⟩])) := by
  -- The path is joined before; the association has no columns to join by; or a join is added.
  unfold add
  split
  · next j found => exact .inl ⟨j, found, rfl⟩
  · next new =>
    dsimp only
    split
    · next none => exact .inr (.inl ⟨new, none, rfl⟩)
    · next left right some => exact .inr (.inr ⟨left, right, new, some, rfl⟩)

theorem add_grows (joins : Joins) (path : List String) (field : FieldDescriptor)
    (parent parentId table targetId : String) :
    joins <+: (add joins path field parent parentId table targetId).2 := by
  rcases add_cases joins path field parent parentId table targetId with
    ⟨j, -, e⟩ | ⟨-, -, e⟩ | ⟨left, right, -, -, e⟩
  · rw [e]
  · rw [e]
  · rw [e]
    exact List.prefix_append _ _

end Joins

/-! ### What the primitive steps keep -/

namespace Draft

/-- Something may have been added at the ends of the draft. -/
structure Grows (d d' : Draft) : Prop where
  joins : d.joins <+: d'.joins
  columns : d.columns <+: d'.columns
  order : d.order <+: d'.order
  parameters : d.parameters <+: d'.parameters

theorem Grows.refl (d : Draft) : d.Grows d :=
  ⟨List.prefix_rfl, List.prefix_rfl, List.prefix_rfl, List.prefix_rfl⟩

theorem Grows.trans {d d₁ d₂ : Draft} (h₁ : d.Grows d₁) (h₂ : d₁.Grows d₂) : d.Grows d₂ :=
  ⟨h₁.joins.trans h₂.joins, h₁.columns.trans h₂.columns, h₁.order.trans h₂.order,
    h₁.parameters.trans h₂.parameters⟩

end Draft

namespace Planner

open Draft

theorem cumulative_grows : Cumulative Grows := ⟨Grows.refl, Grows.trans⟩

theorem grows_bindValue : KeptByBinding Grows := by
  intro value d e d' h
  obtain ⟨-, rfl⟩ := gives_bindValue.1 h
  exact ⟨List.prefix_rfl, List.prefix_rfl, List.prefix_rfl, List.prefix_append _ _⟩

theorem grows_join : KeptByJoining Grows := by
  intro schema parent parentAlias path field d outcome d' h
  obtain ⟨target, joins, -, added, -, rfl⟩ := gives_join.1 h
  refine ⟨?_, List.prefix_rfl, List.prefix_rfl, List.prefix_rfl⟩
  have grown := d.joins.add_grows path field.descriptor parentAlias parent.idColumn
    target.descriptor.qualifiedTable target.idColumn
  rw [added] at grown
  exact grown

theorem grows_project : KeptByProjecting Grows := by
  intro expr name d u d' h
  rw [gives_project.1 h]
  split
  · exact Grows.refl d
  · exact ⟨List.prefix_rfl, List.prefix_append _ _, List.prefix_rfl, List.prefix_rfl⟩

theorem grows_orderBy : KeptByOrdering Grows := by
  intro expr direction d u d' h
  rw [gives_orderBy.1 h]
  exact ⟨List.prefix_rfl, List.prefix_rfl, List.prefix_append _ _, List.prefix_rfl⟩

/-- The change from values called by their places to such values. -/
def StaysSequential (d d' : Draft) : Prop := d.parameters.Sequential → d'.parameters.Sequential

theorem cumulative_sequential : Cumulative StaysSequential :=
  ⟨fun _ h => h, fun h₁ h₂ h => h₂ (h₁ h)⟩

theorem sequential_bindValue : KeptByBinding StaysSequential := by
  intro value d e d' h hd
  obtain ⟨-, rfl⟩ := gives_bindValue.1 h
  exact hd.append value

theorem sequential_join : KeptByJoining StaysSequential := by
  intro schema parent parentAlias path field d outcome d' h hd
  obtain ⟨target, joins, -, -, -, rfl⟩ := gives_join.1 h
  exact hd

/-- The change from joins called by their places to such joins. -/
def StaysNumbered (d d' : Draft) : Prop := d.joins.Numbered → d'.joins.Numbered

theorem cumulative_numbered : Cumulative StaysNumbered :=
  ⟨fun _ h => h, fun h₁ h₂ h => h₂ (h₁ h)⟩

theorem numbered_bindValue : KeptByBinding StaysNumbered := by
  intro value d e d' h hd
  obtain ⟨-, rfl⟩ := gives_bindValue.1 h
  exact hd

theorem numbered_join : KeptByJoining StaysNumbered := by
  intro schema parent parentAlias path field d outcome d' h hd
  obtain ⟨target, joins, -, added, -, rfl⟩ := gives_join.1 h
  show joins.Numbered
  rcases d.joins.add_cases path field.descriptor parentAlias parent.idColumn
      target.descriptor.qualifiedTable target.idColumn with
    ⟨j, -, e⟩ | ⟨-, -, e⟩ | ⟨left, right, new, -, e⟩
  · have same : d.joins = joins := congrArg Prod.snd (e.symm.trans added)
    exact same ▸ hd
  · have same : d.joins = joins := congrArg Prod.snd (e.symm.trans added)
    exact same ▸ hd
  · have longer : d.joins ++ [_] = joins := congrArg Prod.snd (e.symm.trans added)
    exact longer ▸ hd.append new rfl

end Planner

end EntityQuery
