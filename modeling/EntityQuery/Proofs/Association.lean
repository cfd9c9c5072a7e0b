/-
EntityQuery/Proofs/Association.lean

Paths of associations, and the joins of a plan.

A path leads from the root entity over associations to another entity
(`QuerySchema.entityAt`); this is a matter of the schema alone.  Planning
turns paths into joins, and the joins of every plan have one shape
(`Joins.Planned`): each was added at the end, for a path that was not joined
before, with the next alias, and its condition compares a column of its own
table with one of the table at the path before it, which is joined already.

So the joins can be followed from first to last with the table of the parent
always in reach, and the alias of a path never changes once it has one
(`Joins.aliasOf?_mono`).
-/
import EntityQuery.Proofs.Draft

namespace EntityQuery

/-! ### Associations of the schema -/

/-- An association of an entity, with the entity it leads to. -/
structure Association where
  source : EntityType
  field : SchemaField
  target : EntityType

namespace QuerySchema

variable (s : QuerySchema) (root : EntityType)

/-- The association of a name. -/
def association? (source : EntityType) (name : String) : Option Association :=
  match source.field? name with
  | none => none
  | some field =>
    if field.binding.isSome then none
    else (field.descriptor.target?.bind s.entity?).map fun target => ⟨source, field, target⟩

/-- An association is a field without a scalar whose target exists. -/
theorem association?_eq_some {source : EntityType} {name : String} {A : Association} :
    s.association? source name = some A ↔
      source.field? name = some A.field ∧ A.field.binding = none ∧
        A.field.descriptor.target?.bind s.entity? = some A.target ∧ A.source = source := by
  obtain ⟨from', field', target'⟩ := A
  unfold association?
  constructor
  · intro h
    split at h
    · cases h
    · next field found =>
      split at h
      · cases h
      · next scalar =>
        obtain ⟨target, leads, e⟩ := Option.map_eq_some_iff.1 h
        cases e
        exact ⟨found, by simpa using scalar, leads, rfl⟩
  · rintro ⟨found, scalar, leads, rfl⟩
    simp only at found scalar leads
    simp [found, scalar, leads]

/-- The entity that an association of a name leads to. -/
def follow (source : EntityType) (name : String) : Option EntityType :=
  (s.association? source name).map (·.target)

/-- The entity at the end of a path. -/
def entityAt (path : List String) : Option EntityType := path.foldlM s.follow root

/-- The association that a path ends with. -/
def associationAt (path : List String) : Option Association :=
  match path.getLast? with
  | none => none
  | some name => (s.entityAt root path.dropLast).bind (s.association? · name)

@[simp] theorem entityAt_nil : s.entityAt root [] = some root := rfl

@[simp] theorem associationAt_concat (p : List String) (a : String) :
    s.associationAt root (p ++ [a]) = (s.entityAt root p).bind (s.association? · a) := by
  simp only [associationAt]
  rw [List.getLast?_concat, List.dropLast_concat]

/-- The entity at the end of a path is the target of its last association. -/
theorem entityAt_concat (p : List String) (a : String) :
    s.entityAt root (p ++ [a]) = (s.associationAt root (p ++ [a])).map (·.target) := by
  rw [associationAt_concat, Option.map_bind]
  simp only [entityAt]
  rw [List.foldlM_append]
  simp only [List.foldlM_cons, List.foldlM_nil]
  cases p.foldlM s.follow root with
  | none => rfl
  | some e =>
    show (s.follow e a).bind some = (s.association? e a).map (·.target)
    exact Option.bind_fun_some _

end QuerySchema

/-! ### Aliases of paths -/

namespace Joins

@[simp] theorem aliasOf?_nil (joins : Joins) : aliasOf? joins [] = some rootAlias := rfl

/-- A path that is not empty has the alias of its join. -/
theorem aliasOf?_concat (joins : Joins) (p : List String) (a : String) :
    aliasOf? joins (p ++ [a]) = (find? joins (p ++ [a])).map (·.tableAlias) := by
  simp only [aliasOf?]
  simp

theorem find?_append (J K : Joins) (path : List String) :
    find? (J ++ K) path = (find? J path).or (find? K path) := by
  simp only [find?]
  exact List.find?_append

/-- Aliases stay when joins are added. -/
theorem aliasOf?_mono {J K : Joins} (h : J <+: K) {path : List String} {a : String}
    (found : aliasOf? J path = some a) : aliasOf? K path = some a := by
  obtain ⟨rest, rfl⟩ := h
  simp only [aliasOf?] at found ⊢
  split at found
  · next root => rw [if_pos root, found]
  · next below =>
    obtain ⟨j, hj, e⟩ := Option.map_eq_some_iff.1 found
    rw [if_neg below, find?_append, hj]
    exact congrArg some e

theorem mem_of_find? {joins : Joins} {path : List String} {j : Join}
    (h : find? joins path = some j) : j ∈ joins ∧ j.path = path := by
  simp only [find?] at h
  exact ⟨List.mem_of_find?_eq_some h, by simpa using List.find?_some h⟩

/-- A further join gives an alias to its own path alone. -/
theorem aliasOf?_append_singleton {joins : Joins} {j : Join} {path : List String} {a : String}
    (h : aliasOf? (joins ++ [j]) path = some a) :
    aliasOf? joins path = some a ∨ path = j.path := by
  simp only [aliasOf?] at h ⊢
  split at h
  · next root =>
    rw [if_pos root]
    exact .inl h
  · next below =>
    rw [if_neg below]
    obtain ⟨k, found, e⟩ := Option.map_eq_some_iff.1 h
    rw [find?_append] at found
    -- The first join of a path decides, so that the new one counts only where there was none.
    cases earlier : find? joins path with
    | some k' =>
      rw [earlier] at found
      cases found
      exact .inl (congrArg some e)
    | none =>
      rw [earlier, Option.none_or] at found
      have last : k = j := List.mem_singleton.1 (mem_of_find? found).1
      rw [← last]
      exact .inr (mem_of_find? found).2.symm

/-- Every join is found under its path, since paths are joined once. -/
theorem Numbered.find?_of_mem {joins : Joins} (h : joins.Numbered) {j : Join} (hj : j ∈ joins) :
    find? joins j.path = some j := by
  obtain ⟨before, after, rfl⟩ := List.append_of_mem hj
  have fresh : j.path ∉ before.map (·.path) := by
    have paths := h.paths
    rw [List.map_append, List.map_cons] at paths
    intro hm
    exact (List.nodup_append.1 paths).2.2 _ hm _ List.mem_cons_self rfl
  rw [find?_append, find?_eq_none.2 fresh]
  simp [find?]

/-! ### The joins of a plan -/

/-- The join is for an association whose source is joined in `before`, and
has the next alias. -/
inductive Follows (s : QuerySchema) (root : EntityType) (before : Joins) : Join → Prop
  | mk {p : List String} {a parent : String} {A : Association} {left right : Expr}
      (association : s.associationAt root (p ++ [a]) = some A)
      (joined : aliasOf? before p = some parent)
      (sides : sides? A.field.descriptor parent A.source.idColumn (nextAlias before)
        A.target.idColumn = some (left, right)) :
      Follows s root before ⟨p ++ [a], A.target.descriptor.qualifiedTable, nextAlias before,
        .equal, [left, right], .left⟩

/-- The path before a planned join has an alias. -/
theorem Follows.parent {s : QuerySchema} {root : EntityType} {before : Joins} {j : Join}
    (h : Follows s root before j) : ∃ a, aliasOf? before j.path.dropLast = some a := by
  cases h with
  | mk association joined sides =>
    rw [List.dropLast_concat]
    exact ⟨_, joined⟩

theorem Follows.tableAlias {s : QuerySchema} {root : EntityType} {before : Joins} {j : Join}
    (h : Follows s root before j) : j.tableAlias = nextAlias before := by
  cases h
  rfl

/-- The joins were added one after another, each for a new path that leads on
from what was joined before. -/
inductive Planned (s : QuerySchema) (root : EntityType) : Joins → Prop
  | nil : Planned s root []
  | concat {joins : Joins} {j : Join} (planned : Planned s root joins)
      (new : find? joins j.path = none) (follows : Follows s root joins j) :
      Planned s root (joins ++ [j])

variable {s : QuerySchema} {root : EntityType}

theorem Planned.numbered {joins : Joins} (h : Planned s root joins) : joins.Numbered := by
  induction h with
  | nil => exact numbered_nil
  | concat planned new follows ih =>
    cases follows
    exact ih.append new rfl

/-- Any join of a plan follows from the joins before it. -/
theorem Planned.follows {joins before after : Joins} {j : Join} (h : Planned s root joins)
    (split : joins = before ++ j :: after) :
    Planned s root before ∧ find? before j.path = none ∧ Follows s root before j := by
  induction h generalizing after with
  | nil =>
    rcases before with - | ⟨b, bs⟩ <;> cases split
  | @concat joins last planned new follows ih =>
    rcases List.eq_nil_or_concat after with rfl | ⟨rest, x, rfl⟩
    · obtain ⟨rfl, e⟩ := List.append_inj' split rfl
      cases e
      exact ⟨planned, new, follows⟩
    · -- The join is not the last one, so it is one of the earlier joins.
      have shorter : joins ++ [last] = (before ++ j :: rest) ++ [x] := by
        simpa using split
      obtain ⟨e, -⟩ := List.append_inj' shorter rfl
      exact ih e

/-- The first joins of a plan are planned. -/
theorem Planned.earlier {before after : Joins} (h : Planned s root (before ++ after)) :
    Planned s root before := by
  cases after with
  | nil =>
    rw [List.append_nil] at h
    exact h
  | cons j after => exact (h.follows rfl).1

/-- A planned join has the alias of its path, and the path before it has one
too. -/
theorem Planned.aliases {joins : Joins} (h : Planned s root joins) {j : Join} (hj : j ∈ joins) :
    aliasOf? joins j.path = some j.tableAlias ∧
      ∃ a, aliasOf? joins j.path.dropLast = some a := by
  obtain ⟨before, after, split⟩ := List.append_of_mem hj
  obtain ⟨-, -, follows⟩ := h.follows split
  have found := h.numbered.find?_of_mem hj
  have earlier : before <+: joins := ⟨j :: after, split.symm⟩
  obtain ⟨a, parent⟩ := follows.parent
  refine ⟨?_, a, aliasOf?_mono earlier parent⟩
  cases follows
  rw [aliasOf?_concat, found]
  rfl

/-- With a path, all the paths on the way to it are joined. -/
theorem Planned.closed {joins : Joins} (h : Planned s root joins) {path : List String}
    (joined : ∃ a, aliasOf? joins path = some a) {p : List String} (hp : p <+: path) :
    ∃ a, aliasOf? joins p = some a := by
  -- From the end of the path, since the path above a planned join has an alias.
  induction path using List.reverseRecOn with
  | nil =>
    rw [List.prefix_nil.1 hp]
    exact joined
  | append_singleton q x ih =>
    rcases List.prefix_concat_iff.1 hp with rfl | hp
    · exact joined
    · obtain ⟨a, ha⟩ := joined
      rw [aliasOf?_concat] at ha
      obtain ⟨j, found, -⟩ := Option.map_eq_some_iff.1 ha
      obtain ⟨hj, path⟩ := mem_of_find? found
      have parent := (h.aliases hj).2
      rw [path, List.dropLast_concat] at parent
      exact ih parent hp

/-- A path that is not that of the root and has an alias is joined. -/
theorem exists_join_of_aliasOf? {joins : Joins} {path : List String} {a : String}
    (joined : aliasOf? joins path = some a) (below : path ≠ []) : ∃ j ∈ joins, j.path = path := by
  simp only [aliasOf?] at joined
  rw [if_neg (by simpa using below)] at joined
  obtain ⟨j, found, -⟩ := Option.map_eq_some_iff.1 joined
  exact ⟨j, mem_of_find? found⟩

end Joins

/-! ### One more join -/

open Joins in
/-- Joining an association of an entity that is joined already keeps the shape
of the joins, and gives the alias of the longer path. -/
theorem Planner.Gives.join {s : QuerySchema} {root parent : EntityType} {parentAlias : String}
    {p : List String} {a : String} {field : SchemaField} {outcome : String × EntityType}
    {d d' : Draft} (h : Gives (join s parent parentAlias (p ++ [a]) field) d outcome d')
    (entity : s.entityAt root p = some parent) (joined : aliasOf? d.joins p = some parentAlias)
    (found : parent.field? a = some field) (scalar : field.binding = none) :
    s.entityAt root (p ++ [a]) = some outcome.2 ∧
      aliasOf? d'.joins (p ++ [a]) = some outcome.1 ∧
      (Planned s root d.joins → Planned s root d'.joins) := by
  obtain ⟨target, joins, leads, added, rfl, rfl⟩ := gives_join.1 h
  obtain ⟨next, target⟩ := outcome
  simp only at leads added ⊢
  have association : s.associationAt root (p ++ [a]) = some ⟨parent, field, target⟩ := by
    rw [s.associationAt_concat, entity, Option.bind_some, s.association?_eq_some]
    exact ⟨found, scalar, leads, rfl⟩
  refine ⟨by rw [s.entityAt_concat, association]; rfl, ?_⟩
  rw [aliasOf?_concat]
  rcases add_cases d.joins (p ++ [a]) field.descriptor parentAlias parent.idColumn
      target.descriptor.qualifiedTable target.idColumn with
    ⟨j, hj, e⟩ | ⟨-, none, -⟩ | ⟨left, right, new, sides, e⟩
  · -- The path is joined already.
    rw [e] at added
    cases added
    exact ⟨by rw [hj]; rfl, fun planned => planned⟩
  · -- A field that leads somewhere has two sides to compare.
    obtain ⟨name, leadsTo, -⟩ := Option.bind_eq_some_iff.1 leads
    simp only [FieldDescriptor.target?] at leadsTo
    simp only [sides?] at none
    split at leadsTo
    · cases leadsTo
    · next kind => rw [kind] at none; cases none
    · next kind => rw [kind] at none; cases none
  · rw [e] at added
    cases added
    constructor
    · rw [find?_append, new]
      simp [find?]
    · intro planned
      exact .concat planned new (.mk association joined sides)

end EntityQuery
