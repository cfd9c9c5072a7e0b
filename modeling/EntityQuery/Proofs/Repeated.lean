/-
EntityQuery/Proofs/Repeated.lean

Rows that joins repeat.

Joining one more association repeats the rows that were there, so regrouping
must not see how often a row stands behind itself.  `Repeats` says that some
rows come about from others by putting in copies of rows behind them.  What a
node looks at stays the same under it: which identifiers there are and in which
order they first appear, the first row of each group, and, one level down, the
groups again.

The induction is on the requested fields.  A group of repeated rows is a
repeated group (`Repeats.filter`), so the level below has the same hypothesis.
Rows without an identifier are in no group at all.
-/
import EntityQuery.Proofs.Distinct
import EntityQuery.Proofs.Outcome

namespace EntityQuery

/-! ### Copies behind a first appearance -/

/-- The second list is the first one with copies of its elements put in, each
behind an element that it is a copy of. -/
inductive Repeats {α : Type} (xs : List α) : List α → Prop
  | refl : Repeats xs xs
  | copy {before between after : List α} {x : α}
      (h : Repeats xs (before ++ x :: (between ++ after))) :
      Repeats xs (before ++ x :: (between ++ x :: after))

namespace Repeats

variable {α β : Type} {xs ys : List α}

theorem head? (h : Repeats xs ys) : ys.head? = xs.head? := by
  induction h with
  | refl => rfl
  | @copy before between after x h ih =>
    rw [← ih]
    cases before <;> rfl

theorem filterMap (f : α → Option β) (h : Repeats xs ys) :
    Repeats (xs.filterMap f) (ys.filterMap f) := by
  induction h with
  | refl => exact .refl
  | @copy before between after x h ih =>
    cases image : f x with
    | none => simpa [image] using ih
    | some y =>
      have ih : Repeats (xs.filterMap f)
          (before.filterMap f ++ y :: (between.filterMap f ++ after.filterMap f)) := by
        simpa [image] using ih
      simpa [image] using ih.copy

theorem filter (p : α → Bool) (h : Repeats xs ys) : Repeats (xs.filter p) (ys.filter p) := by
  rw [← List.filterMap_eq_filter]
  exact h.filterMap _

/-- A copy is no first appearance. -/
theorem eraseDups [DecidableEq α] (h : Repeats xs ys) : ys.eraseDups = xs.eraseDups := by
  induction h with
  | refl => rfl
  | @copy before between after x h ih =>
    rw [← ih]
    -- What comes after a list is looked at without the elements of the list.
    have seen : (x :: after).removeAll (before ++ x :: between) =
        after.removeAll (before ++ x :: between) := by
      simp [List.removeAll]
    have split : ∀ rest, ((before ++ x :: between) ++ rest).eraseDups =
        (before ++ x :: between).eraseDups ++
          (rest.removeAll (before ++ x :: between)).eraseDups := fun _ => List.eraseDups_append
    have whole := split (x :: after)
    rw [seen, ← split after] at whole
    simpa using whole

end Repeats

namespace Reshape

variable {rows rows' : List Row}

/-! ### Groups -/

/-- A group is made of the rows with its identifier. -/
theorem groups_eq_filter (column : String) (rows : List Row) :
    groups column rows = (rows.filterMap (idText? column)).eraseDups.map fun id =>
      rows.filter fun row => idText? column row = some id :=
  groups_eq_map (List.map_id' _).symm

/-- Repeated rows give the same scalar answer, that of the first row. -/
theorem scalarAnswer_repeats (h : Repeats rows rows') (column : String) (b : ScalarBinding) :
    scalarAnswer column b rows' = scalarAnswer column b rows := by
  have first : ∀ rows : List Row, scalarAnswer column b rows =
      (b.output ((rows.head?.map (cell · column)).getD .null)).mapError
        fun e => ⟨column, e.message⟩ := by
    intro rows
    cases rows <;> rfl
  rw [first, first, h.head?]

mutual

theorem objects_repeats : (node : SelectionNode) → {rows rows' : List Row} → Repeats rows rows' →
    objects rows' node = objects rows node
  | .mk _ _ _ idColumn fields, rows, rows', h => by
    have ids := (h.filterMap (idText? idColumn)).eraseDups
    simp only [objects, groups_eq_filter, Outcome.mapM_map]
    rw [ids]
    -- Below, the rows are those of one identifier, and are repeated too.
    rw [Outcome.mapM_congr fun id _ => members_repeats fields (h.filter _)]

theorem members_repeats : (fields : List SelectedField) → {rows rows' : List Row} →
    Repeats rows rows' → members rows' fields = members rows fields
  | [], _, _, _ => rfl
  | field :: fields, rows, rows', h => by
    simp only [members]
    rw [member_repeats field h, members_repeats fields h]

theorem member_repeats : (field : SelectedField) → {rows rows' : List Row} →
    Repeats rows rows' → member rows' field = member rows field
  | .scalar key column b, rows, rows', h => by
    simp only [member]
    rw [scalarAnswer_repeats h column b]
  | .association key cardinality node, rows, rows', h => by
    simp only [member]
    rw [objects_repeats node h]

end

/-! ### Rows without an identifier -/

/-- The row has an identifier in the column. -/
def identified (column : String) (row : Row) : Bool := !(cell row column).isNull

/-- Rows without an identifier belong to no group. -/
theorem groups_identified (column : String) (rows : List Row) :
    groups column (rows.filter (identified column)) = groups column rows := by
  -- A row without an identifier is paired with none, whether it is filtered out before or not.
  have none : ∀ row, identified column row = false → idText? column row = none := by
    intro row h
    simp only [identified, Bool.not_eq_false'] at h
    simp only [idText?]
    rw [if_pos h]
  simp only [groups, List.filterMap_filter]
  have same : ∀ row ∈ rows, (if identified column row = true then
      (idText? column row).map fun id => (id, row) else Option.none) =
        (idText? column row).map fun id => (id, row) := by
    intro row _
    split
    · rfl
    · next no =>
      rw [none row (by simpa using no)]
      rfl
  rw [List.filterMap_congr same]

/-- **Regrouping does not see repeated rows.**  The objects of a node, or the
fault that is met in making them, stay the same when copies of rows come in
behind the rows, at any places and any number of times; and they are those of
the rows that have an identifier, whatever other rows there are. -/
theorem objects_repeated (node : SelectionNode) (rows rows' : List Row) :
    (Repeats rows rows' → objects rows' node = objects rows node) ∧
      (rows.filter (identified node.idColumn) = rows'.filter (identified node.idColumn) →
        objects rows node = objects rows' node) := by
  refine ⟨fun h => objects_repeats node h, fun same => ?_⟩
  obtain ⟨entity, path, tableAlias, idColumn, fields⟩ := node
  have same : rows.filter (identified idColumn) = rows'.filter (identified idColumn) := same
  simp only [objects]
  rw [← groups_identified idColumn rows, same, groups_identified]

/-! ### Authors and their books -/

namespace Sample

/-- A text under a key. -/
def shown (key column : String) : SelectedField :=
  .scalar key column (.plain "String" "Built-in String" .text)

/-- Authors, with the titles of their books. -/
def authors : SelectionNode :=
  .mk "Author" [] "t0" "id" [shown "name" "name", .association "books" .many
    (.mk "Book" ["books"] "t1" "books.id" [shown "title" "books.title"])]

/-- An author beside a book. -/
def author (id : Nat) (name : String) (book : Nat) (title : String) : Row :=
  [("id", .ofInt id), ("name", .string name), ("books.id", .ofInt book),
    ("books.title", .string title)]

/-- Two authors with one book each. -/
def joined : List Row := [author 2 "Le Guin" 10 "Lathe", author 1 "Banks" 11 "Excession"]

/-- The first row once more behind the others, and a row of no author. -/
def rejoined : List Row := joined ++ [author 2 "Le Guin" 10 "Lathe"]

end Sample

open Sample in
/-- A second row of the same author and book does not show, and neither does a
row without an author. -/
theorem objects_repeated_authors :
    Repeats joined rejoined ∧ objects rejoined authors = objects joined authors ∧
      objects (rejoined ++ [[("name", .string "nobody")]]) authors = objects joined authors := by
  have repeated : Repeats joined rejoined := @Repeats.copy _ joined [] _ [] _ .refl
  have once := (objects_repeated authors joined rejoined).1 repeated
  refine ⟨repeated, once, ?_⟩
  rw [← once]
  exact (objects_repeated authors _ _).2 rfl

end Reshape

end EntityQuery
