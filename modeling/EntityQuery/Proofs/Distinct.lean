/-
EntityQuery/Proofs/Distinct.lean

Lists without what stands in them before.

Joining tables repeats rows, and regrouping them looks only at the first
place where an identifier stands.  Repeating an element right after itself
leaves the list of first appearances alone, and so does putting parts of a
list in place of others with the same first appearances
(`eraseDups_flatMap_congr`); this is how the rows of a query are compared
with the rows they came from.
-/
import EntityQuery.Response.Reshape
import Mathlib.Data.List.Basic
import Mathlib.Data.Nat.Init

namespace EntityQuery

/-! ### First appearances -/

section FirstAppearances

variable {α β : Type} [DecidableEq α]

theorem eraseDups_filter (p : α → Bool) (xs : List α) :
    (xs.filter p).eraseDups = xs.eraseDups.filter p := by
  -- Taking out the later copies of the head shortens the list, which need not be its tail.
  induction length : xs.length using Nat.strong_induction_on generalizing xs with
  | _ n ih =>
  cases xs with
  | nil => rfl
  | cons x xs =>
    have shorter : (xs.filter fun y => !y == x).length < n := by
      rw [← length, List.length_cons]
      exact Nat.lt_succ_of_le (List.length_filter_le _ xs)
    have ih := ih _ shorter (xs.filter fun y => !y == x) rfl
    rw [List.filter_filter] at ih
    rw [List.eraseDups_cons, List.filter_cons, List.filter_cons, ← ih]
    split
    · rw [List.eraseDups_cons, List.filter_filter]
      simp only [Bool.and_comm]
    · next no =>
      -- The element itself is left out by `p`, so leaving it out again is idle.
      have idle : ∀ y ∈ xs, (p y && !y == x) = p y := by
        intro y _
        by_cases e : y = x
        · subst e
          simp [no]
        · simp [e]
      rw [List.filter_congr idle]

/-- Lists with the same first appearances can replace each other. -/
theorem eraseDups_append_congr {xs xs' ys ys' : List α} (hx : xs.eraseDups = xs'.eraseDups)
    (hy : ys.eraseDups = ys'.eraseDups) : (xs ++ ys).eraseDups = (xs' ++ ys').eraseDups := by
  have same : ∀ y, y ∈ xs ↔ y ∈ xs' := by
    intro y
    rw [← List.mem_eraseDups, hx, List.mem_eraseDups]
  -- Only membership counts for what is left out of the second part.
  have others : ys.removeAll xs = ys.removeAll xs' := by
    simp only [List.removeAll]
    refine List.filter_congr fun y _ => ?_
    simp [same]
  have others' : ys'.removeAll xs = ys'.removeAll xs' := by
    simp only [List.removeAll]
    refine List.filter_congr fun y _ => ?_
    simp [same]
  rw [List.eraseDups_append, List.eraseDups_append, hx, ← others']
  simp only [List.removeAll]
  rw [eraseDups_filter, eraseDups_filter, hy]

/-- The last element appears first only if it is new. -/
theorem eraseDups_concat (xs : List α) (x : α) :
    (xs ++ [x]).eraseDups = xs.eraseDups ++ if x ∈ xs then [] else [x] := by
  rw [List.eraseDups_append, List.removeAll]
  by_cases old : x ∈ xs
  · simp [old]
  · simp [old, List.eraseDups_cons]

/-- Parts with the same first appearances may stand in for each other. -/
theorem eraseDups_flatMap_congr {f g : β → List α} {xs : List β}
    (h : ∀ x ∈ xs, (f x).eraseDups = (g x).eraseDups) :
    (xs.flatMap f).eraseDups = (xs.flatMap g).eraseDups := by
  induction xs with
  | nil => rfl
  | cons x xs ih =>
    rw [List.flatMap_cons, List.flatMap_cons]
    exact eraseDups_append_congr (h x List.mem_cons_self)
      (ih fun y hy => h y (List.mem_cons_of_mem _ hy))

theorem eraseDups_of_nodup {xs : List α} (h : xs.Nodup) : xs.eraseDups = xs := by
  induction xs with
  | nil => rfl
  | cons x xs ih =>
    obtain ⟨fresh, nodup⟩ := List.nodup_cons.1 h
    have all : xs.filter (fun y => !y == x) = xs := by
      rw [List.filter_eq_self]
      intro y hy
      have ne : y ≠ x := fun e => fresh (e ▸ hy)
      simpa using ne
    rw [List.eraseDups_cons, all, ih nodup]

/-- Something repeated appears once. -/
theorem eraseDups_of_forall_eq {xs : List α} {x : α} (some : xs ≠ []) (h : ∀ y ∈ xs, y = x) :
    xs.eraseDups = [x] := by
  cases xs with
  | nil => exact absurd rfl some
  | cons y ys =>
    have none : ys.filter (fun z => !z == y) = [] := by
      rw [List.filter_eq_nil_iff]
      intro z hz
      rw [h y List.mem_cons_self, h z (List.mem_cons_of_mem _ hz)]
      simp
    rw [List.eraseDups_cons, none, h y List.mem_cons_self]
    rfl

/-- A list repeated has the first appearances of the list. -/
theorem eraseDups_flatMap_const {xs : List β} {ys : List α} (some : xs ≠ []) :
    (xs.flatMap fun _ => ys).eraseDups = ys.eraseDups := by
  induction xs with
  | nil => exact absurd rfl some
  | cons x xs ih =>
    rw [List.flatMap_cons, List.eraseDups_append]
    have none : (xs.flatMap fun _ => ys).removeAll ys = [] := by
      simp only [List.removeAll]
      rw [List.filter_eq_nil_iff]
      intro y hy
      obtain ⟨_, _, hy⟩ := List.mem_flatMap.1 hy
      simpa using hy
    rw [none, List.eraseDups_nil, List.append_nil]

/-- Taking some of the offspring is taking the offspring of some, if whether an
offspring is taken depends on where it comes from only. -/
theorem filter_flatMap_eq {γ : Type} {xs : List β} {offspring : β → List γ} {p : γ → Bool}
    {q : β → Bool} (h : ∀ x ∈ xs, ∀ y ∈ offspring x, p y = q x) :
    (xs.flatMap offspring).filter p = (xs.filter q).flatMap offspring := by
  induction xs with
  | nil => rfl
  | cons x xs ih =>
    rw [List.flatMap_cons, List.filter_append, ih fun y hy => h y (List.mem_cons_of_mem _ hy),
      List.filter_congr (h x List.mem_cons_self), List.filter_cons]
    cases q x <;> simp

/-- Where every element has an offspring, and all its offspring carry its key,
the keys of all offspring are those of the elements. -/
theorem eraseDups_filterMap_flatMap {γ : Type} {xs : List β} {offspring : β → List γ}
    {key : β → Option α} {keyOf : γ → Option α} (some : ∀ x ∈ xs, offspring x ≠ [])
    (carries : ∀ x ∈ xs, ∀ y ∈ offspring x, keyOf y = key x) :
    ((xs.flatMap offspring).filterMap keyOf).eraseDups = (xs.filterMap key).eraseDups := by
  rw [List.filterMap_flatMap, List.filterMap_eq_flatMap_toList]
  refine eraseDups_flatMap_congr fun x hx => ?_
  rw [List.filterMap_congr (carries x hx)]
  cases key x with
  | none => simp
  | some k =>
    -- All offspring carry the same key, and there is at least one.
    show (List.filterMap (Option.some ∘ fun _ => k) _).eraseDups = [k].eraseDups
    rw [List.filterMap_eq_map, eraseDups_of_forall_eq (x := k)]
    · rfl
    · simpa using some x hx
    · intro y hy
      obtain ⟨_, _, rfl⟩ := List.mem_map.1 hy
      rfl

end FirstAppearances

/-! ### Identifiers of rows -/

namespace Reshape

/-- Going through a list with what was seen before is leaving that out and then
all repetitions. -/
theorem distinct_eq (seen xs : List String) :
    distinct seen xs = (xs.filter fun x => !seen.contains x).eraseDups := by
  induction xs generalizing seen with
  | nil => rfl
  | cons x xs ih =>
    simp only [distinct]
    split
    · next old =>
      rw [ih, List.filter_cons_of_neg (by simpa using old)]
    · next new =>
      rw [ih, List.filter_cons_of_pos (by simpa using new), List.eraseDups_cons,
        List.filter_filter]
      refine congrArg (x :: ·) (congrArg List.eraseDups (List.filter_congr fun y _ => ?_))
      rw [List.contains_cons, Bool.not_or]

theorem distinct_nil (xs : List String) : distinct [] xs = xs.eraseDups := by
  rw [distinct_eq]
  exact congrArg List.eraseDups (List.filter_eq_self.2 fun _ _ => rfl)

/-- The groups of rows whose identifiers are listed without repetition. -/
theorem groups_eq_map {β : Type} {column : String} {rows : List Row} {xs : List β}
    {key : β → String} (ids : (rows.filterMap (idText? column)).eraseDups = xs.map key) :
    groups column rows =
      xs.map fun x => rows.filter fun row => idText? column row = some (key x) := by
  have keys : (rows.filterMap fun row => (idText? column row).map fun id => (id, row)).map
      (·.1) = rows.filterMap (idText? column) := by
    rw [List.map_filterMap]
    refine List.filterMap_congr fun row _ => ?_
    rw [Option.map_map]
    exact Option.map_id'
  -- Rows without an identifier are in no pair, and so in no group.
  have group : ∀ id, (rows.filterMap fun row => (idText? column row).map fun id =>
        (id, row)).filterMap (fun pair => if pair.1 = id then some pair.2 else none) =
      rows.filter fun row => idText? column row = some id := by
    intro id
    rw [List.filterMap_filterMap, ← List.filterMap_eq_filter]
    refine List.filterMap_congr fun row _ => ?_
    cases found : idText? column row with
    | none => simp [Option.guard, found]
    | some other => simp [Option.guard, found]
  unfold groups
  dsimp only
  rw [keys, distinct_nil, ids, List.map_map]
  refine List.map_congr_left fun x _ => ?_
  exact group (key x)

end Reshape

end EntityQuery
