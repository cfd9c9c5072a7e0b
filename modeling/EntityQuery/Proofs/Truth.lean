/-
EntityQuery/Proofs/Truth.lean

The three truth values, and what a filter means in them.

The values are ordered: `no`, then `unknown`, then `yes`.  A conjunction is
the least of its operands and a disjunction the greatest, so nothing at all is
`yes` in the one and `no` in the other; a negation turns the order round.
The store computes just this on JSON values, with null in the middle
(`conjunction_toJson`, `disjunction_toJson`, `contrary_toJson`).

A filter with a truth value for every leaf has a truth value
(`Filter.truth`).  Double negation and the two laws of De Morgan, used
anywhere in a filter and in any direction (`Filter.Rewrites`), change neither
that value nor the leaves (`Filter.Rewrites.truth`, `Filter.Rewrites.leaves`).
-/
import EntityQuery.Criteria.Filter
import EntityQuery.Store.Eval
import Mathlib.Data.Nat.Basic
import Mathlib.Order.Lattice

namespace EntityQuery

/-- A truth value. -/
inductive Truth where
  | no
  | unknown
  | yes
deriving DecidableEq, Repr

namespace Truth

/-! ### The order of truth values -/

/-- The place of a truth value. -/
def rank : Truth → Nat
  | .no => 0
  | .unknown => 1
  | .yes => 2

theorem rank_injective : Function.Injective rank := by
  intro s t h
  cases s <;> cases t <;> first | rfl | cases h

instance : LinearOrder Truth := LinearOrder.lift' rank rank_injective

/-- The contrary: `unknown` is its own. -/
def negate : Truth → Truth
  | .no => .yes
  | .unknown => .unknown
  | .yes => .no

/-- The least of truth values. -/
def all (ts : List Truth) : Truth := ts.foldr min .yes

/-- The greatest of truth values. -/
def any (ts : List Truth) : Truth := ts.foldr max .no

@[simp] theorem negate_negate (t : Truth) : t.negate.negate = t := by
  cases t <;> rfl

theorem negate_min (s t : Truth) : (min s t).negate = max s.negate t.negate := by
  cases s <;> cases t <;> rfl

theorem negate_max (s t : Truth) : (max s t).negate = min s.negate t.negate := by
  cases s <;> cases t <;> rfl

theorem negate_all (ts : List Truth) : (all ts).negate = any (ts.map negate) := by
  induction ts with
  | nil => rfl
  | cons t ts ih =>
    show (min t (all ts)).negate = max t.negate (any (ts.map negate))
    rw [negate_min, ih]

theorem negate_any (ts : List Truth) : (any ts).negate = all (ts.map negate) := by
  induction ts with
  | nil => rfl
  | cons t ts ih =>
    show (max t (any ts)).negate = min t.negate (all (ts.map negate))
    rw [negate_max, ih]

@[simp] theorem all_singleton (t : Truth) : all [t] = t := by
  cases t <;> rfl

@[simp] theorem any_singleton (t : Truth) : any [t] = t := by
  cases t <;> rfl

/-! ### Truth values in a store -/

/-- The value that stands for a truth value. -/
def toJson : Truth → Json
  | .no => .bool false
  | .unknown => .null
  | .yes => .bool true

/-- The truth value that a value stands for; what is no truth value is
`unknown`. -/
def ofJson : Json → Truth
  | .bool true => .yes
  | .bool false => .no
  | _ => .unknown

@[simp] theorem ofJson_toJson (t : Truth) : ofJson t.toJson = t := by
  cases t <;> rfl

theorem isTrue_toJson {t : Truth} : Store.isTrue t.toJson = true ↔ t = .yes := by
  cases t <;> simp [toJson, Store.isTrue]

theorem toJson_of_bool (b : Bool) : ∃ t, Json.bool b = toJson t := by
  cases b
  · exact ⟨.no, rfl⟩
  · exact ⟨.yes, rfl⟩

theorem contrary_toJson (t : Truth) : Store.contrary t.toJson = t.negate.toJson := by
  cases t <;> rfl

private theorem conjunction_cons (t : Truth) (js : List Json) :
    Store.conjunction (t.toJson :: js) =
      match t with
      | .no => .bool false
      | .unknown => if Store.isFalse (Store.conjunction js) then .bool false else .null
      | .yes => Store.conjunction js := by
  cases t with
  | no => rfl
  | yes => rfl
  | unknown =>
    by_cases decided : js.any Store.isFalse = true
    · simp [Store.conjunction, toJson, Store.isFalse, decided]
    · by_cases all : js.all Store.isTrue = true
      · simp [Store.conjunction, toJson, Store.isFalse, Store.isTrue, decided, all]
      · simp [Store.conjunction, toJson, Store.isFalse, Store.isTrue, decided, all]

private theorem disjunction_cons (t : Truth) (js : List Json) :
    Store.disjunction (t.toJson :: js) =
      match t with
      | .yes => .bool true
      | .unknown => if Store.isTrue (Store.disjunction js) then .bool true else .null
      | .no => Store.disjunction js := by
  cases t with
  | no => rfl
  | yes => rfl
  | unknown =>
    by_cases decided : js.any Store.isTrue = true
    · simp [Store.disjunction, toJson, Store.isTrue, decided]
    · by_cases all : js.all Store.isFalse = true
      · simp [Store.disjunction, toJson, Store.isFalse, Store.isTrue, decided, all]
      · simp [Store.disjunction, toJson, Store.isFalse, Store.isTrue, decided, all]

/-- A store's conjunction is the least of the operands. -/
theorem conjunction_toJson (ts : List Truth) :
    Store.conjunction (ts.map toJson) = (all ts).toJson := by
  induction ts with
  | nil => rfl
  | cons t ts ih =>
    have least : all (t :: ts) = min t (all ts) := rfl
    rw [List.map_cons, conjunction_cons, least, ih]
    cases t <;> cases all ts <;> rfl

/-- A store's disjunction is the greatest of the operands. -/
theorem disjunction_toJson (ts : List Truth) :
    Store.disjunction (ts.map toJson) = (any ts).toJson := by
  induction ts with
  | nil => rfl
  | cons t ts ih =>
    have greatest : any (t :: ts) = max t (any ts) := rfl
    rw [List.map_cons, disjunction_cons, greatest, ih]
    cases t <;> cases any ts <;> rfl

end Truth

namespace Filter

/-! ### The truth of a filter -/

mutual

/-- The truth value of a filter whose leaves have the given ones. -/
def truth (value : FilterLeaf → Truth) : Filter → Truth
  | .leaf condition => value condition
  | .and children => Truth.all (truths value children)
  | .or children => Truth.any (truths value children)
  | .not child => (truth value child).negate

/-- The truth values of filters, from left to right. -/
def truths (value : FilterLeaf → Truth) : List Filter → List Truth
  | [] => []
  | f :: fs => truth value f :: truths value fs

end

theorem truths_eq_map (value : FilterLeaf → Truth) (fs : List Filter) :
    truths value fs = fs.map (truth value) := by
  induction fs with
  | nil => rfl
  | cons f fs ih => rw [truths, ih, List.map_cons]

theorem leavesOf_eq_flatMap (fs : List Filter) : leavesOf fs = fs.flatMap leaves := by
  induction fs with
  | nil => rfl
  | cons f fs ih => rw [leavesOf, ih, List.flatMap_cons]

mutual

/-- The truth of a filter depends on the truth of its leaves alone. -/
theorem truth_congr {v w : FilterLeaf → Truth} (f : Filter)
    (h : ∀ leaf ∈ f.leaves, v leaf = w leaf) : f.truth v = f.truth w := by
  cases f with
  | leaf condition => exact h condition List.mem_cons_self
  | and children => exact congrArg Truth.all (truths_congr children h)
  | or children => exact congrArg Truth.any (truths_congr children h)
  | not child => exact congrArg Truth.negate (truth_congr child h)

theorem truths_congr {v w : FilterLeaf → Truth} (fs : List Filter)
    (h : ∀ leaf ∈ leavesOf fs, v leaf = w leaf) : truths v fs = truths w fs := by
  cases fs with
  | nil => rfl
  | cons f fs =>
    have first : f.truth v = f.truth w := truth_congr f fun leaf hl =>
      h leaf (List.mem_append_left _ hl)
    have others : truths v fs = truths w fs := truths_congr fs fun leaf hl =>
      h leaf (List.mem_append_right _ hl)
    rw [truths, truths, first, others]

end

/-! ### Rewriting filters -/

/-- One filter comes from another by double negation and the laws of De
Morgan, used inside the filter and in both directions. -/
inductive Rewrites : Filter → Filter → Prop
  | refl (f : Filter) : Rewrites f f
  | symm {f g : Filter} : Rewrites f g → Rewrites g f
  | trans {f g h : Filter} : Rewrites f g → Rewrites g h → Rewrites f h
  | doubleNegation (f : Filter) : Rewrites (.not (.not f)) f
  | notAnd (fs : List Filter) : Rewrites (.not (.and fs)) (.or (fs.map .not))
  | notOr (fs : List Filter) : Rewrites (.not (.or fs)) (.and (fs.map .not))
  | not {f g : Filter} : Rewrites f g → Rewrites (.not f) (.not g)
  | and {f g : Filter} (before after : List Filter) :
      Rewrites f g → Rewrites (.and (before ++ f :: after)) (.and (before ++ g :: after))
  | or {f g : Filter} (before after : List Filter) :
      Rewrites f g → Rewrites (.or (before ++ f :: after)) (.or (before ++ g :: after))

private theorem leavesOf_map_not (fs : List Filter) : leavesOf (fs.map .not) = leavesOf fs := by
  rw [leavesOf_eq_flatMap, leavesOf_eq_flatMap, List.flatMap_map]
  rfl

private theorem leavesOf_replace {f g : Filter} (h : f.leaves = g.leaves)
    (before after : List Filter) :
    leavesOf (before ++ f :: after) = leavesOf (before ++ g :: after) := by
  simp only [leavesOf_eq_flatMap, List.flatMap_append, List.flatMap_cons, h]

/-- Rewriting keeps the leaves and their order. -/
theorem Rewrites.leaves {f g : Filter} (h : f.Rewrites g) : f.leaves = g.leaves := by
  induction h with
  | refl f => rfl
  | symm _ ih => exact ih.symm
  | trans _ _ ih₁ ih₂ => exact ih₁.trans ih₂
  | doubleNegation f => rfl
  | notAnd fs => exact (leavesOf_map_not fs).symm
  | notOr fs => exact (leavesOf_map_not fs).symm
  | not _ ih => exact ih
  | and before after _ ih => exact leavesOf_replace ih before after
  | or before after _ ih => exact leavesOf_replace ih before after

private theorem truths_map_not (value : FilterLeaf → Truth) (fs : List Filter) :
    truths value (fs.map .not) = (truths value fs).map Truth.negate := by
  rw [truths_eq_map, truths_eq_map, List.map_map, List.map_map]
  rfl

private theorem truths_replace {value : FilterLeaf → Truth} {f g : Filter}
    (h : f.truth value = g.truth value) (before after : List Filter) :
    truths value (before ++ f :: after) = truths value (before ++ g :: after) := by
  simp only [truths_eq_map, List.map_append, List.map_cons, h]

/-- Rewriting keeps the truth of a filter. -/
theorem Rewrites.truth {f g : Filter} (h : f.Rewrites g) (value : FilterLeaf → Truth) :
    f.truth value = g.truth value := by
  -- The two laws of De Morgan are those of the least and the greatest truth.
  induction h with
  | refl f => rfl
  | symm _ ih => exact ih.symm
  | trans _ _ ih₁ ih₂ => exact ih₁.trans ih₂
  | doubleNegation f => exact Truth.negate_negate _
  | notAnd fs =>
    show (Truth.all (truths value fs)).negate = Truth.any (truths value (fs.map .not))
    rw [truths_map_not, Truth.negate_all]
  | notOr fs =>
    show (Truth.any (truths value fs)).negate = Truth.all (truths value (fs.map .not))
    rw [truths_map_not, Truth.negate_any]
  | not _ ih => exact congrArg Truth.negate ih
  | and before after _ ih => exact congrArg Truth.all (truths_replace ih before after)
  | or before after _ ih => exact congrArg Truth.any (truths_replace ih before after)

end Filter

end EntityQuery
