/-
EntityQuery/Proofs/Arranged.lean

What is left of elements that were sorted.

Whatever a sort is told, it leaves the elements that there were
(`Store.arrange_perm`).  It goes by what it is told alone, so it treats
elements as it treats what they stand for (`Store.sort?_map`).  Where it is
told something consistent it sorts them as it promises, and it gives up only
on more than twenty elements of which it is told something inconsistent
(`Store.of_sort?_eq_none`).
-/
import EntityQuery.Store.Sort
import Mathlib.Data.List.FinRange

namespace EntityQuery.Store

variable {α β : Type} {less : α → α → Bool} {xs : List α}

/-! ### Insertion -/

/-- Insertion leaves the elements that there were. -/
theorem stableSort_perm (less : α → α → Bool) (xs : List α) : (stableSort less xs).Perm xs := by
  have filed : ∀ sorted : List α,
      (xs.foldl (fun sorted x => insertBack less x sorted) sorted).Perm (xs ++ sorted) := by
    induction xs with
    | nil => exact fun sorted => .refl _
    | cons x xs ih =>
      intro sorted
      have one := (insertBack_perm less x sorted).append_left xs
      exact (ih _).trans (one.trans List.perm_middle)
  have whole := filed []
  rw [List.append_nil] at whole
  exact (List.reverse_perm _).trans whole

/-- Filing looks at what elements stand for alone. -/
theorem insertBack_map (less : β → β → Bool) (f : α → β) (x : α) (ys : List α) :
    insertBack less (f x) (ys.map f) =
      (insertBack (fun a b => less (f a) (f b)) x ys).map f := by
  induction ys with
  | nil => rfl
  | cons y ys ih =>
    simp only [List.map_cons, insertBack]
    split
    · rw [ih, List.map_cons]
    · rfl

/-- Insertion looks at the order of the elements alone. -/
theorem stableSort_map (less : β → β → Bool) (f : α → β) (xs : List α) :
    stableSort less (xs.map f) = (stableSort (fun a b => less (f a) (f b)) xs).map f := by
  -- What is filed so far is carried along, since every element is filed among all before it.
  have filed : ∀ sorted : List α,
      (xs.map f).foldl (fun sorted y => insertBack less y sorted) (sorted.map f) =
        (xs.foldl (fun sorted x => insertBack (fun a b => less (f a) (f b)) x sorted) sorted).map
          f := by
    induction xs with
    | nil => exact fun _ => rfl
    | cons x xs ih =>
      intro sorted
      rw [List.map_cons, List.foldl_cons, List.foldl_cons, insertBack_map, ih]
  simp only [stableSort]
  rw [List.map_reverse, ← filed []]
  rfl

/-- Elements none of which is less than another stay as they are. -/
theorem stableSort_never (xs : List α) : stableSort (fun _ _ => false) xs = xs := by
  have filed : ∀ sorted : List α,
      xs.foldl (fun sorted x => insertBack (fun _ _ => false) x sorted) sorted =
        xs.reverse ++ sorted := by
    induction xs with
    | nil => exact fun _ => rfl
    | cons x xs ih =>
      intro sorted
      have first : insertBack (fun _ _ => false) x sorted = x :: sorted := by
        cases sorted <;> rfl
      rw [List.foldl_cons, first, ih, List.reverse_cons, List.append_assoc]
      rfl
  rw [stableSort, filed [], List.append_nil, List.reverse_reverse]

/-! ### Consistent comparisons -/

/-- Elements have an order if what they stand for has one. -/
theorem consistent_map {less : β → β → Bool} {f : α → β} :
    Consistent less (xs.map f) ↔ Consistent (fun a b => less (f a) (f b)) xs := by
  constructor
  · intro h
    exact ⟨fun x hx y hy => h.asymmetric _ (List.mem_map_of_mem hx) _ (List.mem_map_of_mem hy),
      fun x hx y hy z hz => h.transitive _ (List.mem_map_of_mem hx) _ (List.mem_map_of_mem hy) _
        (List.mem_map_of_mem hz)⟩
  · intro h
    constructor
    case asymmetric =>
      simp only [List.forall_mem_map]
      exact h.asymmetric
    case transitive =>
      simp only [List.forall_mem_map]
      exact h.transitive

theorem Consistent.mono {ys : List α} (h : Consistent less xs) (among : ∀ y ∈ ys, y ∈ xs) :
    Consistent less ys :=
  ⟨fun x hx y hy => h.asymmetric x (among x hx) y (among y hy),
    fun x hx y hy z hz => h.transitive x (among x hx) y (among y hy) z (among z hz)⟩

/-- Elements none of which is less than another have an order, in which all are
equal. -/
theorem consistent_never (xs : List α) : Consistent (fun _ _ => false) xs :=
  ⟨fun _ _ _ _ _ => rfl, fun _ _ _ _ _ _ _ _ => rfl⟩

/-! ### Sorting -/

variable [Disorder]

/-- Consistent comparisons are sorted as is promised. -/
theorem sort?_of_consistent (h : Consistent less xs) :
    sort? less xs = some (stableSort less xs) := if_pos (.inr h)

theorem sort?_of_short (h : xs.length ≤ insertionLimit) :
    sort? less xs = some (stableSort less xs) := if_pos (.inl h)

theorem arrange_of_consistent (h : Consistent less xs) :
    arrange less xs = stableSort less xs := by
  rw [arrange, sort?_of_consistent h]
  rfl

/-- Elements none of which is less than another stay as they are. -/
theorem arrange_never (xs : List α) : arrange (fun _ _ => false) xs = xs := by
  rw [arrange_of_consistent (consistent_never xs), stableSort_never]

/-- The sort gives up on many elements with inconsistent comparisons only. -/
theorem of_sort?_eq_none (h : sort? less xs = none) :
    insertionLimit < xs.length ∧ ¬Consistent less xs := by
  constructor
  · by_contra short
    rw [sort?_of_short (Nat.not_lt.1 short)] at h
    cases h
  · intro consistent
    rw [sort?_of_consistent consistent] at h
    cases h

/-- The elements that are left are those that there were. -/
theorem perm_of_sort?_eq_some {ys : List α} (h : sort? less xs = some ys) : ys.Perm xs := by
  unfold sort? at h
  split at h
  · cases h
    exact stableSort_perm less xs
  · unfold disordered? at h
    obtain ⟨places, -, rfl⟩ := Option.map_eq_some_iff.1 h
    have all : (List.finRange xs.length).map xs.get = xs := by
      rw [← List.ofFn_eq_map]
      exact List.ofFn_get xs
    exact (places.2.map xs.get).trans (List.Perm.of_eq all)

/-- Sorting leaves the elements that there were, also where it gives up. -/
theorem arrange_perm (less : α → α → Bool) (xs : List α) : (arrange less xs).Perm xs := by
  rw [arrange]
  cases sorted : sort? less xs with
  | none => exact .refl xs
  | some ys => exact perm_of_sort?_eq_some sorted

/-- The places are made from what the elements stand for. -/
theorem disordered?_comp (less : β → β → Bool) (f : α → β) {count : Nat}
    (element : Fin count → α) :
    disordered? less (f ∘ element) =
      (disordered? (fun a b => less (f a) (f b)) element).map (List.map f) := by
  simp only [disordered?, Option.map_map]
  congr 1
  funext places
  exact (List.map_map ..).symm

/-- How the number of elements is written does not matter. -/
theorem disordered?_cast (less : α → α → Bool) {count count' : Nat} (e : count = count')
    (element : Fin count' → α) :
    disordered? less (element ∘ Fin.cast e) = disordered? less element := by
  subst e
  rfl

/-- Sorting treats elements as what they stand for. -/
theorem sort?_map (less : β → β → Bool) (f : α → β) (xs : List α) :
    sort? less (xs.map f) = (sort? (fun a b => less (f a) (f b)) xs).map (List.map f) := by
  have elements : (xs.map f).get = (f ∘ xs.get) ∘ Fin.cast (List.length_map f) := by
    funext i
    simp
  have within : (xs.map f).length ≤ insertionLimit ∨ Consistent less (xs.map f) ↔
      xs.length ≤ insertionLimit ∨ Consistent (fun a b => less (f a) (f b)) xs := by
    rw [List.length_map, consistent_map]
  unfold sort?
  by_cases promised : xs.length ≤ insertionLimit ∨ Consistent (fun a b => less (f a) (f b)) xs
  · rw [if_pos promised, if_pos (within.2 promised), stableSort_map]
    rfl
  · rw [if_neg promised, if_neg fun h => promised (within.1 h), elements, disordered?_cast,
      disordered?_comp]

theorem arrange_map (less : β → β → Bool) (f : α → β) (xs : List α) :
    arrange less (xs.map f) = (arrange (fun a b => less (f a) (f b)) xs).map f := by
  rw [arrange, arrange, sort?_map]
  cases sort? (fun a b => less (f a) (f b)) xs <;> rfl

end EntityQuery.Store
