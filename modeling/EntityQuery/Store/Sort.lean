/-
EntityQuery/Store/Sort.lean

Sorting.

A sort is told of any two elements whether one is less than the other, and
sees nothing else of them.  Where this is consistent it puts the elements in
increasing order and leaves equal ones in the order they had.  Up to twenty
elements it inserts one after another, whatever it is told.

Of more elements than that, nothing is promised where it is inconsistent: the
sort may leave them in any order, and it may give up, and the program with it.
What it does there (`Disorder`) depends on what it is told alone.
-/

namespace EntityQuery.Store

variable {α : Type}

/-! ### Insertion -/

/-- Put an element behind the last one that it is not less than, in a list
that holds the greatest first. -/
def insertBack (less : α → α → Bool) (x : α) : List α → List α
  | [] => [x]
  | y :: ys => if less x y then y :: insertBack less x ys else x :: y :: ys

/-- The elements in increasing order; equal ones stay in the order they
had. -/
def stableSort (less : α → α → Bool) (xs : List α) : List α :=
  (xs.foldl (fun sorted x => insertBack less x sorted) []).reverse

theorem insertBack_perm (less : α → α → Bool) (x : α) (ys : List α) :
    (insertBack less x ys).Perm (x :: ys) := by
  induction ys with
  | nil => exact .refl _
  | cons y ys ih =>
    unfold insertBack
    split
    · exact (ih.cons y).trans (.swap x y ys)
    · exact .refl _

/-! ### What is promised -/

/-- The greatest number of elements that are inserted one after another. -/
def insertionLimit : Nat := 20

/-- Of two elements one at most is less than the other, and being not less is
transitive: the elements have an order, in which some may be equal. -/
structure Consistent (less : α → α → Bool) (xs : List α) : Prop where
  asymmetric : ∀ x ∈ xs, ∀ y ∈ xs, less x y = true → less y x = false
  transitive : ∀ x ∈ xs, ∀ y ∈ xs, ∀ z ∈ xs,
    less y x = false → less z y = false → less z x = false

/-- The number of elements that are less than one. -/
def rank (less : α → α → Bool) (xs : List α) (x : α) : Nat := xs.countP (less · x)

/-- Whether one element is less than another exactly if it has the lower
rank. -/
def isRanked (less : α → α → Bool) (xs : List α) : Bool :=
  let ranked := xs.map fun x => (rank less xs x, x)
  ranked.all fun a => ranked.all fun b => less a.2 b.2 == decide (a.1 < b.1)

theorem countP_lt {p q : α → Bool} {xs : List α} {x : α} (hx : x ∈ xs) (new : q x = true)
    (old : p x = false) (more : ∀ y ∈ xs, p y = true → q y = true) :
    xs.countP p < xs.countP q := by
  induction xs with
  | nil => cases hx
  | cons y ys ih =>
    have others : ∀ z ∈ ys, p z = true → q z = true := fun z hz =>
      more z (List.mem_cons_of_mem _ hz)
    rw [List.countP_cons, List.countP_cons]
    rcases List.mem_cons.1 hx with rfl | hx
    · have le := List.countP_mono_left others
      simp only [new, old, if_true]
      exact Nat.lt_succ_of_le le
    · have lt := ih hx others
      by_cases here : p y = true
      · rw [if_pos here, if_pos (more y List.mem_cons_self here)]
        omega
      · rw [if_neg here]
        split <;> omega

/-- Consistent comparisons are those of the ranks. -/
theorem isRanked_iff {less : α → α → Bool} {xs : List α} :
    isRanked less xs = true ↔ Consistent less xs := by
  have all : isRanked less xs = true ↔
      ∀ x ∈ xs, ∀ y ∈ xs, less x y = decide (rank less xs x < rank less xs y) := by
    simp [isRanked]
  rw [all]
  constructor
  · intro ranked
    refine ⟨fun x hx y hy before => ?_, fun x hx y hy z hz later last => ?_⟩
    · rw [ranked x hx y hy, decide_eq_true_eq] at before
      rw [ranked y hy x hx, decide_eq_false_iff_not]
      omega
    · rw [ranked y hy x hx, decide_eq_false_iff_not] at later
      rw [ranked z hz y hy, decide_eq_false_iff_not] at last
      rw [ranked z hz x hx, decide_eq_false_iff_not]
      omega
  · intro consistent x hx y hy
    cases before : less x y with
    | true =>
      -- What is less than the first is less than the second, and so is the first itself.
      have itself : less x x = false := by
        cases same : less x x with
        | false => rfl
        | true => exact same.symm.trans (consistent.asymmetric x hx x hx same)
      refine (decide_eq_true ?_).symm
      refine countP_lt hx before itself fun z hz less_x => ?_
      cases less_y : less z y with
      | true => rfl
      | false =>
        have after := consistent.asymmetric x hx y hy before
        have late := consistent.transitive x hx y hy z hz after less_y
        rw [late] at less_x
        cases less_x
    | false =>
      refine (decide_eq_false (Nat.not_lt.2 ?_)).symm
      refine List.countP_mono_left fun z hz less_y => ?_
      cases less_x : less z x with
      | true => rfl
      | false =>
        have late := consistent.transitive y hy x hx z hz before less_x
        rw [late] at less_y
        cases less_y

instance (less : α → α → Bool) (xs : List α) : Decidable (Consistent less xs) :=
  decidable_of_iff (isRanked less xs = true) isRanked_iff

/-- What a sort makes of elements of which it is told something inconsistent:
an order of their places, or nothing if it gives up. -/
class Disorder where
  places? : (count : Nat) → (Fin count → Fin count → Bool) →
    Option { places : List (Fin count) // places.Perm (List.finRange count) }

/-- This program gives up. -/
instance Disorder.givenUp : Disorder := ⟨fun _ _ => none⟩

/-- The elements at some places, in the order that is made of these. -/
def disordered? [Disorder] (less : α → α → Bool) {count : Nat} (element : Fin count → α) :
    Option (List α) :=
  (Disorder.places? count fun i j => less (element i) (element j)).map fun places =>
    places.1.map element

/-! ### Sorting -/

/-- The elements in the order that a sort leaves them in, unless it gives
up. -/
def sort? [Disorder] (less : α → α → Bool) (xs : List α) : Option (List α) :=
  if xs.length ≤ insertionLimit ∨ Consistent less xs then some (stableSort less xs)
  else disordered? less xs.get

/-- The elements in the order that a sort leaves them in.  They are left as
they are where it gives up. -/
def arrange [Disorder] (less : α → α → Bool) (xs : List α) : List α :=
  (sort? less xs).getD xs

end EntityQuery.Store
