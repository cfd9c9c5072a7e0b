/-
EntityQuery/Proofs/Stable.lean

Stable sorting.

A list is sorted stably if its elements, numbered in the order that they had,
stand in the order that they are to have, and those without an order between
them in that of their numbers (`StablySorted`).  Where no two elements precede
each other there is only one such list (`StablySorted.unique`).

Filing an element behind the last one that it is not less than keeps a list
sorted in this sense, if all that was filed before is numbered lower
(`Store.pairwise_insertBack`).  So by induction on the elements filed the sort
of the store is stable on elements that have an order
(`Store.stablySorted_arrange`).
-/
import EntityQuery.Proofs.Ordered

namespace EntityQuery

variable {α : Type}

/-- A numbered element stands before another one: it precedes it, or neither
precedes the other and it was there first. -/
def StandsBefore (precedes : α → α → Prop) (a b : α × Nat) : Prop :=
  precedes a.1 b.1 ∨ (¬precedes b.1 a.1 ∧ a.2 < b.2)

/-- The second list is the first one sorted stably. -/
def StablySorted (precedes : α → α → Prop) (xs sorted : List α) : Prop :=
  ∃ numbered : List (α × Nat), numbered.Perm xs.zipIdx ∧
    numbered.Pairwise (StandsBefore precedes) ∧ sorted = numbered.map Prod.fst

/-- There is only one way to sort a list stably. -/
theorem StablySorted.unique {precedes : α → α → Prop} {xs sorted sorted' : List α}
    (asymmetric : ∀ a ∈ xs, ∀ b ∈ xs, precedes a b → ¬precedes b a)
    (h : StablySorted precedes xs sorted) (h' : StablySorted precedes xs sorted') :
    sorted = sorted' := by
  obtain ⟨numbered, perm, ordered, rfl⟩ := h
  obtain ⟨numbered', perm', ordered', rfl⟩ := h'
  have element : ∀ x ∈ xs.zipIdx, x.1 ∈ xs := fun x hx => List.fst_mem_of_mem_zipIdx hx
  refine congrArg _ (List.Perm.eq_of_pairwise ?_ ordered ordered' (perm.trans perm'.symm))
  intro a b ha hb before after
  have ha := element a (perm.mem_iff.1 ha)
  have hb := element b (perm'.mem_iff.1 hb)
  -- Were two elements in both orders, each would precede the other or come first in the list.
  rcases before with first | ⟨notLater, less⟩
  · rcases after with second | ⟨notEarlier, -⟩
    · exact absurd second (asymmetric _ ha _ hb first)
    · exact absurd first notEarlier
  · rcases after with second | ⟨-, greater⟩
    · exact absurd second notLater
    · exact absurd greater (by omega)

/-- The order in which elements stand depends on which of them precede which
others only. -/
theorem StablySorted.congr {precedes precedes' : α → α → Prop} {xs sorted : List α}
    (h : StablySorted precedes xs sorted)
    (same : ∀ a ∈ xs, ∀ b ∈ xs, (precedes a b ↔ precedes' a b)) :
    StablySorted precedes' xs sorted := by
  obtain ⟨numbered, perm, ordered, rfl⟩ := h
  have element : ∀ x ∈ numbered, x.1 ∈ xs := fun x hx =>
    List.fst_mem_of_mem_zipIdx (perm.mem_iff.1 hx)
  refine ⟨numbered, perm, ordered.imp_of_mem fun {a b} ha hb before => ?_, rfl⟩
  have forth := same _ (element a ha) _ (element b hb)
  have back := same _ (element b hb) _ (element a ha)
  simp only [StandsBefore] at before ⊢
  rwa [← forth, ← back]

namespace Store

variable {less : α → α → Bool} {before : α → α → Prop} {x : α} {ys : List α}

/-- Filing an element that comes after all others in `before`. -/
theorem pairwise_insertBack
    (transitive : ∀ y ∈ ys, ∀ z ∈ ys, less z y = false → less x z = false → less x y = false)
    (asymmetric : ∀ y ∈ ys, less x y = true → less y x = false)
    (last : ∀ y ∈ ys, before y x)
    (sorted : ys.Pairwise fun z y => less z y = false ∧
      (less y z = true ∨ before y z)) :
    (insertBack less x ys).Pairwise fun z y => less z y = false ∧
      (less y z = true ∨ before y z) := by
  induction ys with
  | nil => exact List.pairwise_singleton _ _
  | cons z ys ih =>
    obtain ⟨greatest, sorted⟩ := List.pairwise_cons.1 sorted
    simp only [insertBack]
    split
    · next here =>
      -- The new element is less than the greatest and goes further back.
      refine List.pairwise_cons.2 ⟨fun y hy => ?_, ih
        (fun y hy w hw => transitive y (List.mem_cons_of_mem _ hy) w (List.mem_cons_of_mem _ hw))
        (fun y hy => asymmetric y (List.mem_cons_of_mem _ hy))
        (fun y hy => last y (List.mem_cons_of_mem _ hy)) sorted⟩
      rcases List.mem_cons.1 ((insertBack_perm less x ys).mem_iff.1 hy) with rfl | hy
      · exact ⟨asymmetric z List.mem_cons_self here, .inl here⟩
      · exact greatest y hy
    · next here =>
      -- It is not less than the greatest, hence than no other, and was there last.
      rw [Bool.not_eq_true] at here
      refine List.pairwise_cons.2 ⟨fun y hy => ⟨?_, .inr (last y hy)⟩,
        List.pairwise_cons.2 ⟨greatest, sorted⟩⟩
      rcases List.mem_cons.1 hy with rfl | hy'
      · exact here
      · exact transitive y hy z List.mem_cons_self (greatest y hy').1 here

/-- The last element is filed from the back among those sorted before. -/
theorem stableSort_concat (less : α → α → Bool) (xs : List α) (x : α) :
    stableSort less (xs ++ [x]) = (insertBack less x (stableSort less xs).reverse).reverse := by
  simp [stableSort, List.foldl_append]

/-- The sort keeps the order of elements that are equal. -/
theorem pairwise_stableSort {xs : List α} (consistent : Consistent less xs)
    (ordered : xs.Pairwise before) :
    (stableSort less xs).Pairwise fun y z => less z y = false ∧
      (less y z = true ∨ before y z) := by
  -- From the end, as the last element is filed among the others.
  induction xs using List.reverseRecOn with
  | nil => exact List.Pairwise.nil
  | append_singleton xs x ih =>
    have initial : ∀ y ∈ (stableSort less xs).reverse, y ∈ xs := fun y hy =>
      (stableSort_perm less xs).mem_iff.1 (List.mem_reverse.1 hy)
    have inside {y : α} (hy : y ∈ xs) : y ∈ xs ++ [x] := List.mem_append_left _ hy
    have newest : x ∈ xs ++ [x] := List.mem_append_right _ List.mem_cons_self
    obtain ⟨ordered, -, last⟩ := List.pairwise_append.1 ordered
    rw [stableSort_concat, List.pairwise_reverse]
    refine pairwise_insertBack
      (fun y hy z hz => consistent.transitive y (inside (initial y hy)) z (inside (initial z hz))
        x newest)
      (fun y hy => consistent.asymmetric x newest y (inside (initial y hy)))
      (fun y hy => last y (initial y hy) x List.mem_cons_self) ?_
    rw [List.pairwise_reverse]
    exact ih (consistent.mono fun _ => inside) ordered

theorem pairwise_zipIdx (xs : List α) (k : Nat) :
    (xs.zipIdx k).Pairwise fun a b => a.2 < b.2 := by
  have places : (xs.zipIdx k).map Prod.snd = List.range' k xs.length := List.zipIdx_map_snd k xs
  have ordered : ((xs.zipIdx k).map Prod.snd).Pairwise (· < ·) := by
    rw [places]
    exact List.pairwise_lt_range'
  exact List.pairwise_map.1 ordered

/-- **The sort of the store is stable** on elements that have an order. -/
theorem stablySorted_arrange [Disorder] {xs : List α} (consistent : Consistent less xs) :
    StablySorted (fun a b => less a b = true) xs (arrange less xs) := by
  -- The numbered elements have the order of those that are numbered.
  have numbered : Consistent (fun a b => less a.1 b.1) xs.zipIdx := by
    rw [← consistent_map, List.zipIdx_map_fst]
    exact consistent
  rw [arrange_of_consistent consistent]
  refine ⟨stableSort (fun a b => less a.1 b.1) xs.zipIdx, stableSort_perm _ _, ?_, ?_⟩
  · have sorted : (stableSort (fun a b => less a.1 b.1) xs.zipIdx).Pairwise fun y z =>
        less z.1 y.1 = false ∧ (less y.1 z.1 = true ∨ y.2 < z.2) :=
      pairwise_stableSort numbered (pairwise_zipIdx xs 0)
    refine sorted.imp fun {a b} h => ?_
    rcases h with ⟨notLess, less | earlier⟩
    · exact .inl less
    · exact .inr ⟨by simp [notLess], earlier⟩
  · rw [← stableSort_map, List.zipIdx_map_fst]

end Store

end EntityQuery
