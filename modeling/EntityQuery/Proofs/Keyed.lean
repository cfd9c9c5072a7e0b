/-
EntityQuery/Proofs/Keyed.lean

Laws of values filed under names.

Two habits of the rest of the library show here.  Lists of pairs only ever
grow at their end, so a name that is found once is found with the same value
ever after (`find?_mono`).  And a list whose names are all different is
already filed: `ofPairs` leaves it as it is (`ofPairs_eq_self`), and each of
its pairs is found under its name (`find?_of_mem`).
-/
import EntityQuery.Keyed
import Mathlib.Data.List.Induction
import Mathlib.Data.List.Nodup

namespace EntityQuery.Keyed

variable {α : Type}

/-! ### Look-up in a list that grows -/

theorem find?_append (m n : Keyed α) (name : String) :
    find? (m ++ n) name = (find? m name).or (find? n name) := by
  induction m with
  | nil => rfl
  | cons pair m ih =>
    obtain ⟨other, value⟩ := pair
    show find? ((other, value) :: (m ++ n)) name = _
    rw [find?_cons, find?_cons, ih]
    split
    · rfl
    · rfl

/-- What is found stays found when pairs are added behind. -/
theorem find?_mono {m n : Keyed α} {name : String} {value : α} (h : m <+: n)
    (found : find? m name = some value) : find? n name = some value := by
  obtain ⟨rest, rfl⟩ := h
  rw [find?_append, found]
  rfl

theorem find?_eq_none {m : Keyed α} {name : String} :
    find? m name = none ↔ name ∉ m.keys := by
  induction m with
  | nil => simp [keys]
  | cons pair m ih =>
    obtain ⟨other, value⟩ := pair
    rw [find?_cons]
    by_cases h : name = other
    · simp [h, keys]
    · rw [if_neg h, ih]
      simp [keys, h]

theorem find?_append_new {m : Keyed α} {name : String} (value : α) (h : name ∉ m.keys) :
    find? (m ++ [(name, value)]) name = some value := by
  rw [find?_append, find?_eq_none.2 h]
  simp [find?_cons]

theorem isSome_find? {m : Keyed α} {name : String} :
    (find? m name).isSome ↔ name ∈ m.keys := by
  rw [← not_iff_not, ← find?_eq_none]
  simp

theorem mem_of_find? {m : Keyed α} {name : String} {value : α}
    (h : find? m name = some value) : (name, value) ∈ m := by
  induction m with
  | nil => cases h
  | cons pair m ih =>
    obtain ⟨other, first⟩ := pair
    rw [find?_cons] at h
    split at h
    · next e =>
      cases h
      rw [e]
      exact List.mem_cons_self
    · exact List.mem_cons_of_mem _ (ih h)

/-! ### Lists with different names -/

/-- Where keys are different, every pair is found under its key. -/
theorem find?_of_mem {m : Keyed α} {name : String} {value : α} (nodup : m.keys.Nodup)
    (h : (name, value) ∈ m) : find? m name = some value := by
  induction m with
  | nil => cases h
  | cons pair m ih =>
    obtain ⟨other, first⟩ := pair
    obtain ⟨fresh, nodup⟩ := List.nodup_cons.1 nodup
    rw [find?_cons]
    rcases List.mem_cons.1 h with e | later
    · cases e
      simp
    · have filed : name ∈ keys m := List.mem_map_of_mem (f := Prod.fst) later
      have ne : name ≠ other := fun e => fresh (e ▸ filed)
      rw [if_neg ne]
      exact ih nodup later

/-! ### Filing at the end -/

/-- A value under a new key is put at the end. -/
theorem put_of_not_mem {m : Keyed α} {name : String} (value : α) (h : name ∉ m.keys) :
    put name value m = m ++ [(name, value)] := by
  induction m with
  | nil => rfl
  | cons pair m ih =>
    obtain ⟨other, first⟩ := pair
    have ne : other ≠ name := by
      intro e
      exact h (e ▸ List.mem_cons_self)
    have rest : name ∉ keys m := fun hm => h (List.mem_cons_of_mem _ hm)
    rw [put, if_neg ne, ih rest]
    rfl

private theorem foldl_put (pairs : List (String × α)) (m : Keyed α)
    (nodup : (keys (m ++ pairs)).Nodup) :
    pairs.foldl (fun m pair => put pair.1 pair.2 m) m = m ++ pairs := by
  induction pairs generalizing m with
  | nil => simp
  | cons pair pairs ih =>
    have fresh : pair.1 ∉ keys m := by
      intro h
      have split : keys (m ++ pair :: pairs) = keys m ++ pair.1 :: keys pairs := by
        simp [keys]
      rw [split] at nodup
      exact (List.nodup_append.1 nodup).2.2 _ h _ List.mem_cons_self rfl
    rw [List.foldl_cons, put_of_not_mem pair.2 fresh, ih]
    · simp
    · simpa using nodup

/-- Pairs with different names are filed as they stand. -/
theorem ofPairs_eq_self {pairs : List (String × α)} (nodup : (keys pairs).Nodup) :
    ofPairs pairs = pairs := by
  have filed := foldl_put pairs [] nodup
  simpa [ofPairs] using filed

/-! ### Filing in any order -/

/-- Putting a value leaves the other pairs. -/
theorem mem_of_mem_put {m : Keyed α} {name : String} {value : α} {pair : String × α}
    (h : pair ∈ put name value m) : pair = (name, value) ∨ pair ∈ m := by
  induction m with
  | nil => exact .inl (List.mem_singleton.1 h)
  | cons first m ih =>
    obtain ⟨other, old⟩ := first
    rw [put] at h
    split at h
    · rcases List.mem_cons.1 h with e | later
      · exact .inl e
      · exact .inr (List.mem_cons_of_mem _ later)
    · rcases List.mem_cons.1 h with rfl | later
      · exact .inr List.mem_cons_self
      · exact (ih later).imp_right (List.mem_cons_of_mem _)

theorem keys_put_of_mem {m : Keyed α} {name : String} (value : α) (h : name ∈ m.keys) :
    keys (put name value m) = keys m := by
  induction m with
  | nil => cases h
  | cons first m ih =>
    obtain ⟨other, old⟩ := first
    rw [put]
    split
    · next e =>
      rw [e]
      rfl
    · next ne =>
      have later : name ∈ keys m := (List.mem_cons.1 h).resolve_left fun e => ne e.symm
      exact congrArg (other :: ·) (ih later)

theorem nodup_keys_put {m : Keyed α} (nodup : m.keys.Nodup) (name : String) (value : α) :
    (keys (put name value m)).Nodup := by
  by_cases h : name ∈ m.keys
  · rw [keys_put_of_mem value h]
    exact nodup
  · rw [put_of_not_mem value h, keys, List.map_append]
    exact nodup.append (List.nodup_singleton _) (by simpa using h)

/-- What is filed from a list of pairs is filed once under each name, and is
one of the pairs. -/
theorem filed_ofPairs (pairs : List (String × α)) :
    (keys (ofPairs pairs)).Nodup ∧ ∀ pair ∈ ofPairs pairs, pair ∈ pairs := by
  induction pairs using List.reverseRecOn with
  | nil => exact ⟨List.nodup_nil, fun _ h => h⟩
  | append_singleton pairs last ih =>
    have one : ofPairs (pairs ++ [last]) = put last.1 last.2 (ofPairs pairs) :=
      List.foldl_concat ..
    rw [one]
    refine ⟨nodup_keys_put ih.1 _ _, fun pair h => ?_⟩
    rcases mem_of_mem_put h with rfl | before
    · exact List.mem_append_right _ List.mem_cons_self
    · exact List.mem_append_left _ (ih.2 pair before)

/-- Of pairs with one name, the last is found. -/
theorem find?_ofPairs_of_last (before : List (String × α)) (name : String) (value : α)
    {after : List (String × α)} (last : name ∉ keys after) :
    find? (ofPairs (before ++ (name, value) :: after)) name = some value := by
  induction after using List.reverseRecOn with
  | nil =>
    have one : ofPairs (before ++ [(name, value)]) = put name value (ofPairs before) :=
      List.foldl_concat ..
    rw [one, find?_put_self]
  | append_singleton after pair ih =>
    have one : ofPairs ((before ++ (name, value) :: after) ++ [pair]) =
        put pair.1 pair.2 (ofPairs (before ++ (name, value) :: after)) := List.foldl_concat ..
    have names : keys (after ++ [pair]) = keys after ++ [pair.1] := List.map_append
    rw [names, List.mem_append, not_or, List.mem_singleton] at last
    rw [← List.cons_append, ← List.append_assoc, one, find?_put_of_ne _ _ last.2, ih last.1]

end EntityQuery.Keyed
