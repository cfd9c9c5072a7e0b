/-
EntityQuery/Proofs/Substring.lean

The place of one text in another.

A text occurs in another one if there is something before it and something
after it that make up the other (`Occurs`).  A search counts the bytes before
the first occurrence from one, answers zero if there is no occurrence, and null
if there is nothing to search in (`Store.Place`).  The reader of characters
that counts them follows the text from the front, so its lemmas are by
induction on the text.

A place is compared with zero as a number, and a number that is too large for
64 bits is rounded first; but rounding leaves a positive number positive.
-/
import EntityQuery.Proofs.Magnitude
import EntityQuery.Store.Eval

namespace EntityQuery

/-- `needle` stands in `text` right after `before`. -/
def OccursAfter (needle text before : String) : Prop := ∃ after, text = before ++ needle ++ after

/-- `needle` stands somewhere in `text`. -/
def Occurs (needle text : String) : Prop := ∃ before, OccursAfter needle text before

/-- The empty text occurs everywhere. -/
theorem occurs_empty (text : String) : Occurs "" text := ⟨"", text, by simp⟩

namespace Store

/-- What a search for `needle` answers, given what there is to search in. -/
inductive Place (needle : String) : Option String → Json → Prop
  | null : Place needle none .null
  | absent {text : String} (nowhere : ¬ Occurs needle text) : Place needle (some text) (.ofInt 0)
  | first {text before : String} (here : OccursAfter needle text before)
      (first : ∀ other, OccursAfter needle text other → before.utf8ByteSize ≤ other.utf8ByteSize) :
      Place needle (some text) (.ofInt (1 + before.utf8ByteSize : Nat))

/-! ### Counting the bytes before an occurrence -/

section Bytes

variable {needle text : List Char}

private theorem utf8ByteSize_cons (c : Char) (cs : List Char) :
    (String.ofList (c :: cs)).utf8ByteSize = (String.ofList cs).utf8ByteSize + c.utf8Size := by
  rw [String.ofList_cons, String.utf8ByteSize_append, String.utf8ByteSize_singleton, Nat.add_comm]

/-- The count is zero exactly in front of what begins with the needle. -/
theorem bytesBefore?_cons_here {c : Char} {rest : List Char} (h : needle <+: c :: rest) :
    bytesBefore? needle (c :: rest) = some 0 := by
  rw [bytesBefore?, if_pos (List.isPrefixOf_iff_prefix.2 h)]

theorem bytesBefore?_cons_later {c : Char} {rest : List Char}
    (h : ¬ needle <+: c :: rest) :
    bytesBefore? needle (c :: rest) = (bytesBefore? needle rest).map (· + c.utf8Size) := by
  rw [bytesBefore?, if_neg (mt List.isPrefixOf_iff_prefix.1 h)]

/-- An occurrence that is not at the front is one in the rest. -/
private theorem eq_cons_later {c : Char} {rest before after : List Char}
    (h : ¬ needle <+: c :: rest) (e : c :: rest = before ++ needle ++ after) :
    ∃ before', before = c :: before' ∧ rest = before' ++ needle ++ after := by
  cases before with
  | nil => exact absurd ⟨after, e.symm⟩ h
  | cons d before' =>
    obtain ⟨rfl, tail⟩ := List.cons.inj e
    exact ⟨before', rfl, tail⟩

theorem bytesBefore?_eq_none (h : bytesBefore? needle text = none) (before after : List Char) :
    text ≠ before ++ needle ++ after := by
  induction text generalizing before with
  | nil =>
    intro e
    obtain ⟨inFront, -⟩ := List.append_eq_nil_iff.1 e.symm
    obtain ⟨-, rfl⟩ := List.append_eq_nil_iff.1 inFront
    cases h
  | cons c rest ih =>
    by_cases here : needle <+: c :: rest
    · rw [bytesBefore?_cons_here here] at h
      cases h
    · intro e
      obtain ⟨before', -, e⟩ := eq_cons_later here e
      rw [bytesBefore?_cons_later here, Option.map_eq_none_iff] at h
      exact ih h before' e

theorem bytesBefore?_eq_some {n : Nat} (h : bytesBefore? needle text = some n) :
    ∃ before after, text = before ++ needle ++ after ∧ (String.ofList before).utf8ByteSize = n ∧
      ∀ before' after', text = before' ++ needle ++ after' →
        n ≤ (String.ofList before').utf8ByteSize := by
  induction text generalizing n with
  | nil =>
    rw [bytesBefore?] at h
    split at h
    · next empty =>
      cases h
      obtain rfl := List.isEmpty_iff.1 empty
      exact ⟨[], [], rfl, rfl, fun _ _ _ => Nat.zero_le _⟩
    · cases h
  | cons c rest ih =>
    -- The needle is at this character, or first after it and then one character later.
    by_cases here : needle <+: c :: rest
    · rw [bytesBefore?_cons_here here] at h
      cases h
      obtain ⟨after, e⟩ := here
      exact ⟨[], after, e.symm, rfl, fun _ _ _ => Nat.zero_le _⟩
    · rw [bytesBefore?_cons_later here] at h
      obtain ⟨m, found, rfl⟩ := Option.map_eq_some_iff.1 h
      obtain ⟨before, after, rfl, size, least⟩ := ih found
      refine ⟨c :: before, after, rfl, ?_, fun before' after' e => ?_⟩
      · rw [utf8ByteSize_cons, size]
      · obtain ⟨before'', rfl, tail⟩ := eq_cons_later here e
        rw [utf8ByteSize_cons]
        exact Nat.add_le_add_right (least before'' after' tail) _

end Bytes

theorem occursAfter_iff {needle text before : String} : OccursAfter needle text before ↔
    ∃ after, text.toList = before.toList ++ needle.toList ++ after := by
  constructor
  · rintro ⟨after, rfl⟩
    exact ⟨after.toList, by simp⟩
  · rintro ⟨after, e⟩
    refine ⟨String.ofList after, String.toList_inj.1 ?_⟩
    simpa using e

/-- The place of a text is that of its first occurrence. -/
theorem place_locate (needle text : String) :
    Place needle (some text) (.ofInt (locate needle text)) := by
  simp only [locate]
  -- The place counts from one, the bytes before it from zero.
  cases count : bytesBefore? needle.toList text.toList with
  | none =>
    refine .absent ?_
    rintro ⟨before, here⟩
    obtain ⟨after, e⟩ := occursAfter_iff.1 here
    exact bytesBefore?_eq_none count _ _ e
  | some n =>
    obtain ⟨before, after, e, size, least⟩ := bytesBefore?_eq_some count
    have first : Place needle (some text)
        (.ofInt (1 + (String.ofList before).utf8ByteSize : Nat)) := by
      refine .first (occursAfter_iff.2 ⟨after, by simpa using e⟩) fun other here => ?_
      obtain ⟨after', e'⟩ := occursAfter_iff.1 here
      have least := least other.toList after' e'
      rwa [← size, String.ofList_toList] at least
    rwa [size, Nat.add_comm] at first

/-- Bytes are counted, not characters. -/
example : locate "b" "éb" = 3 := by decide

/-- A search in a value answers the place in its text. -/
theorem place_locateValue (needle : String) (cell : Json) :
    Place needle cell.textOrSelf? (locateValue (.string needle) (textValue cell)) := by
  simp only [textValue]
  cases cell.textOrSelf? with
  | none => exact .null
  | some text => exact place_locate needle text

end Store

/-! ### Comparing a place with zero -/

theorem Binary64.place_ofInt_pos {n : Nat} (h : 0 < n) : 0 < (ofInt n).place := by
  have top : -1 ≤ lastPower 2 ((n.log2 : Int) - Nat.log2 1) n 1 := by
    have one : Nat.log2 1 = 0 := rfl
    simp only [lastPower, one]
    split <;> omega
  -- Far above the least magnitude the rank has passed whole binades.
  have rank : 0 < (ofInt n).rank := by
    have nonzero : n ≠ 0 := by omega
    have many : binade ≤ infinityRank := by decide
    simp only [ofInt, Int.natAbs_natCast, ofRatio, if_neg nonzero, ofRank]
    refine Nat.lt_min.2 ⟨?_, by decide⟩
    refine Nat.lt_of_lt_of_le (Nat.mul_pos ?_ (by decide : 0 < binade)) (Nat.le_add_right _ _)
    omega
  have positive : (ofInt n).negative = false := by
    have nonzero : n ≠ 0 := by omega
    simp [ofInt, ofRatio, nonzero, ofRank]
  simp only [place, positive]
  simpa using rank

namespace Store

theorem compareNumbers_zero {n : Nat} (h : 0 < n) : compareNumbers (.int n) (.int 0) = .gt := by
  have zero : (JsonNumber.int 0).toInt64? = some 0 := rfl
  simp only [compareNumbers]
  split
  · next i j hi hj =>
    rw [zero] at hj
    cases hj
    simp only [JsonNumber.toInt64?] at hi
    split at hi
    · cases hi
      exact compare_gt_iff_gt.2 (by omega)
    · cases hi
  · have none : (Binary64.ofInt 0).place = 0 := rfl
    have some := Binary64.place_ofInt_pos h
    simp only [JsonNumber.toBinary64, Binary64.order, none]
    exact compare_gt_iff_gt.2 some

/-- A place is after zero exactly if the text occurs. -/
theorem Place.isTrue_iff {needle : String} {text : Option String} {place : Json}
    (h : Place needle text place) :
    isTrue (comparison .greaterThan place (.ofInt 0)) = true ↔
      ∃ t, text = some t ∧ Occurs needle t := by
  -- A text without the needle has it at place zero.
  cases h with
  | null =>
    constructor
    · intro h
      cases h
    · rintro ⟨t, h, -⟩
      cases h
  | absent nowhere =>
    constructor
    · intro h
      exact absurd h (by decide)
    · rintro ⟨t, h, occurs⟩
      cases h
      exact absurd occurs nowhere
  | @first text before here first =>
    refine iff_of_true ?_ ⟨text, rfl, before, here⟩
    have after := compareNumbers_zero (n := 1 + before.utf8ByteSize) (by omega)
    show satisfies .greaterThan (some (compareNumbers _ _)) = true
    rw [after]
    rfl

end Store

end EntityQuery
