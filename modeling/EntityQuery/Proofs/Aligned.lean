/-
EntityQuery/Proofs/Aligned.lean

Texts in the order of the digits in them.

Texts are aligned if they are the same, or first differ at two digits of the
same weight: in numbers of the same width, or among the first nine digits of
fractions (`Aligned`).  The digits at the front of two aligned texts order the
texts, and where they are the same, what is left of the texts does and is
aligned, too (`Advances`): at most so many digits (`digitsValue_advances`), all
of them (`spanDigits_advances`), and those of a fraction
(`scaled_advances`).
-/
import EntityQuery.Proofs.Chronology
import EntityQuery.Proofs.Lexeme
import Mathlib.Data.String.Basic

namespace EntityQuery

/-! ### The order of characters -/

theorem compare_cons {α : Type} [Ord α] (x y : α) (xs ys : List α) :
    compare (x :: xs) (y :: ys) = (compare x y).then (compare xs ys) := List.compareLex_cons_cons

theorem compare_eq_compareOfLessAndEq (cs ds : List Char) :
    compare cs ds = compareOfLessAndEq cs ds := by
  induction cs generalizing ds with
  | nil =>
    cases ds with
    | nil => rfl
    | cons d ds => rw [compareOfLessAndEq, if_pos (List.nil_lt_cons d ds)]; rfl
  | cons c cs ih =>
    cases ds with
    | nil => rfl
    | cons d ds =>
      rw [compare_cons]
      -- The first characters decide unless they are the same.
      rcases lt_trichotomy c d with less | rfl | greater
      · rw [compare_lt_iff_lt.2 less, Ordering.lt_then, compareOfLessAndEq,
          if_pos (List.cons_lt_cons_iff.2 (.inl less))]
      · rw [ih, compare_eq_iff_eq.2 (rfl : c = c)]
        simp [compareOfLessAndEq]
      · have notLess : ¬(c < d ∨ c = d ∧ cs < ds) := by
          rintro (less | ⟨rfl, -⟩)
          · exact lt_asymm less greater
          · exact lt_irrefl _ greater
        have different : c :: cs ≠ d :: ds := fun same =>
          greater.ne (List.cons.inj same).1.symm
        rw [compare_gt_iff_gt.2 greater, Ordering.gt_then, compareOfLessAndEq,
          if_neg (List.cons_lt_cons_iff.not.2 notLess), if_neg different]

/-- Strings are in the order of their characters. -/
theorem compare_toList (s t : String) : compare s t = compare s.toList t.toList := by
  rw [compare_eq_compareOfLessAndEq]
  show compareOfLessAndEq s t = _
  simp only [compareOfLessAndEq, String.lt_iff, String.toList_inj]

/-! ### Texts beside each other -/

/-- The place in a text after a character: in a fraction, how many of its digits
there were. -/
def placeAfter (place : Option Nat) (c : Char) : Option Nat :=
  if c = '.' then some 0 else if c.isDigit = true then place.map (· + 1) else none

/-- At a place in two texts, nothing that follows is different, or what first
differs are digits of the same weight. -/
inductive AlignedFrom : Option Nat → List Char → List Char → Prop
  | nil {place : Option Nat} : AlignedFrom place [] []
  | skip {place : Option Nat} {c : Char} {cs ds : List Char}
      (rest : AlignedFrom (placeAfter place c) cs ds) : AlignedFrom place (c :: cs) (c :: ds)
  | whole {c d : Char} {cs ds : List Char} (hc : c.isDigit = true) (hd : d.isDigit = true)
      (differ : c ≠ d) (width : (spanDigits cs).1.length = (spanDigits ds).1.length) :
      AlignedFrom none (c :: cs) (d :: ds)
  | part {k : Nat} {c d : Char} {cs ds : List Char} (hc : c.isDigit = true)
      (hd : d.isDigit = true) (differ : c ≠ d) (counts : k < 9) :
      AlignedFrom (some k) (c :: cs) (d :: ds)

/-- The texts are the same or first differ at digits of the same weight. -/
def Aligned (cs ds : List Char) : Prop := AlignedFrom none cs ds

/-- Behind a mark the place does not depend on what was before it. -/
theorem placeAfter_mark {c : Char} (mark : c.isDigit = false) (place place' : Option Nat) :
    placeAfter place c = placeAfter place' c := by
  simp [placeAfter, mark]

namespace AlignedFrom

variable {place : Option Nat} {c d : Char} {cs ds : List Char}

theorem symm (h : AlignedFrom place cs ds) : AlignedFrom place ds cs := by
  induction h with
  | nil => exact .nil
  | skip _ ih => exact .skip ih
  | whole hc hd differ width => exact .whole hd hc differ.symm width.symm
  | part hc hd differ counts => exact .part hd hc differ.symm counts

/-- Behind two equal beginnings texts are aligned from the place after them. -/
theorem tail (h : AlignedFrom place (c :: cs) (c :: ds)) :
    AlignedFrom (placeAfter place c) cs ds := by
  cases h with
  | skip rest => exact rest
  | whole _ _ differ _ => exact absurd rfl differ
  | part _ _ differ _ => exact absurd rfl differ

/-- What is no digit stands in both texts. -/
theorem of_mark (h : AlignedFrom place (c :: cs) ds) (mark : c.isDigit = false) :
    ∃ ds', ds = c :: ds' := by
  cases h with
  | skip rest => exact ⟨_, rfl⟩
  | whole hc _ _ _ => exact absurd (mark.symm.trans hc) Bool.false_ne_true
  | part hc _ _ _ => exact absurd (mark.symm.trans hc) Bool.false_ne_true

/-- Where one text has a mark, the other has the same. -/
theorem head (h : AlignedFrom place (c :: cs) (d :: ds))
    (mark : c.isDigit = false ∨ d.isDigit = false) : c = d := by
  rcases mark with mark | mark
  · obtain ⟨_, same⟩ := h.of_mark mark
    exact (List.cons.inj same).1.symm
  · obtain ⟨_, same⟩ := h.symm.of_mark mark
    exact (List.cons.inj same).1

/-- Before what is no digit, or at the end, all places are alike. -/
theorem any_place (h : AlignedFrom place (c :: cs) ds) (mark : c.isDigit = false)
    (place' : Option Nat) : AlignedFrom place' (c :: cs) ds := by
  obtain ⟨ds', rfl⟩ := h.of_mark mark
  have rest := h.tail
  rw [placeAfter_mark mark place place'] at rest
  exact .skip rest

end AlignedFrom

/-- What is read from two texts orders them; if it is the same, what is left
does, and is aligned. -/
structure Advances (cs ds : List Char) (o : Ordering) (rs ss : List Char) : Prop where
  order : compare cs ds = o.then (compare rs ss)
  aligned : o = .eq → Aligned rs ss

namespace Advances

variable {cs ds rs ss ts us : List Char} {o p : Ordering}

theorem refl (aligned : Aligned cs ds) : Advances cs ds .eq cs ds := ⟨rfl, fun _ => aligned⟩

/-- Where the order is decided nothing more is asked of the texts. -/
theorem trans (first : Advances cs ds o rs ss) (second : o = .eq → Advances rs ss p ts us) :
    Advances cs ds (o.then p) ts us := by
  refine ⟨?_, fun same => ?_⟩
  · rw [first.order, Ordering.then_assoc]
    cases o with
    | eq => exact congrArg _ (second rfl).order
    | _ => rfl
  · obtain ⟨same, rest⟩ := Ordering.then_eq_eq.1 same
    exact (second same).aligned rest

/-- Different characters decide the order, whatever follows. -/
theorem decided {c d : Char} (differ : c ≠ d) {q : Ordering} :
    Advances (c :: cs) (d :: ds) ((compare c d).then q) rs ss := by
  have order : compare c d ≠ .eq := fun same => differ (compare_eq_iff_eq.1 same)
  refine ⟨?_, fun same => absurd (Ordering.then_eq_eq.1 same).1 order⟩
  rw [compare_cons]
  generalize compare c d = o at order ⊢
  cases o with
  | eq => exact absurd rfl order
  | _ => rfl

/-- A character that both texts have decides nothing. -/
theorem skip {c : Char} (aligned : Aligned (c :: cs) (c :: ds)) (noPoint : c ≠ '.') :
    Advances (c :: cs) (c :: ds) .eq cs ds := by
  refine ⟨?_, fun _ => ?_⟩
  · rw [compare_cons, compare_eq_iff_eq.2 (rfl : c = c)]
  · have rest := aligned.tail
    simp only [placeAfter, if_neg noPoint, Option.map_none, ite_self] at rest
    exact rest

/-- What is read to the end of both texts decides their order. -/
theorem decides (h : Advances cs ds o rs ss) (ended : o = .eq → rs = ss) :
    compare cs ds = o := by
  rw [h.order]
  cases o with
  | eq => rw [ended rfl]; exact Std.ReflCmp.compare_self
  | _ => rfl

end Advances

namespace Calendar

open Document (digitOf isDigit_iff digitValue?_isDigit digitValue?_not_isDigit)

variable {cs ds rs ss : List Char}

/-! ### Digits -/

theorem isBlank_isDigit {c : Char} (h : c.isDigit = true) : Text.isBlank c = false := by
  have bounds := isDigit_iff.1 h
  have lower : 48 ≤ c.toNat := bounds.1
  have upper : c.toNat ≤ 57 := bounds.2
  simp only [Text.isBlank, Bool.or_eq_false_iff, Bool.and_eq_false_iff, decide_eq_false_iff_not]
  omega

theorem digitOf_lt {c : Char} (h : c.isDigit = true) : digitOf c < 10 := by
  have upper : c.toNat ≤ 57 := (isDigit_iff.1 h).2
  have zero : '0'.toNat = 48 := rfl
  rw [digitOf]
  omega

/-- Digits compare as their values. -/
theorem compare_isDigit {c d : Char} (hc : c.isDigit = true) (hd : d.isDigit = true) :
    compare c d = compare (digitOf c) (digitOf d) := by
  have lower : 48 ≤ c.toNat ∧ 48 ≤ d.toNat := ⟨(isDigit_iff.1 hc).1, (isDigit_iff.1 hd).1⟩
  have zero : '0'.toNat = 48 := rfl
  simp only [digitOf, zero]
  rcases lt_trichotomy c d with less | rfl | greater
  · have less' : c.toNat < d.toNat := less
    rw [compare_lt_iff_lt.2 less, compare_lt_iff_lt.2 (by omega)]
  · rw [compare_eq_iff_eq.2 rfl, compare_eq_iff_eq.2 rfl]
  · have greater' : d.toNat < c.toNat := greater
    rw [compare_gt_iff_gt.2 greater, compare_gt_iff_gt.2 (by omega)]

theorem takeDigits_cons {c : Char} (h : c.isDigit = true) (width : Nat) (rest : List Char) :
    takeDigits (width + 1) (c :: rest) =
      (digitOf c :: (takeDigits width rest).1, (takeDigits width rest).2) := by
  rw [takeDigits, digit?, digitValue?_isDigit h]

theorem takeDigits_mark {c : Char} (h : c.isDigit = false) (width : Nat) (rest : List Char) :
    takeDigits width (c :: rest) = ([], c :: rest) := by
  cases width with
  | zero => rfl
  | succ width => rw [takeDigits, digit?, digitValue?_not_isDigit h]

/-- As many digits are taken as there are, and no more than the width. -/
theorem takeDigits_length (width : Nat) (text : List Char) :
    (takeDigits width text).1.length = min width (spanDigits text).1.length := by
  induction text generalizing width with
  | nil => cases width <;> simp [takeDigits, spanDigits]
  | cons c rest ih =>
    rw [spanDigits]
    cases width with
    | zero => simp [takeDigits]
    | succ width =>
      rw [takeDigits, digit?]
      cases digitValue? 10 c with
      | none => simp
      | some d => simp [ih, Nat.succ_min_succ]

/-- The number that a width of digits spells, with zeros in the place of those
that are not there. -/
def scaled : Nat → List Char → Nat
  | 0, _ => 0
  | _ + 1, [] => 0
  | width + 1, c :: rest =>
    if c.isDigit = true then digitOf c * 10 ^ width + scaled width rest else 0

/-- A scaled fraction has no more digits than its width. -/
theorem scaled_lt (width : Nat) (text : List Char) : scaled width text < 10 ^ width := by
  induction width generalizing text with
  | zero => exact Nat.one_pos
  | succ width ih =>
    cases text with
    | nil => exact Nat.pow_pos (by decide)
    | cons c rest =>
      rw [scaled]
      split
      · next digit =>
        calc digitOf c * 10 ^ width + scaled width rest
          _ < digitOf c * 10 ^ width + 10 ^ width := Nat.add_lt_add_left (ih rest) _
          _ = (digitOf c + 1) * 10 ^ width := (Nat.succ_mul _ _).symm
          _ ≤ 10 * 10 ^ width := Nat.mul_le_mul_right _ (digitOf_lt digit)
          _ = 10 ^ (width + 1) := (Nat.pow_succ').symm
      · exact Nat.pow_pos (by decide)

theorem foldl_digits (ms : List Nat) (a : Nat) :
    ms.foldl (fun value d => 10 * value + d) a = a * 10 ^ ms.length + digitsValue ms := by
  induction ms generalizing a with
  | nil => simp [digitsValue]
  | cons m ms ih =>
    have first : digitsValue (m :: ms) = m * 10 ^ ms.length + digitsValue ms := by
      rw [← ih m, digitsValue, List.foldl_cons, Nat.mul_zero, Nat.zero_add]
    have weight : 10 * a * 10 ^ ms.length = a * 10 ^ (m :: ms).length := by
      rw [List.length_cons, Nat.pow_succ', Nat.mul_comm 10 a, Nat.mul_assoc]
    rw [List.foldl_cons, ih, first, Nat.add_mul, weight, Nat.add_assoc]

/-- Scaling is filling up the digits that were taken with zeros. -/
theorem scaled_eq (width : Nat) (text : List Char) :
    digitsValue (takeDigits width text).1 * 10 ^ (width - (takeDigits width text).1.length) =
      scaled width text := by
  induction width generalizing text with
  | zero => rfl
  | succ width ih =>
    cases text with
    | nil => rw [takeDigits, scaled, digitsValue, List.foldl_nil, Nat.zero_mul]
    | cons c rest =>
      rw [scaled]
      split
      · next digit =>
        have few : (takeDigits width rest).1.length ≤ width := by
          rw [takeDigits_length]
          exact Nat.min_le_left _ _
        -- The digit in front is worth the whole width, however many digits follow.
        have power : 10 ^ (takeDigits width rest).1.length *
            10 ^ (width - (takeDigits width rest).1.length) = 10 ^ width := by
          rw [← Nat.pow_add, Nat.add_sub_cancel' few]
        rw [takeDigits_cons digit, ← ih rest, digitsValue, List.foldl_cons, foldl_digits,
          List.length_cons, Nat.succ_sub_succ, Nat.add_mul, Nat.mul_assoc, power]
        simp
      · next mark =>
        rw [takeDigits_mark (Bool.eq_false_iff.2 mark), digitsValue, List.foldl_nil, Nat.zero_mul]

/-- The digits order the numbers, the first one before the others. -/
theorem compare_scaled_cons {c d : Char} (hc : c.isDigit = true) (hd : d.isDigit = true)
    (width : Nat) (cs ds : List Char) :
    compare (scaled (width + 1) (c :: cs)) (scaled (width + 1) (d :: ds)) =
      (compare c d).then (compare (scaled width cs) (scaled width ds)) := by
  rw [scaled, scaled, if_pos hc, if_pos hd, compare_mul_add_nat (scaled_lt _ _) (scaled_lt _ _),
    compare_isDigit hc hd]

theorem scaled_mark {c : Char} (h : c.isDigit = false) (width : Nat) (rest : List Char) :
    scaled width (c :: rest) = 0 := by
  cases width with
  | zero => rfl
  | succ width => rw [scaled, h, if_neg Bool.false_ne_true]

theorem spanDigits_cons {c : Char} (h : c.isDigit = true) (rest : List Char) :
    spanDigits (c :: rest) = (digitOf c :: (spanDigits rest).1, (spanDigits rest).2) := by
  rw [spanDigits, digitValue?_isDigit h]

theorem spanDigits_mark {c : Char} (h : c.isDigit = false) (rest : List Char) :
    spanDigits (c :: rest) = ([], c :: rest) := by
  rw [spanDigits, digitValue?_not_isDigit h]

/-- No digit is left where digits end. -/
theorem spanDigits_rest (width : Nat) (text : List Char) :
    (spanDigits (takeDigits width text).2).2 = (spanDigits text).2 := by
  induction width generalizing text with
  | zero => rfl
  | succ width ih =>
    cases text with
    | nil => rfl
    | cons c rest =>
      rcases Bool.eq_false_or_eq_true c.isDigit with digit | mark
      · rw [takeDigits_cons digit, spanDigits_cons digit, ih]
      · rw [takeDigits_mark mark]

/-! ### Numbers of a width -/

/-- Aligned texts begin with as many digits of a width, which order them. -/
theorem takeDigits_advances (width : Nat) (aligned : Aligned cs ds) :
    (takeDigits width cs).1.length = (takeDigits width ds).1.length ∧
      Advances cs ds (compare (scaled width cs) (scaled width ds)) (takeDigits width cs).2
        (takeDigits width ds).2 := by
  -- Along the width: a digit that both have leaves the decision to what follows,
  -- a mark ends both, and runs that differ decide at once.
  induction width generalizing cs ds with
  | zero =>
    refine ⟨rfl, ?_⟩
    rw [scaled, scaled, compare_eq_iff_eq.2 rfl]
    exact .refl aligned
  | succ width ih =>
    cases aligned with
    | nil =>
      refine ⟨rfl, ?_⟩
      rw [compare_eq_iff_eq.2 rfl]
      exact .refl .nil
    | @skip _ c cs ds rest =>
      have whole : Aligned (c :: cs) (c :: ds) := .skip rest
      rcases Bool.eq_false_or_eq_true c.isDigit with digit | mark
      · have noPoint : c ≠ '.' := by
          rintro rfl
          cases digit
        have first := Advances.skip whole noPoint
        obtain ⟨length, advances⟩ := ih (first.aligned rfl)
        rw [takeDigits_cons digit, takeDigits_cons digit, compare_scaled_cons digit digit,
          compare_eq_iff_eq.2 (rfl : c = c)]
        exact ⟨congrArg Nat.succ length, first.trans fun _ => advances⟩
      · rw [takeDigits_mark mark, takeDigits_mark mark, scaled_mark mark, scaled_mark mark,
          compare_eq_iff_eq.2 rfl]
        exact ⟨rfl, .refl whole⟩
    | @whole c d cs ds hc hd differ run =>
      rw [takeDigits_cons hc, takeDigits_cons hd, compare_scaled_cons hc hd]
      refine ⟨?_, .decided differ⟩
      rw [List.length_cons, List.length_cons, takeDigits_length, takeDigits_length, run]

/-- Numbers of equally many digits compare as their texts do. -/
theorem digitsValue_advances (width : Nat) (aligned : Aligned cs ds) :
    Advances cs ds
      (compare (digitsValue (takeDigits width cs).1) (digitsValue (takeDigits width ds).1))
      (takeDigits width cs).2 (takeDigits width ds).2 := by
  obtain ⟨length, advances⟩ := takeDigits_advances width aligned
  rw [← scaled_eq, ← scaled_eq, length, compare_mul (Nat.pow_pos (by decide))] at advances
  exact advances

/-! ### Runs of digits -/

/-- All digits at the front are taken, if there are not too many. -/
theorem takeDigits_eq_spanDigits {width : Nat} {text : List Char}
    (few : (spanDigits text).1.length ≤ width) : takeDigits width text = spanDigits text := by
  induction text generalizing width with
  | nil => cases width <;> rfl
  | cons c rest ih =>
    rw [spanDigits] at few ⊢
    cases value : digitValue? 10 c with
    | none =>
      cases width with
      | zero => rfl
      | succ width => rw [takeDigits, digit?, value]
    | some d =>
      simp only [value, List.length_cons] at few
      cases width with
      | zero => omega
      | succ width =>
        rw [takeDigits, digit?, value, ih (by omega)]

theorem spanDigits_length_le (text : List Char) : (spanDigits text).1.length ≤ text.length := by
  induction text with
  | nil => exact le_rfl
  | cons c rest ih =>
    rw [spanDigits]
    split <;> simp only [List.length_cons, List.length_nil] <;> omega

/-- The runs of digits that two aligned texts begin with order them. -/
theorem spanDigits_advances (aligned : Aligned cs ds) :
    Advances cs ds (compare (digitsValue (spanDigits cs).1) (digitsValue (spanDigits ds).1))
      (spanDigits cs).2 (spanDigits ds).2 := by
  have advances := digitsValue_advances (max cs.length ds.length) aligned
  rwa [takeDigits_eq_spanDigits ((spanDigits_length_le cs).trans (le_max_left _ _)),
    takeDigits_eq_spanDigits ((spanDigits_length_le ds).trans (le_max_right _ _))] at advances

/-! ### Digits of fractions -/

/-- What is left of the nine digits of two fractions orders them. -/
theorem scaled_advances {k : Nat} (aligned : AlignedFrom (some k) cs ds) :
    Advances cs ds (compare (scaled (9 - k) cs) (scaled (9 - k) ds)) (spanDigits cs).2
      (spanDigits ds).2 := by
  induction cs generalizing k ds with
  | nil =>
    cases aligned
    rw [compare_eq_iff_eq.2 rfl]
    exact .refl .nil
  | cons c cs ih =>
    cases aligned with
    | @skip _ _ _ ds rest =>
      rcases Bool.eq_false_or_eq_true c.isDigit with digit | mark
      · have noPoint : c ≠ '.' := by
          rintro rfl
          cases digit
        simp only [placeAfter, if_neg noPoint, digit, if_true, Option.map_some] at rest
        have later := ih rest
        -- The same digit in both adds nothing to the order, within the nine or beyond them.
        have same : compare (scaled (9 - k) (c :: cs)) (scaled (9 - k) (c :: ds)) =
            compare (scaled (9 - (k + 1)) cs) (scaled (9 - (k + 1)) ds) := by
          rcases Nat.lt_or_ge k 9 with counts | beyond
          · have width : 9 - k = 9 - (k + 1) + 1 := by omega
            rw [width, compare_scaled_cons digit digit, compare_eq_iff_eq.2 (rfl : c = c),
              Ordering.eq_then]
          · rw [Nat.sub_eq_zero_of_le beyond, Nat.sub_eq_zero_of_le (Nat.le_succ_of_le beyond)]
            rfl
        rw [same, spanDigits_cons digit, spanDigits_cons digit]
        refine ⟨?_, later.aligned⟩
        rw [compare_cons, compare_eq_iff_eq.2 (rfl : c = c), Ordering.eq_then, later.order]
      · rw [scaled_mark mark, scaled_mark mark, spanDigits_mark mark, spanDigits_mark mark,
          compare_eq_iff_eq.2 rfl]
        exact .refl (AlignedFrom.any_place (.skip rest) mark none)
    | @part _ _ d _ ds hc hd differ counts =>
      have width : 9 - k = 9 - (k + 1) + 1 := by omega
      rw [width, compare_scaled_cons hc hd]
      exact .decided differ

end Calendar

end EntityQuery
