/-
EntityQuery/Proofs/Reread.lean

Documents read back from their text.

The compact text of a value is read back as the value (`Json.read?_text`), if
its containers do not nest deeper than the reader follows, its integers fit
64 bits, no object has two members of one name, and the text of each double
in it reads back as this double (`Json.Faithful`).  The last is asked of
every double by itself, since the reader makes a double in two roundings.

What a reader takes from the front of a text does not depend on what follows,
as long as this cannot belong to a number (`Ends`); in the text of a
container, a comma or a closing bracket follows every value.  So the induction
is on the value, with whatever may follow it.
-/
import EntityQuery.Json.Read
import EntityQuery.Json.Text
import EntityQuery.Proofs.Keyed
import EntityQuery.Proofs.Lexeme

namespace EntityQuery

open Document (Digitless spanDigits_append digitOf digitValue?_isDigit)

/-! ### Values that text holds -/

/-- The number is read back from its text: an integer fits 64 bits, and a
double is the one that its digits spell. -/
def JsonNumber.Faithful : JsonNumber → Prop
  | .int i => IntegerRange.int64.has i = true ∨ IntegerRange.nat64.has i = true
  | .float x finite =>
    Json.readNumber (Json.numberText (.float x finite)) = some (.float x finite, [])

namespace Json

mutual

/-- Numbers are read back from their texts, and no object has two members of
one name. -/
def Faithful : Json → Prop
  | .number n => n.Faithful
  | .array items => AllFaithful items
  | .object members => (Keyed.keys members).Nodup ∧ MembersFaithful members
  | _ => True

/-- All items are faithful. -/
def AllFaithful : List Json → Prop
  | [] => True
  | x :: xs => Faithful x ∧ AllFaithful xs

/-- The values of all members are faithful. -/
def MembersFaithful : List (String × Json) → Prop
  | [] => True
  | (_, x) :: xs => Faithful x ∧ MembersFaithful xs

end

mutual

/-- The greatest number of containers inside each other. -/
def depth : Json → Nat
  | .array items => depthOf items + 1
  | .object members => depthOfMembers members + 1
  | _ => 0

/-- The greatest depth of items. -/
def depthOf : List Json → Nat
  | [] => 0
  | x :: xs => max (depth x) (depthOf xs)

/-- The greatest depth of the values of members. -/
def depthOfMembers : List (String × Json) → Nat
  | [] => 0
  | (_, x) :: xs => max (depth x) (depthOfMembers xs)

end

/-! ### Strings -/

theorem hexFour?_hexDigit {n : Nat} (h : n < 32) :
    hexFour? '0' '0' (hexDigit (n / 16)) (hexDigit n) = some n := by
  have all : ∀ n < 32, hexFour? '0' '0' (hexDigit (n / 16)) (hexDigit n) = some n := by decide
  exact all n h

/-- A character is read back from the way it is written in quotes. -/
theorem readStringFrom_escapeChar (c : Char) (read rest : List Char) :
    readStringFrom none read (escapeChar c ++ rest) = readStringFrom none (c :: read) rest := by
  unfold escapeChar
  split
  · subst_vars; rfl
  split
  · subst_vars; rfl
  split
  · subst_vars; rfl
  split
  · subst_vars; rfl
  split
  · subst_vars; rfl
  split
  · subst_vars; rfl
  split
  · subst_vars; rfl
  split
  -- Other control characters are written as their code, which stands for no surrogate.
  · next control =>
    have control : c.toNat < 32 := control
    simp only [List.cons_append, List.nil_append]
    rw [readStringFrom, hexFour?_hexDigit control]
    dsimp only
    rw [if_neg (by omega), if_neg (by omega), Char.ofNat_toNat]
  · next quote backslash _ _ _ _ _ visible =>
    rw [List.singleton_append, readStringFrom.eq_def]
    split
    · contradiction
    · next e => exact absurd (List.cons.inj e).1 backslash
    · next e => exact absurd (List.cons.inj e).1 backslash
    · next e =>
      obtain ⟨rfl, rfl⟩ := List.cons.inj e
      rw [if_neg (by simp [backslash, visible]), if_neg quote]

/-- A quoted text stands between quotes, whatever follows. -/
theorem quoted_append (s : String) (rest : List Char) :
    quoted s ++ rest = '"' :: (s.toList.flatMap escapeChar ++ '"' :: rest) := by
  rw [quoted, List.cons_append, List.append_assoc]
  rfl

/-- A string is read back from its characters in quotes. -/
theorem readString_quoted (s : String) (rest : List Char) :
    readString (s.toList.flatMap escapeChar ++ '"' :: rest) = some (s, rest) := by
  have inside : ∀ (cs read : List Char), readStringFrom none read
      (cs.flatMap escapeChar ++ '"' :: rest) = some (String.ofList (read.reverse ++ cs), rest) := by
    intro cs
    induction cs with
    | nil =>
      intro read
      rw [List.append_nil]
      rfl
    | cons c cs ih =>
      intro read
      rw [List.flatMap_cons, List.append_assoc, readStringFrom_escapeChar, ih]
      simp
  rw [readString, inside, List.reverse_nil, List.nil_append, String.ofList_toList]

/-! ### Numbers -/

/-- Nothing follows, or something that ends a number. -/
def Ends (rest : List Char) : Prop := ∀ c, rest.head? = some c → c = ',' ∨ c = ']' ∨ c = '}'

theorem ends_cons {c : Char} (h : c = ',' ∨ c = ']' ∨ c = '}') (rest : List Char) :
    Ends (c :: rest) := by
  rintro d ⟨⟩
  exact h

/-- What ends a value is no digit. -/
theorem Ends.digitless {rest : List Char} (h : Ends rest) : Digitless rest := by
  intro c hc
  rcases h c hc with rfl | rfl | rfl <;> rfl

/-- Digits are spanned alike before any end. -/
theorem spanDigits_append_rest (text : List Char) {rest : List Char} (h : Digitless rest) :
    spanDigits (text ++ rest) = ((spanDigits text).1, (spanDigits text).2 ++ rest) := by
  induction text with
  | nil => exact spanDigits_append (List.forall_mem_nil _) h
  | cons c text ih =>
    rw [List.cons_append, spanDigits, spanDigits]
    cases digitValue? 10 c with
    | none => rfl
    | some d => rw [ih]

/-- The digits of a power of ten, behind its letter and sign. -/
def powerAfter (negative : Bool) (digits : List Char) : Option (Int × List Char) :=
  match spanDigits digits with
  | ([], _) => none
  | (ds, rest) => some (if negative then -(digitsValue ds : Int) else digitsValue ds, rest)

/-- A power is read alike before any end. -/
theorem powerAfter_append (negative : Bool) (digits : List Char) {rest : List Char}
    (ends : Ends rest) : powerAfter negative (digits ++ rest) =
      (powerAfter negative digits).map fun (power, more) => (power, more ++ rest) := by
  simp only [powerAfter]
  rw [spanDigits_append_rest digits ends.digitless]
  rcases spanDigits digits with ⟨- | ⟨d, ds⟩, more⟩ <;> rfl

/-- The sign of a power of ten, and what comes behind it. -/
def powerSign : List Char → Bool × List Char
  | '-' :: digits => (true, digits)
  | '+' :: digits => (false, digits)
  | digits => (false, digits)

theorem powerSign_append (text : List Char) {rest : List Char} (ends : Ends rest) :
    powerSign (text ++ rest) = ((powerSign text).1, (powerSign text).2 ++ rest) := by
  cases text with
  | nil =>
    cases rest with
    | nil => rfl
    | cons c rest => rcases ends c rfl with rfl | rfl | rfl <;> rfl
  | cons c text =>
    by_cases minus : c = '-'
    · subst minus
      rfl
    by_cases plus : c = '+'
    · subst plus
      rfl
    rw [List.cons_append, powerSign, powerSign, List.cons_append] <;> simp [minus, plus]

theorem scanPower_letter {c : Char} (letter : c = 'e' ∨ c = 'E') (text : List Char) :
    scanPower (c :: text) = powerAfter (powerSign text).1 (powerSign text).2 := by
  simp only [scanPower]
  rw [if_pos letter]
  rfl

theorem scanPower_append (text : List Char) {rest : List Char} (ends : Ends rest) :
    scanPower (text ++ rest) = (scanPower text).map fun (power, more) => (power, more ++ rest) := by
  cases text with
  | nil =>
    cases rest with
    | nil => rfl
    | cons c rest => rcases ends c rfl with rfl | rfl | rfl <;> rfl
  | cons c text =>
    by_cases letter : c = 'e' ∨ c = 'E'
    · rw [List.cons_append, scanPower_letter letter, scanPower_letter letter,
        powerSign_append text ends]
      exact powerAfter_append _ _ ends
    · simp only [List.cons_append, scanPower, if_neg letter]
      rfl

/-- A letter for a power of ten is next. -/
def isPowered : List Char → Bool
  | c :: _ => c = 'e' || c = 'E'
  | [] => false

theorem isPowered_append (text : List Char) {rest : List Char} (ends : Ends rest) :
    isPowered (text ++ rest) = isPowered text := by
  cases text with
  | nil =>
    cases rest with
    | nil => rfl
    | cons c rest => rcases ends c rfl with rfl | rfl | rfl <;> rfl
  | cons c text => rfl

/-- The digits after a point, if there is one. -/
def readFraction : List Char → Option (List Nat × Bool × List Char)
  | '.' :: rest =>
    if (spanDigits rest).1.isEmpty then none
    else some ((spanDigits rest).1, true, (spanDigits rest).2)
  | rest => some ([], false, rest)

theorem readFraction_append (text : List Char) {rest : List Char} (ends : Ends rest) :
    readFraction (text ++ rest) =
      (readFraction text).map fun (part, pointed, more) => (part, pointed, more ++ rest) := by
  cases text with
  | nil =>
    cases rest with
    | nil => rfl
    | cons c rest => rcases ends c rfl with rfl | rfl | rfl <;> rfl
  | cons c text =>
    by_cases point : c = '.'
    · subst point
      rw [List.cons_append, readFraction, readFraction,
        spanDigits_append_rest text ends.digitless]
      split <;> rfl
    · rw [List.cons_append, readFraction, readFraction, Option.map_some]
      · rfl
      all_goals simp [point]

/-- An integer, or else the double of a significand, if there is one. -/
def numberOf? (negative whole : Bool) (i : Int) (x? : Option Binary64) : Option JsonNumber :=
  if whole && (IntegerRange.int64.has i || IntegerRange.nat64.has i) then some (.int i)
  else x?.bind fun x =>
    let signed := if negative then x.neg else x
    if h : signed.isFinite then some (.float signed h) else none

/-- The number in digits. -/
def numberIn? (negative : Bool) (whole part : List Nat) (pointed powered : Bool) (power : Int) :
    Option JsonNumber :=
  let (significand, extra) := appendWhole 0 whole
  let (longer, count) := appendPart significand part
  numberOf? negative (extra = 0 && !pointed && !powered && !(negative && significand = 0))
    (if negative then -significand else significand) (scaled longer (power + extra - count))

/-- A number is read in three parts, which are then put together. -/
theorem readMagnitude_eq (negative : Bool) (text : List Char) :
    readMagnitude negative text =
      if (spanDigits text).1.isEmpty then none
      else if (spanDigits text).1.head? = some 0 ∧ 1 < (spanDigits text).1.length then none
      else (readFraction (spanDigits text).2).bind fun (part, pointed, rest) =>
        (scanPower rest).bind fun (power, more) =>
          (numberIn? negative (spanDigits text).1 part pointed (isPowered rest) power).map
            fun n => (n, more) := by
  -- The parts after the digits are read in the same way with a point and without.
  have ending : ∀ (whole : Bool) (i : Int) (x? : Option Binary64) (more : List Char),
      (if whole = true then
        if (IntegerRange.int64.has i || IntegerRange.nat64.has i) = true then pure (.int i, more)
        else do
          let x ← x?
          let signed := if negative then x.neg else x
          if h : signed.isFinite then pure (JsonNumber.float signed h, more) else none
      else do
        let x ← x?
        let signed := if negative then x.neg else x
        if h : signed.isFinite then pure (JsonNumber.float signed h, more) else none) =
      (numberOf? negative whole i x?).map fun n => (n, more) := by
    intro whole i x? more
    simp only [numberOf?]
    generalize (IntegerRange.int64.has i || IntegerRange.nat64.has i) = fits
    rcases x? with - | x
    · cases whole <;> cases fits <;> rfl
    · by_cases finite : (if negative then x.neg else x).isFinite = true <;>
        cases whole <;> cases fits <;> simp [finite]
  simp only [readMagnitude]
  rcases spanDigits text with ⟨whole, rest⟩
  dsimp only
  split
  · rfl
  split
  · rfl
  split
  · next rest =>
    simp only [readFraction]
    split
    · rfl
    · exact congrArg (Option.bind (scanPower (spanDigits rest).2)) (funext fun _ => ending _ _ _ _)
  · next noPoint =>
    rw [readFraction]
    · exact congrArg (Option.bind (scanPower rest)) (funext fun _ => ending _ _ _ _)
    · exact noPoint

theorem readMagnitude_append (negative : Bool) (text : List Char) {rest : List Char}
    (ends : Ends rest) : readMagnitude negative (text ++ rest) =
      (readMagnitude negative text).map fun (n, more) => (n, more ++ rest) := by
  rw [readMagnitude_eq, readMagnitude_eq, spanDigits_append_rest text ends.digitless]
  dsimp only
  split
  · rfl
  split
  · rfl
  -- Each stage stops where it did before, since the end is part of none.
  rw [readFraction_append _ ends]
  rcases readFraction (spanDigits text).2 with - | ⟨part, pointed, more⟩
  · rfl
  dsimp only [Option.map_some, Option.bind_some]
  rw [scanPower_append _ ends, isPowered_append _ ends]
  rcases scanPower more with - | ⟨power, more⟩
  · rfl
  dsimp only [Option.map_some, Option.bind_some]
  rw [Option.map_map]
  rfl

/-- A number is read in front of what cannot belong to it. -/
theorem readNumber_append {text : List Char} {n : JsonNumber} {rest : List Char}
    (h : readNumber text = some (n, [])) (ends : Ends rest) :
    readNumber (text ++ rest) = some (n, rest) := by
  cases text with
  | nil => cases h
  | cons c text =>
    by_cases minus : c = '-'
    · subst minus
      have h : readMagnitude true text = some (n, []) := h
      show readMagnitude true (text ++ rest) = _
      rw [readMagnitude_append true text ends, h]
      rfl
    · have plain : ∀ more, readNumber (c :: more) = readMagnitude false (c :: more) := by
        intro more
        rw [readNumber]
        simpa using minus
      rw [plain] at h
      rw [List.cons_append, plain, ← List.cons_append, readMagnitude_append false _ ends, h]
      rfl

/-! ### Integers -/

theorem has_iff {range : IntegerRange} {i : Int} :
    range.has i = true ↔ range.least ≤ i ∧ i ≤ range.greatest := by
  rw [IntegerRange.has, decide_eq_true_eq]

/-- Digits that fit into a significand are all kept. -/
theorem appendWhole_eq {ds : List Nat} {significand n : Nat}
    (value : ds.foldl (fun n d => 10 * n + d) significand = n) (fits : n ≤ significandLimit) :
    appendWhole significand ds = (n, 0) := by
  induction ds generalizing significand with
  | nil => exact congrArg (·, 0) value
  | cons d ds ih =>
    -- Digits only make the significand greater, so that it fits at every step if
    -- it does at the end.
    have grows : ∀ (ds : List Nat) (m : Nat), m ≤ ds.foldl (fun n d => 10 * n + d) m := by
      intro ds
      induction ds with
      | nil => exact fun m => le_refl m
      | cons d ds ih => exact fun m => le_trans (by omega) (ih (10 * m + d))
    have next : significand * 10 + d = 10 * significand + d := by omega
    have here : significand * 10 + d ≤ significandLimit := by
      rw [next]
      exact (grows ds _).trans (value ▸ fits)
    rw [appendWhole, if_pos here]
    exact ih (by rw [next]; exact value)

/-- A number other than zero has no zero in front. -/
theorem head?_toDigits {n : Nat} (h : (Nat.toDigits 10 n).head? = some '0') : n = 0 := by
  induction n using Nat.strongRecOn with
  | _ n ih =>
    by_cases small : n < 10
    · have digits : ∀ n < 10, (Nat.toDigits 10 n).head? = some '0' → n = 0 := by decide
      exact digits n small h
    · rw [Nat.toDigits_of_base_le (by decide) (by omega),
        List.head?_append_of_ne_nil _ Nat.toDigits_ne_nil] at h
      have := ih (n / 10) (by omega) h
      omega

/-- A number in digits has no zero in front of another digit. -/
theorem noLeadingZero (n : Nat) : ¬(((Nat.toDigits 10 n).map digitOf).head? = some 0 ∧
    1 < ((Nat.toDigits 10 n).map digitOf).length) := by
  rintro ⟨zero, several⟩
  rw [List.head?_map, Option.map_eq_some_iff] at zero
  obtain ⟨c, first, value⟩ := zero
  have digit := (Sql.digits_toDigits n).2 c (List.mem_of_head? first)
  have : c = '0' := by
    have bounds := Document.isDigit_iff.1 digit
    have low : '0'.toNat ≤ c.toNat := bounds.1
    rw [digitOf] at value
    exact Char.ext (UInt32.toNat_inj.1 (show c.toNat = '0'.toNat by omega))
  subst this
  rw [head?_toDigits first] at several
  exact absurd several (by decide)

/-- An integer of 64 bits is read back from its digits. -/
theorem readMagnitude_toDigits (negative : Bool) {n : Nat} (sign : negative = true → n ≠ 0)
    (range : (IntegerRange.int64.has (if negative then -(n : Int) else n) ||
      IntegerRange.nat64.has (if negative then -(n : Int) else n)) = true) :
    readMagnitude negative (Nat.toDigits 10 n) =
      some (.int (if negative then -(n : Int) else n), []) := by
  have digits := Sql.digits_toDigits n
  have span : spanDigits (Nat.toDigits 10 n) = ((Nat.toDigits 10 n).map digitOf, []) := by
    have nothing : Digitless [] := by nofun
    have span := spanDigits_append digits.2 nothing
    rwa [List.append_nil] at span
  have value : ((Nat.toDigits 10 n).map digitOf).foldl (fun n d => 10 * n + d) 0 = n :=
    (Document.digitsValue_map (Nat.toDigits 10 n)).trans (Sql.digitsNumber_toDigits n)
  have fits : n ≤ significandLimit := by
    rw [Bool.or_eq_true, has_iff, has_iff] at range
    simp only [IntegerRange.int64, IntegerRange.nat64] at range
    rw [significandLimit]
    split at range <;> omega
  -- Nothing follows the digits, so that they are the integer if it is in range.
  have whole : numberIn? negative ((Nat.toDigits 10 n).map digitOf) [] false false 0 =
      some (.int (if negative then -(n : Int) else n)) := by
    rw [numberIn?, appendWhole_eq value fits]
    dsimp only
    rw [numberOf?, if_pos]
    rw [range, Bool.and_true]
    cases negative with
    | false => rfl
    | true => simpa using sign rfl
  rw [readMagnitude_eq, span]
  dsimp only
  rw [if_neg (by simp), if_neg (noLeadingZero n)]
  show ((numberIn? negative ((Nat.toDigits 10 n).map digitOf) [] false false 0).map fun n =>
    (n, [])) = _
  rw [whole]
  rfl

/-- The text of an integer of 64 bits is read back. -/
theorem readNumber_integerText {i : Int}
    (h : IntegerRange.int64.has i = true ∨ IntegerRange.nat64.has i = true) :
    readNumber (integerText i) = some (.int i, []) := by
  rw [← Bool.or_eq_true] at h
  rw [integerText]
  split
  · next negative =>
    have back : -(i.natAbs : Int) = i := by omega
    have := readMagnitude_toDigits true (n := i.natAbs) (fun _ => by omega)
    simp only [if_true, back] at this
    exact this h
  · next positive =>
    have back : (i.natAbs : Int) = i := by omega
    have := readMagnitude_toDigits false (n := i.natAbs) fun e => absurd e Bool.false_ne_true
    simp only [Bool.false_eq_true, if_false, back] at this
    rw [← this h, readNumber]
    rintro text e
    have minus : '-' ∈ Nat.toDigits 10 i.natAbs := e ▸ List.mem_cons_self
    exact absurd ((Sql.digits_toDigits i.natAbs).2 _ minus) (by decide)

/-- The text of a number that is read back. -/
theorem JsonNumber.readNumber_numberText {n : JsonNumber} (h : n.Faithful) :
    readNumber (numberText n) = some (n, []) := by
  cases n with
  | int i => exact readNumber_integerText h
  | float x finite => exact h

/-! ### How a value begins -/

/-- Nothing is skipped where no space is. -/
theorem skipSpace_cons {c : Char} (h : isSpace c = false) (text : List Char) :
    skipSpace (c :: text) = c :: text := by
  rw [skipSpace, List.dropWhile_cons_of_neg (by simp [h])]

/-- The character of a number is a sign or a digit. -/
theorem readNumber_begins {c : Char} {text : List Char} {result : JsonNumber × List Char}
    (h : readNumber (c :: text) = some result) : c = '-' ∨ (digitValue? 10 c).isSome := by
  by_cases minus : c = '-'
  · exact .inl minus
  · right
    rw [readNumber, readMagnitude_eq, spanDigits] at h
    · cases digit : digitValue? 10 c with
      | none =>
        rw [digit] at h
        cases h
      | some d => rfl
    · simpa using minus

/-- A number begins with none of the characters of another value. -/
theorem apart_of_readNumber {c : Char} {text : List Char} {result : JsonNumber × List Char}
    (h : readNumber (c :: text) = some result) : isSpace c = false ∧
      c ∉ ['"', 'n', 't', 'f', '[', '{', ']'] := by
  constructor
  · rw [← Bool.not_eq_true]
    intro space
    simp only [isSpace, Bool.or_eq_true, decide_eq_true_eq] at space
    rcases space with ((rfl | rfl) | rfl) | rfl <;>
      exact absurd (readNumber_begins h) (by decide)
  · intro other
    simp only [List.mem_cons, List.not_mem_nil, or_false] at other
    rcases other with rfl | rfl | rfl | rfl | rfl | rfl | rfl <;>
      exact absurd (readNumber_begins h) (by decide)

/-- A value begins with no blank and not with what ends an array. -/
theorem begins {j : Json} (h : j.Faithful) :
    ∃ c text, chars j = c :: text ∧ isSpace c = false ∧ c ≠ ']' := by
  match j with
  | .null => exact ⟨_, _, rfl, rfl, by decide⟩
  | .bool true => exact ⟨_, _, rfl, rfl, by decide⟩
  | .bool false => exact ⟨_, _, rfl, rfl, by decide⟩
  | .string s => exact ⟨_, _, rfl, rfl, by decide⟩
  | .array [] => exact ⟨_, _, rfl, rfl, by decide⟩
  | .array (x :: xs) => exact ⟨_, _, rfl, rfl, by decide⟩
  | .object [] => exact ⟨_, _, rfl, rfl, by decide⟩
  | .object ((name, x) :: xs) => exact ⟨_, _, rfl, rfl, by decide⟩
  | .number n =>
    have read := JsonNumber.readNumber_numberText h
    -- The text of a number is not empty, since it is read back.
    cases text : numberText n with
    | nil =>
      rw [text] at read
      cases read
    | cons c text' =>
      rw [text] at read
      obtain ⟨space, other⟩ := apart_of_readNumber read
      exact ⟨c, text', text, space, fun e => other (by rw [e]; decide)⟩

/-! ### Values -/

/-- Where no container begins, an atom is read. -/
theorem readValue_atom {c : Char} (space : isSpace c = false) (list : c ≠ '[')
    (object : c ≠ '{') (depth : Nat) (text : List Char) :
    readValue depth (c :: text) = readAtom (c :: text) := by
  cases depth with
  | zero =>
    rw [readValue, skipSpace_cons space]
    split
    · next e => exact absurd (List.cons.inj e).1 list
    · next e => exact absurd (List.cons.inj e).1 object
    · rfl
  | succ depth =>
    rw [readValue, skipSpace_cons space]
    split
    · next e => exact absurd (List.cons.inj e).1 list
    · next e => exact absurd (List.cons.inj e).1 object
    · rfl

/-- A bracket opens a list, one level less deep. -/
theorem readValue_list (depth : Nat) (text : List Char) :
    readValue (depth + 1) ('[' :: text) = readArray (readValue depth) text := by
  rw [readValue, skipSpace_cons rfl]
  rfl

/-- A brace opens an object. -/
theorem readValue_object (depth : Nat) (text : List Char) :
    readValue (depth + 1) ('{' :: text) = readObject (readValue depth) text := by
  rw [readValue, skipSpace_cons rfl]
  rfl

/-- A number is read back in front of what ends it. -/
theorem readValue_number {n : JsonNumber} (h : n.Faithful) (depth : Nat) {rest : List Char}
    (ends : Ends rest) : readValue depth (numberText n ++ rest) = some (.number n, rest) := by
  have read := JsonNumber.readNumber_numberText h
  have whole := readNumber_append read ends
  cases text : numberText n with
  | nil =>
    rw [text] at read
    cases read
  | cons c more =>
    rw [text] at read whole
    obtain ⟨space, other⟩ := apart_of_readNumber read
    simp only [List.mem_cons, List.not_mem_nil, or_false, not_or] at other
    rw [List.cons_append, readValue_atom space (by tauto) (by tauto), readAtom]
    · rw [← List.cons_append, whole]
      rfl
    all_goals simp [other]

/-- Items one after another cannot be more than the characters of their text. -/
theorem length_moreItems (xs : List Json) : xs.length < (moreItems xs).length := by
  induction xs with
  | nil => exact Nat.zero_lt_one
  | cons x xs ih =>
    rw [moreItems, List.length_cons, List.length_cons, List.length_append]
    omega

theorem length_moreMembers (xs : List (String × Json)) :
    xs.length < (moreMembers xs).length := by
  induction xs with
  | nil => exact Nat.zero_lt_one
  | cons member xs ih =>
    obtain ⟨name, x⟩ := member
    simp only [moreMembers, List.length_cons, List.length_append]
    omega

/-- Every item of a list is ended by what follows it. -/
theorem ends_moreItems (xs : List Json) (rest : List Char) : Ends (moreItems xs ++ rest) := by
  cases xs with
  | nil => exact ends_cons (by decide) _
  | cons x xs => exact ends_cons (by decide) _

theorem ends_moreMembers (xs : List (String × Json)) (rest : List Char) :
    Ends (moreMembers xs ++ rest) := by
  cases xs with
  | nil => exact ends_cons (by decide) _
  | cons member xs => exact ends_cons (by decide) _

section containers

variable {item : Reader} {x : Json} {name : String} {text rest : List Char}

/-- The last item of a list is read up to the bracket. -/
theorem readItems_last (fuel : Nat) (read : item text = some (x, ']' :: rest)) :
    readItems item (fuel + 1) text = some ([x], rest) := by
  rw [readItems, read]
  rfl

/-- Any other item is read up to the comma. -/
theorem readItems_more {fuel : Nat} {more : List Char} {xs : List Json}
    (read : item text = some (x, ',' :: more))
    (others : readItems item fuel more = some (xs, rest)) :
    readItems item (fuel + 1) text = some (x :: xs, rest) := by
  rw [readItems, read]
  show (readItems item fuel more).bind _ = _
  rw [others]
  rfl

/-- The last member of an object is read up to the brace. -/
theorem readMembers_last (fuel : Nat) (read : item text = some (x, '}' :: rest)) :
    readMembers item (fuel + 1) (quoted name ++ ':' :: text) = some ([(name, x)], rest) := by
  rw [quoted_append, readMembers]
  show (readString _).bind _ = _
  rw [readString_quoted]
  show (item text).bind _ = _
  rw [read]
  rfl

/-- Any other member is read up to the comma. -/
theorem readMembers_more {fuel : Nat} {more : List Char} {xs : List (String × Json)}
    (read : item text = some (x, ',' :: more))
    (others : readMembers item fuel more = some (xs, rest)) :
    readMembers item (fuel + 1) (quoted name ++ ':' :: text) = some ((name, x) :: xs, rest) := by
  rw [quoted_append, readMembers]
  show (readString _).bind _ = _
  rw [readString_quoted]
  show (item text).bind _ = _
  rw [read]
  show (readMembers item fuel more).bind _ = _
  rw [others]
  rfl

/-- An array is not empty if an item begins in it. -/
theorem readArray_items {xs : List Json} {c : Char} (space : isSpace c = false) (h : c ≠ ']')
    (items : readItems item (c :: text).length (c :: text) = some (xs, rest)) :
    readArray item (c :: text) = some (.array xs, rest) := by
  rw [readArray, skipSpace_cons space]
  split
  · next e => exact absurd (List.cons.inj e).1 h
  · rw [items]
    rfl

/-- An object with members of different names keeps them as they stand. -/
theorem readObject_members {xs : List (String × Json)} (nodup : (Keyed.keys xs).Nodup)
    (members : readMembers item ('"' :: text).length ('"' :: text) = some (xs, rest)) :
    readObject item ('"' :: text) = some (.object xs, rest) := by
  rw [readObject, skipSpace_cons rfl]
  show (readMembers item ('"' :: text).length ('"' :: text)).map _ = _
  rw [members]
  show some (Json.object (Keyed.ofPairs xs), rest) = _
  rw [Keyed.ofPairs_eq_self nodup]

end containers

mutual

/-- A value is read back in front of what ends it. -/
theorem readValue_chars : (j : Json) → j.Faithful → ∀ depth : Nat, j.depth ≤ depth →
    ∀ rest : List Char, Ends rest → readValue depth (chars j ++ rest) = some (j, rest)
  | .null, _, depth, _, rest, _ => readValue_atom rfl (by decide) (by decide) depth _
  | .bool true, _, depth, _, rest, _ => readValue_atom rfl (by decide) (by decide) depth _
  | .bool false, _, depth, _, rest, _ => readValue_atom rfl (by decide) (by decide) depth _
  | .number n, faithful, depth, _, rest, ends => readValue_number faithful depth ends
  | .string s, _, depth, _, rest, _ => by
    rw [chars, quoted_append, readValue_atom rfl (by decide) (by decide), readAtom,
      readString_quoted]
    rfl
  | .array [], _, depth, deep, rest, _ => by
    cases depth with
    | zero => exact absurd deep (by simp [Json.depth])
    | succ depth => rfl
  | .array (x :: xs), faithful, depth, deep, rest, _ => by
    obtain ⟨first, others⟩ := faithful
    rw [Json.depth, depthOf] at deep
    obtain ⟨depth, rfl⟩ := Nat.exists_eq_add_of_le' (Nat.le_of_add_left_le deep)
    obtain ⟨c, text, begin, space, inside⟩ := begins first
    -- Every further item takes at least its comma, so that the fuel that the text gives lasts.
    have enough : xs.length < (chars x ++ (moreItems xs ++ rest)).length := by
      have := length_moreItems xs
      rw [List.length_append, List.length_append]
      omega
    have items := readItems_chars xs others depth (by omega) x
      (readValue_chars x first depth (by omega)) _ enough rest
    rw [chars, List.cons_append, List.append_assoc, readValue_list]
    rw [begin, List.cons_append] at items ⊢
    exact readArray_items space inside items
  | .object [], _, depth, deep, rest, _ => by
    cases depth with
    | zero => exact absurd deep (by simp [Json.depth])
    | succ depth => rfl
  | .object ((name, x) :: xs), faithful, depth, deep, rest, _ => by
    obtain ⟨nodup, first, others⟩ := faithful
    rw [Json.depth, depthOfMembers] at deep
    obtain ⟨depth, rfl⟩ := Nat.exists_eq_add_of_le' (Nat.le_of_add_left_le deep)
    have enough : xs.length <
        (quoted name ++ ':' :: (chars x ++ (moreMembers xs ++ rest))).length := by
      have := length_moreMembers xs
      simp only [List.length_append, List.length_cons]
      omega
    have members := readMembers_chars xs others depth (by omega) name x
      (readValue_chars x first depth (by omega)) _ enough rest
    rw [chars, List.cons_append, List.append_assoc, List.cons_append, List.append_assoc,
      readValue_object]
    rw [quoted_append] at members ⊢
    exact readObject_members nodup members

/-- Items are read back up to the end of their array. -/
theorem readItems_chars : (xs : List Json) → AllFaithful xs → ∀ depth : Nat, depthOf xs ≤ depth →
    ∀ x : Json,
    (∀ rest : List Char, Ends rest → readValue depth (chars x ++ rest) = some (x, rest)) →
    ∀ fuel : Nat, xs.length < fuel → ∀ rest : List Char,
    readItems (readValue depth) fuel (chars x ++ (moreItems xs ++ rest)) = some (x :: xs, rest)
  | [], _, depth, _, x, read, fuel + 1, _, rest =>
    readItems_last fuel (read _ (ends_moreItems [] rest))
  | y :: ys, ⟨first, others⟩, depth, deep, x, read, fuel + 1, enough, rest => by
    rw [depthOf] at deep
    have more := readItems_chars ys others depth (by omega) y
      (readValue_chars y first depth (by omega)) fuel (Nat.lt_of_succ_lt_succ enough) rest
    have read := read _ (ends_moreItems (y :: ys) rest)
    rw [moreItems, List.cons_append, List.append_assoc] at read ⊢
    exact readItems_more read more

/-- Members are read back up to the end of their object. -/
theorem readMembers_chars : (xs : List (String × Json)) → MembersFaithful xs →
    ∀ depth : Nat, depthOfMembers xs ≤ depth → ∀ (name : String) (x : Json),
    (∀ rest : List Char, Ends rest → readValue depth (chars x ++ rest) = some (x, rest)) →
    ∀ fuel : Nat, xs.length < fuel → ∀ rest : List Char,
    readMembers (readValue depth) fuel
      (quoted name ++ ':' :: (chars x ++ (moreMembers xs ++ rest))) = some ((name, x) :: xs, rest)
  | [], _, depth, _, name, x, read, fuel + 1, _, rest =>
    readMembers_last fuel (read _ (ends_moreMembers [] rest))
  | (other, y) :: ys, ⟨first, others⟩, depth, deep, name, x, read, fuel + 1, enough, rest => by
    rw [depthOfMembers] at deep
    have more := readMembers_chars ys others depth (by omega) other y
      (readValue_chars y first depth (by omega)) fuel (Nat.lt_of_succ_lt_succ enough) rest
    have read := read _ (ends_moreMembers ((other, y) :: ys) rest)
    rw [moreMembers, List.cons_append, List.append_assoc, List.cons_append,
      List.append_assoc] at read ⊢
    exact readMembers_more read more

end

/-- The text of a value is read back as the value. -/
theorem read?_text {j : Json} (faithful : j.Faithful) (deep : j.depth ≤ maxDepth) :
    read? j.text = some j := by
  have read := readValue_chars j faithful maxDepth deep [] (by nofun)
  rw [List.append_nil] at read
  rw [read?, readWithin, text, String.toList_ofList, read]
  rfl

end Json

end EntityQuery
