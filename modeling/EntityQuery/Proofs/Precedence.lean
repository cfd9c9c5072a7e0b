/-
EntityQuery/Proofs/Precedence.lean

The order that a column gives rows.

Strings are ordered by their bytes and truth values stand for integers.  A
column in which all values that are not null are strings, or all are truth
values and integers of 64 bits, so has an order, which may be reversed; nulls
come after all values in both directions (`Precedes`).  Several columns order
rows by the first of them in which the rows differ (`PrecedesBy`).

Characters are compared by their code points.  In UTF-8 this is the same as
comparing bytes, since the encodings of two characters differ at some byte,
and the first one at which they do decides like the code points
(`utf8EncodeChar_lt`).
-/
import EntityQuery.Proofs.Preorder
import EntityQuery.Proofs.Stable

namespace EntityQuery

/-! ### Bytes -/

/-- The bytes of a text. -/
def bytesOf (s : String) : List UInt8 := s.toUTF8.data.toList

theorem bytesOf_eq (s : String) : bytesOf s = s.toList.flatMap String.utf8EncodeChar := by
  have bytes : s.toUTF8 = (s.toList.flatMap String.utf8EncodeChar).toByteArray := by
    conv => lhs; rw [← String.ofList_toList (s := s)]
    rfl
  rw [bytesOf, bytes, List.data_toByteArray]

theorem cons_ofNat_lt {m n : Nat} {xs ys : List UInt8} (byte : n < 256)
    (h : ¬m < n → m = n ∧ xs < ys) : UInt8.ofNat m :: xs < UInt8.ofNat n :: ys := by
  rw [List.cons_lt_cons_iff]
  by_cases less : m < n
  · refine .inl (UInt8.lt_iff_toNat_lt.2 ?_)
    rw [UInt8.toNat_ofNat', UInt8.toNat_ofNat']
    omega
  · obtain ⟨rfl, rest⟩ := h less
    exact .inr ⟨rfl, rest⟩

/-- Beside an encoding another one is in the order of the characters, whatever
follows. -/
theorem utf8EncodeChar_lt {c d : Char} (h : c < d) (xs ys : List UInt8) :
    String.utf8EncodeChar c ++ xs < String.utf8EncodeChar d ++ ys := by
  have less : c.val.toNat < d.val.toNat := h
  have bound : d.val.toNat < 1114112 := by
    have valid : d.val.toNat < 55296 ∨ 57343 < d.val.toNat ∧ d.val.toNat < 1114112 := d.valid
    omega
  simp only [String.utf8EncodeChar]
  generalize c.val.toNat = v at less ⊢
  generalize d.val.toNat = w at less bound ⊢
  -- Encodings of different lengths differ in the first byte.
  split_ifs <;> simp only [List.cons_append, List.nil_append] <;>
    first
      | omega
      | exact cons_ofNat_lt (by omega) fun same => by omega
      | skip
  · exact cons_ofNat_lt (by omega) fun same => ⟨by omega,
      cons_ofNat_lt (by omega) fun same => by omega⟩
  · exact cons_ofNat_lt (by omega) fun same => ⟨by omega,
      cons_ofNat_lt (by omega) fun same => ⟨by omega,
        cons_ofNat_lt (by omega) fun same => by omega⟩⟩
  · -- Digit by digit, the first three being equal as far as they are compared.
    have top : v / 262144 ≤ w / 262144 := Nat.div_le_div_right less.le
    have upper : v / 4096 ≤ w / 4096 := Nat.div_le_div_right less.le
    have lower : v / 64 ≤ w / 64 := Nat.div_le_div_right less.le
    refine cons_ofNat_lt (by omega) fun same => ⟨by omega, ?_⟩
    have top : v / 262144 = w / 262144 := by omega
    refine cons_ofNat_lt (by omega) fun same => ⟨by omega, ?_⟩
    have upper : v / 4096 = w / 4096 := by omega
    refine cons_ofNat_lt (by omega) fun same => ⟨by omega, ?_⟩
    have lower : v / 64 = w / 64 := by omega
    exact cons_ofNat_lt (by omega) fun same => by omega

theorem flatMap_utf8EncodeChar_lt {cs ds : List Char} (h : cs < ds) :
    cs.flatMap String.utf8EncodeChar < ds.flatMap String.utf8EncodeChar := by
  induction ds generalizing cs with
  | nil => exact absurd h (List.not_lt_nil cs)
  | cons d ds ih =>
    cases cs with
    | nil =>
      obtain ⟨b, bs, e⟩ := List.exists_cons_of_ne_nil (String.utf8EncodeChar_ne_nil (c := d))
      rw [List.flatMap_nil, List.flatMap_cons, e]
      exact List.nil_lt_cons _ _
    | cons c cs =>
      rw [List.flatMap_cons, List.flatMap_cons]
      rcases List.cons_lt_cons_iff.1 h with less | ⟨rfl, rest⟩
      · exact utf8EncodeChar_lt less _ _
      · exact List.append_left_lt (ih rest)

/-- Strings are in the order of their bytes. -/
theorem lt_iff_bytesOf_lt {s t : String} : s < t ↔ bytesOf s < bytesOf t := by
  have forth {s t : String} (h : s < t) : bytesOf s < bytesOf t := by
    rw [bytesOf_eq, bytesOf_eq]
    exact flatMap_utf8EncodeChar_lt (String.lt_iff.1 h)
  refine ⟨forth, fun h => ?_⟩
  rcases lt_trichotomy s t with less | rfl | greater
  · exact less
  · exact absurd h (List.lt_irrefl _)
  · exact absurd h (List.lt_asymm (forth greater))

/-! ### Columns -/

namespace Store

/-- The integer of 64 bits that a value is or stands for. -/
def whole? : Json → Option Int
  | .bool b => some (if b then 1 else 0)
  | .number n => n.toInt64?
  | _ => none

/-- The values of a column that has an order: nulls apart, all of them are
strings, or all are truth values and integers of 64 bits. -/
def Uniform (column : List Json) : Prop :=
  (∀ v ∈ column, v ≠ .null → ∃ s, v = .string s) ∨
    ∀ v ∈ column, v ≠ .null → ∃ i, whole? v = some i

/-- One value is less than another. -/
inductive LessThan : Json → Json → Prop
  | strings {s t : String} (less : bytesOf s < bytesOf t) : LessThan (.string s) (.string t)
  | wholes {v w : Json} {i j : Int} (left : whole? v = some i) (right : whole? w = some j)
      (less : i < j) : LessThan v w

/-- One value comes before another in a direction, nulls being last in
both. -/
inductive Precedes : Direction → Json → Json → Prop
  | ascending {v w : Json} (less : LessThan v w) : Precedes .ascending v w
  | descending {v w : Json} (less : LessThan w v) : Precedes .descending v w
  | null {d : Direction} {v : Json} (value : v ≠ .null) : Precedes d v .null

/-- One list of values comes before another: at the first place at which one
of two values precedes the other, it is the one in this list. -/
inductive PrecedesBy : List Direction → List Json → List Json → Prop
  | here {d : Direction} {ds : List Direction} {v w : Json} {vs ws : List Json}
      (first : Precedes d v w) : PrecedesBy (d :: ds) (v :: vs) (w :: ws)
  | later {d : Direction} {ds : List Direction} {v w : Json} {vs ws : List Json}
      (tied : ¬Precedes d v w ∧ ¬Precedes d w v) (rest : PrecedesBy ds vs ws) :
      PrecedesBy (d :: ds) (v :: vs) (w :: ws)

/-- Strings compare by their bytes. -/
theorem compareValues_strings (s t : String) :
    compareValues (.string s) (.string t) = some .lt ↔ bytesOf s < bytesOf t := by
  rw [compareValues, Option.some.injEq, compare_lt_iff_lt, lt_iff_bytesOf_lt]

/-- Truth values and integers compare as integers. -/
theorem compareValues_wholes {v w : Json} {i j : Int} (left : whole? v = some i)
    (right : whole? w = some j) : compareValues v w = some (compare i j) := by
  cases v <;> cases w <;> simp_all [whole?, compareValues, compareNumbers, flagValue]

/-- Values of a column that are not null compare as they are ordered. -/
theorem sortOrder_lt_iff {column : List Json} (uniform : Uniform column) {v w : Json}
    (hv : v ∈ column) (hw : w ∈ column) (left : v ≠ .null) (right : w ≠ .null) :
    sortOrder v w = .lt ↔ LessThan v w := by
  have given {u : Json} (h : u ≠ .null) : u.isNull = false := by
    rw [← Bool.not_eq_true, Json.isNull_iff]
    exact h
  have order : sortOrder v w = (compareValues v w).getD .eq := by
    rw [sortOrder, given left, given right]
  rw [order]
  -- Strings compare by their bytes, truth values and integers as integers.
  rcases uniform with strings | wholes
  · obtain ⟨s, rfl⟩ := strings v hv left
    obtain ⟨t, rfl⟩ := strings w hw right
    have compared := compareValues_strings s t
    constructor
    · intro h
      exact .strings (compared.1 (by rw [← h]; rfl))
    · rintro (⟨less⟩ | ⟨none, -⟩)
      · rw [compared.2 less]
        rfl
      · cases none
  · obtain ⟨i, hi⟩ := wholes v hv left
    obtain ⟨j, hj⟩ := wholes w hw right
    rw [compareValues_wholes hi hj, Option.getD_some, compare_lt_iff_lt]
    refine ⟨.wholes hi hj, fun h => ?_⟩
    cases h with
    | strings => cases hi
    | wholes left right less =>
      rw [hi] at left
      rw [hj] at right
      cases left
      cases right
      exact less

/-- Null is neither less nor greater than anything. -/
theorem LessThan.not_null {v w : Json} (h : LessThan v w) : v ≠ .null ∧ w ≠ .null := by
  cases h with
  | strings => exact ⟨nofun, nofun⟩
  | wholes left right =>
    refine ⟨?_, ?_⟩ <;> rintro rfl
    · cases left
    · cases right

/-- In a column that has an order any two values are ranked. -/
theorem ranked_of_uniform {column : List Json} (uniform : Uniform column) {v w : Json}
    (hv : v ∈ column) (hw : w ∈ column) : Ranked v w := by
  by_cases left : v = .null
  · exact .inl (Json.isNull_iff.2 left)
  by_cases right : w = .null
  · exact .inr (.inl (Json.isNull_iff.2 right))
  refine .inr (.inr (.inr ?_))
  rcases uniform with strings | wholes
  · obtain ⟨s, rfl⟩ := strings v hv left
    obtain ⟨t, rfl⟩ := strings w hw right
    rfl
  · obtain ⟨i, hi⟩ := wholes v hv left
    obtain ⟨j, hj⟩ := wholes w hw right
    rw [compareValues_wholes hi hj]
    rfl

/-- In a column that has an order nothing is rounded. -/
theorem sortOrder_trans_of_uniform {column : List Json} (uniform : Uniform column) {u v w : Json}
    (hu : u ∈ column) (hv : v ∈ column) (hw : w ∈ column) (first : sortOrder u v ≠ .gt)
    (second : sortOrder v w ≠ .gt) : sortOrder u w ≠ .gt := by
  refine (sortOrder_trans_iff (ranked_of_uniform uniform hu hv) (ranked_of_uniform uniform hv hw)
    (ranked_of_uniform uniform hu hw)).2 ?_ first second
  -- The middle of a failure would be no integer of 64 bits, and a column in
  -- order has only those or strings.
  rintro ⟨m, n, k, -, hn, -, i, j, -, -, -, far, -⟩
  have some : v ≠ .null := by
    rintro rfl
    cases hn
  rcases uniform with strings | wholes
  · obtain ⟨s, rfl⟩ := strings v hv some
    cases hn
  · obtain ⟨l, hl⟩ := wholes v hv some
    cases v <;> cases hn
    · rw [toInt64?_flag] at far
      cases far
    · rw [whole?, far] at hl
      cases hl

end Store

/-! ### Keys in a direction -/

namespace Tables

open Store

/-- Beside a null the direction does not matter. -/
theorem keyOrder_null_right (d : Direction) (v : Json) :
    keyOrder d v .null = sortOrder v .null := by
  cases d
  · rfl
  · simp [keyOrder]

theorem keyOrder_null_left (d : Direction) (v : Json) : keyOrder d .null v = sortOrder .null v := by
  cases d
  · rfl
  · simp [keyOrder]

/-- In descending order values that are not null change sides. -/
theorem keyOrder_descending {v w : Json} (left : v ≠ .null) (right : w ≠ .null) :
    keyOrder .descending v w = sortOrder w v := by
  rw [ne_eq, ← Json.isNull_iff, Bool.not_eq_true] at left right
  simp only [keyOrder, left, right, Bool.or_self, Bool.false_eq_true, if_false]
  exact (sortOrder_swap v w).symm

/-- Keys compare the other way round when they change sides. -/
theorem keyOrder_swap (d : Direction) (v w : Json) :
    keyOrder d w v = (keyOrder d v w).swap := by
  cases d with
  | ascending => exact sortOrder_swap v w
  | descending =>
    simp only [keyOrder, Bool.or_comm w.isNull, sortOrder_swap v w]
    split <;> rfl

/-- Nothing comes after a null. -/
theorem sortOrder_null_right (v : Json) : sortOrder v .null ≠ .gt := by
  cases v <;> simp [sortOrder, Json.isNull]

theorem sortOrder_null_right_lt {v : Json} : sortOrder v .null = .lt ↔ v ≠ .null := by
  cases v <;> simp [sortOrder, Json.isNull]

theorem sortOrder_null_left_gt {v : Json} : sortOrder .null v = .gt ↔ v ≠ .null := by
  rw [← sortOrder_null_right_lt, sortOrder_swap v .null]
  cases sortOrder v .null <;> decide

/-- Keys of a column that has an order compare as they precede each other. -/
theorem keyOrder_lt_iff {column : List Json} (uniform : Uniform column) (d : Direction)
    {v w : Json} (hv : v ∈ column) (hw : w ∈ column) :
    keyOrder d v w = .lt ↔ Precedes d v w := by
  -- A null comes last in both directions, so that it is settled before the direction is looked at.
  by_cases right : w = .null
  · subst right
    rw [keyOrder_null_right, sortOrder_null_right_lt]
    constructor
    · exact .null
    · rintro (less | less | some)
      · exact less.not_null.1
      · exact less.not_null.2
      · exact some
  by_cases left : v = .null
  · subst left
    rw [keyOrder_null_left, sortOrder_null_left_gt.2 right]
    refine iff_of_false (by decide) ?_
    rintro (less | less | -)
    · exact less.not_null.1 rfl
    · exact less.not_null.2 rfl
    · exact right rfl
  cases d with
  | ascending =>
    refine (sortOrder_lt_iff uniform hv hw left right).trans ⟨.ascending, ?_⟩
    rintro (less | - | -)
    · exact less
    · exact absurd rfl right
  | descending =>
    rw [keyOrder_descending left right]
    refine (sortOrder_lt_iff uniform hw hv right left).trans ⟨.descending, ?_⟩
    rintro (- | less | -)
    · exact less
    · exact absurd rfl right

/-- Keys of a column that has an order have it in both directions. -/
theorem keyOrder_trans {column : List Json} (uniform : Uniform column) (d : Direction)
    {u v w : Json} (hu : u ∈ column) (hv : v ∈ column) (hw : w ∈ column)
    (first : keyOrder d u v ≠ .gt) (second : keyOrder d v w ≠ .gt) : keyOrder d u w ≠ .gt := by
  -- Before a value that is not null there is no null.
  have last : ∀ {x y : Json}, keyOrder d x y ≠ .gt → y ≠ .null → x ≠ .null := by
    rintro x y le some rfl
    rw [keyOrder_null_left] at le
    exact le (sortOrder_null_left_gt.2 some)
  by_cases hnull : w = .null
  · subst hnull
    rw [keyOrder_null_right]
    exact sortOrder_null_right u
  have middle := last second hnull
  have front := last first middle
  cases d with
  | ascending => exact sortOrder_trans_of_uniform uniform hu hv hw first second
  | descending =>
    rw [keyOrder_descending front middle] at first
    rw [keyOrder_descending middle hnull] at second
    rw [keyOrder_descending front hnull]
    exact sortOrder_trans_of_uniform uniform hw hv hu second first

/-- Keys are equal if neither precedes the other. -/
theorem keyOrder_eq_iff {column : List Json} (uniform : Uniform column) (d : Direction)
    {v w : Json} (hv : v ∈ column) (hw : w ∈ column) :
    keyOrder d v w = .eq ↔ ¬Precedes d v w ∧ ¬Precedes d w v := by
  rw [← keyOrder_lt_iff uniform d hv hw, ← keyOrder_lt_iff uniform d hw hv, keyOrder_swap d v w]
  cases keyOrder d v w <;> decide

/-! ### Several keys -/

/-- Lists of keys compare the other way round when they change sides. -/
theorem keysOrder_swap (ds : List Direction) (vs ws : List Json) :
    keysOrder ds ws vs = (keysOrder ds vs ws).swap := by
  induction ds generalizing vs ws with
  | nil => rfl
  | cons d ds ih =>
    cases vs with
    | nil => cases ws <;> rfl
    | cons v vs =>
      cases ws with
      | nil => rfl
      | cons w ws => rw [keysOrder, keysOrder, keyOrder_swap d v w, ih vs ws, Ordering.swap_then]

theorem then_ne_gt {o p : Ordering} : o.then p ≠ .gt ↔ o = .lt ∨ (o = .eq ∧ p ≠ .gt) := by
  cases o <;> simp

section Keys

variable {α : Type} {keys : List (Direction × (α → Json))} {xs : List α} {a b c : α}

/-- The order that keys give two elements. -/
def orderBy (keys : List (Direction × (α → Json))) (a b : α) : Ordering :=
  keysOrder (keys.map (·.1)) (keys.map (·.2 a)) (keys.map (·.2 b))

theorem orderBy_cons (d : Direction) (value : α → Json) (keys : List (Direction × (α → Json)))
    (a b : α) :
    orderBy ((d, value) :: keys) a b = (keyOrder d (value a) (value b)).then (orderBy keys a b) :=
  rfl

/-- Elements compare as their lists of values precede each other. -/
theorem orderBy_lt_iff (uniform : ∀ key ∈ keys, Uniform (xs.map key.2)) (ha : a ∈ xs)
    (hb : b ∈ xs) : orderBy keys a b = .lt ↔
      PrecedesBy (keys.map (·.1)) (keys.map (·.2 a)) (keys.map (·.2 b)) := by
  -- Along the keys: a later one counts where the earlier ones tie.
  induction keys with
  | nil => exact iff_of_false nofun nofun
  | cons key keys ih =>
    obtain ⟨d, value⟩ := key
    obtain ⟨here, rest⟩ := List.forall_mem_cons.1 uniform
    have va : value a ∈ xs.map value := List.mem_map_of_mem ha
    have vb : value b ∈ xs.map value := List.mem_map_of_mem hb
    rw [orderBy_cons, Ordering.then_eq_lt, keyOrder_lt_iff here d va vb,
      keyOrder_eq_iff here d va vb, ih rest]
    constructor
    · rintro (first | ⟨tied, later⟩)
      · exact .here first
      · exact .later tied later
    · rintro (first | ⟨tied, later⟩)
      · exact .inl first
      · exact .inr ⟨tied, later⟩

/-- Keys of columns that have an order give the elements one. -/
theorem orderBy_trans (uniform : ∀ key ∈ keys, Uniform (xs.map key.2)) (ha : a ∈ xs)
    (hb : b ∈ xs) (hc : c ∈ xs) (first : orderBy keys a b ≠ .gt) (second : orderBy keys b c ≠ .gt) :
    orderBy keys a c ≠ .gt := by
  induction keys with
  | nil => nofun
  | cons key keys ih =>
    obtain ⟨d, value⟩ := key
    obtain ⟨here, rest⟩ := List.forall_mem_cons.1 uniform
    have member : ∀ x ∈ xs, value x ∈ xs.map value := fun x hx => List.mem_map_of_mem hx
    -- Where the first key decides between no two of them, the others decide.
    have trans {x y z : α} (hx : x ∈ xs) (hy : y ∈ xs) (hz : z ∈ xs) :=
      keyOrder_trans here d (member x hx) (member y hy) (member z hz)
    have back {x y : α} := keyOrder_swap d (value x) (value y)
    rw [orderBy_cons, then_ne_gt] at first second ⊢
    have whole := trans ha hb hc
    have left := trans hc ha hb
    have right := trans hb hc ha
    rw [back (x := a) (y := c), back (x := b) (y := c)] at left
    rw [back (x := a) (y := c), back (x := a) (y := b)] at right
    revert whole left right
    rcases first with less | ⟨tied, first⟩ <;> rcases second with less' | ⟨tied', second⟩
    · rw [less, less']
      cases keyOrder d (value a) (value c) <;> simp
    · rw [less, tied']
      cases keyOrder d (value a) (value c) <;> simp
    · rw [tied, less']
      cases keyOrder d (value a) (value c) <;> simp
    · rw [tied, tied']
      cases keyOrder d (value a) (value c) <;> simp [ih rest first second]

/-- Keys of columns that have an order give the elements an order. -/
theorem consistent_orderBy (uniform : ∀ key ∈ keys, Uniform (xs.map key.2)) :
    Consistent (fun a b => orderBy keys a b == .lt) xs := by
  -- Not to precede is not to come after on the other side, and that is transitive.
  have lt_eq_false {a b : α} : (orderBy keys a b == .lt) = false ↔ orderBy keys b a ≠ .gt := by
    rw [show orderBy keys b a = (orderBy keys a b).swap from keysOrder_swap _ _ _]
    cases orderBy keys a b <;> decide
  constructor
  case asymmetric =>
    intro a ha b hb less
    rw [lt_eq_false]
    rw [beq_iff_eq] at less
    rw [less]
    decide
  case transitive =>
    intro a ha b hb c hc first second
    exact lt_eq_false.2 (orderBy_trans uniform ha hb hc (lt_eq_false.1 first)
      (lt_eq_false.1 second))

/-- Sorting by keys that have an order is stable sorting by what their values
say. -/
theorem stablySorted_orderBy [Disorder] (uniform : ∀ key ∈ keys, Uniform (xs.map key.2)) :
    StablySorted
      (fun a b => PrecedesBy (keys.map (·.1)) (keys.map (·.2 a)) (keys.map (·.2 b))) xs
      (arrange (fun a b => orderBy keys a b == .lt) xs) := by
  refine (stablySorted_arrange (consistent_orderBy uniform)).congr fun a ha b hb => ?_
  rw [beq_iff_eq]
  exact orderBy_lt_iff uniform ha hb

/-- What precedes something is not preceded by it. -/
theorem precedesBy_asymm (uniform : ∀ key ∈ keys, Uniform (xs.map key.2)) (ha : a ∈ xs)
    (hb : b ∈ xs) (h : PrecedesBy (keys.map (·.1)) (keys.map (·.2 a)) (keys.map (·.2 b))) :
    ¬PrecedesBy (keys.map (·.1)) (keys.map (·.2 b)) (keys.map (·.2 a)) := by
  rw [← orderBy_lt_iff uniform ha hb] at h
  rw [← orderBy_lt_iff uniform hb ha,
    show orderBy keys b a = (orderBy keys a b).swap from keysOrder_swap _ _ _, h]
  decide

end Keys

end Tables

end EntityQuery
