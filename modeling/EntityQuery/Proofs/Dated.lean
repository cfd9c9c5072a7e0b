/-
EntityQuery/Proofs/Dated.lean

Filters of dates and moments.

A text that denotes a point of time is taken in as it is written, and the
store compares texts by their characters.  In texts that are spelled alike
(`ScalarKind.Alike`) this is the order of time: a test of a field holds of the
points of time that stand in its relation to those of the operand
(`dates_chronological`).  In other texts it is not, so a date without zeros in
front is not found by the same date with them, and a moment comes after a
later one that has another offset (`Sample.not_chronological`).
-/
import EntityQuery.Proofs.Tested
import EntityQuery.Proofs.Timed
import Mathlib.Data.Set.List

namespace EntityQuery

open Store

namespace ScalarKind

/-! ### Texts and points of time -/

/-- The point of time that a text of a scalar denotes, if the scalar takes the
text. -/
inductive Denotes : ScalarKind → String → Instant → Prop
  | date {text : String} {d : Date} (read : Date.read text = .ok d) :
      Denotes .date text d.instant
  | moment {text : String} {m : Moment} (read : Moment.read text = .ok m) :
      Denotes .dateTime text m.instant

/-- Two texts of a scalar are spelled alike: they are aligned, their years are
the same or not before the year zero, and if they are moments, their offsets
are the same. -/
inductive Alike : ScalarKind → String → String → Prop
  | date {a b : String} {d e : Date} (readA : Date.read a = .ok d) (readB : Date.read b = .ok e)
      (aligned : Aligned a.toList b.toList)
      (later : d.year = e.year ∨ 0 ≤ d.year ∧ 0 ≤ e.year) : Alike .date a b
  | moment {a b : String} {m n : Moment} (readA : Moment.read a = .ok m)
      (readB : Moment.read b = .ok n) (aligned : Aligned a.toList b.toList)
      (later : m.date.year = n.date.year ∨ 0 ≤ m.date.year ∧ 0 ≤ n.date.year)
      (offset : m.offset = n.offset) : Alike .dateTime a b

variable {kind : ScalarKind} {a b text : String} {x y : Instant}

theorem Denotes.unique (hx : kind.Denotes text x) (hy : kind.Denotes text y) : x = y := by
  cases hx with
  | date readX =>
    cases hy with
    | date readY =>
      rw [readX] at readY
      cases readY
      rfl
  | moment readX =>
    cases hy with
    | moment readY =>
      rw [readX] at readY
      cases readY
      rfl

/-- Texts that are spelled alike are in the order of the points of time that
they denote. -/
theorem Alike.compare_eq (h : kind.Alike a b) (hx : kind.Denotes a x) (hy : kind.Denotes b y) :
    compare a b = compare x y := by
  rw [compare_toList]
  cases h with
  | date readA readB aligned later =>
    obtain rfl := hx.unique (.date readA)
    obtain rfl := hy.unique (.date readB)
    obtain ⟨frontA, thereA⟩ := Date.read_eq_ok readA
    obtain ⟨frontB, thereB⟩ := Date.read_eq_ok readB
    rw [Date.compare_instant thereA thereB]
    exact (Calendar.date_advances aligned frontA frontB later).decides fun _ => rfl
  | moment readA readB aligned later offset =>
    obtain rfl := hx.unique (.moment readA)
    obtain rfl := hy.unique (.moment readB)
    exact (Moment.spelled_of_read readA).compare_eq (Moment.spelled_of_read readB) aligned later
      offset

/-- Dates written with four, two and two digits are spelled alike. -/
theorem alike_of_strictDate {d e : Date} (hd : Calendar.strictDate a.toList = .ok (d, []))
    (he : Calendar.strictDate b.toList = .ok (e, [])) (thereD : d.exists? = true)
    (thereE : e.exists? = true) : Alike .date a b := by
  -- A strict date has digits alone in its year, which is therefore not below zero.
  have read {text : String} {d : Date} (h : Calendar.strictDate text.toList = .ok (d, []))
      (there : d.exists? = true) : Date.read text = .ok d ∧ 0 ≤ d.year := by
    constructor
    · rw [Date.read, Calendar.strictDate_date h, Outcome.ok_bind]
      simp [Calendar.finish, Calendar.existing, there]
    · obtain ⟨⟨y, text₁⟩, -, h⟩ := Outcome.bind_eq_ok.1 h
      obtain ⟨text₂, -, h⟩ := Outcome.bind_eq_ok.1 h
      obtain ⟨⟨m, text₃⟩, -, h⟩ := Outcome.bind_eq_ok.1 h
      obtain ⟨text₄, -, h⟩ := Outcome.bind_eq_ok.1 h
      obtain ⟨⟨n, text₅⟩, -, h⟩ := Outcome.bind_eq_ok.1 h
      cases h
      exact Int.natCast_nonneg y
  obtain ⟨shape, noPoint⟩ := Calendar.strictDate_shape hd he
  exact .date (read hd thereD).1 (read he thereE).1 (shape.aligned noPoint)
    (.inr ⟨(read hd thereD).2, (read he thereE).2⟩)

/-- Texts that are alike compare as the points in time that they denote. -/
theorem Alike.comparesAs (h : kind.Alike a b) (hx : kind.Denotes a x) (hy : kind.Denotes b y) :
    ComparesAs (.string a) x (.string b) y :=
  ⟨rfl, congrArg some (h.compare_eq hx hy)⟩

theorem Alike.forall₂_comparesAs {texts : List String} {xs : List Instant}
    (hx : kind.Denotes a x) (denote : List.Forall₂ kind.Denotes texts xs)
    (alike : ∀ t ∈ texts, kind.Alike a t) :
    List.Forall₂ (ComparesAs (.string a) x) (texts.map .string) xs := by
  induction denote with
  | nil => exact .nil
  | cons here _ ih =>
    obtain ⟨first, rest⟩ := List.forall_mem_cons.1 alike
    exact .cons (first.comparesAs hx here) (ih rest)

end ScalarKind

/-! ### Operands of scalars for points of time -/

namespace Coercion

variable {scalar text : String} {v : Json}

/-- A text is taken as a date exactly if it denotes one, and then as it is
written. -/
theorem checkDate_string : checkDate scalar (.string text) = .ok v ↔
    v = .string text ∧ ∃ x, ScalarKind.Denotes .date text x := by
  rw [checkDate]
  constructor
  · intro h
    split at h
    · next d read =>
      cases h
      exact ⟨rfl, d.instant, .date read⟩
    · cases h
  · rintro ⟨rfl, x, denoted⟩
    cases denoted with
    | date read => rw [read]

theorem checkDateTime_string : checkDateTime scalar (.string text) = .ok v ↔
    v = .string text ∧ ∃ x, ScalarKind.Denotes .dateTime text x := by
  rw [checkDateTime]
  constructor
  · intro h
    split at h
    · next m read =>
      cases h
      exact ⟨rfl, m.instant, .moment read⟩
    · cases h
  · rintro ⟨rfl, x, denoted⟩
    cases denoted with
    | moment read => rw [read]

/-- A scalar for dates or moments takes null and the texts that denote points
of time, as they are written. -/
theorem check_timed {kind : ScalarKind} {lenient : Bool} {value : Json}
    (timed : kind = .date ∨ kind = .dateTime) :
    check scalar kind lenient value = .ok v ↔
      v = value ∧ (value = .null ∨ ∃ text x, value = .string text ∧ kind.Denotes text x) := by
  cases value with
  | null =>
    simp only [check, Json.isNull, if_true, Except.ok.injEq, true_or, and_true]
    exact eq_comm
  | string text =>
    simp only [check, Json.isNull, Bool.false_eq_true, if_false, reduceCtorEq, false_or,
      Json.string.injEq, exists_and_left, exists_eq_left']
    rcases timed with rfl | rfl
    · exact checkDate_string
    · exact checkDateTime_string
  | _ =>
    simp only [check, Json.isNull, Bool.false_eq_true, if_false, reduceCtorEq, false_or, false_and,
      exists_false, and_false, iff_false]
    rintro taken
    rcases timed with rfl | rfl <;> cases taken

end Coercion

namespace Predicate

variable {vars : Variables} {context name description : String} {kind : ScalarKind}
variable {operand : Operand} {operator : FilterOperator} {values : List Json}

/-- An operand of a timed scalar is null, or a text that denotes a point in
time. -/
theorem coerce_timed (timed : kind = .date ∨ kind = .dateTime) {value v : Json}
    (resolved : operand.resolve vars = .ok value) :
    coerce vars context (.plain name description kind) operand = .ok v ↔
      v = value ∧ (value = .null ∨ ∃ text x, value = .string text ∧ kind.Denotes text x) := by
  rw [coerce, resolved, Outcome.ok_bind]
  dsimp only
  rw [Outcome.mapError_eq_ok]
  split <;> exact Coercion.check_timed timed

/-- What an operand supplies an operator with are texts that denote points of
time, if it is not null. -/
theorem Supplies.texts (timed : kind = .date ∨ kind = .dateTime)
    (h : Supplies vars context (.plain name description kind) operand operator values)
    (present : ∀ v ∈ values, v ≠ .null) :
    ∃ texts : List String, values = texts.map .string ∧ ∀ t ∈ texts, ∃ x, kind.Denotes t x := by
  have each : ∀ v ∈ values, ∃ text x, v = .string text ∧ kind.Denotes text x := by
    intro v hv
    obtain ⟨o, coerced⟩ := h.coerced v hv
    obtain ⟨value, resolved, -⟩ := Outcome.bind_eq_ok.1 coerced
    obtain ⟨rfl, null | denoted⟩ := (coerce_timed timed resolved).1 coerced
    · exact absurd null (present v hv)
    · exact denoted
  have range : values ∈ Set.range (List.map Json.string) := by
    rw [Set.range_list_map]
    intro v hv
    obtain ⟨text, x, rfl, -⟩ := each v hv
    exact ⟨text, rfl⟩
  obtain ⟨texts, rfl⟩ := range
  refine ⟨texts, rfl, fun t ht => ?_⟩
  obtain ⟨text, x, same, denoted⟩ := each _ (List.mem_map_of_mem ht)
  cases same
  exact ⟨x, denoted⟩

/-- The scalar supports every operator that is supplied with values. -/
theorem Supplies.supports (timed : kind = .date ∨ kind = .dateTime)
    (h : Supplies vars context (.plain name description kind) operand operator values) :
    (ScalarBinding.plain name description kind).supports operator = true := by
  cases h with
  | value compares _ =>
    rcases timed with rfl | rfl <;> cases operator <;> first | rfl | cases compares
  | candidates list _ =>
    rcases timed with rfl | rfl <;> cases operator <;> first | rfl | cases list

end Predicate

/-! ### All comparisons -/

open Planner Joins Planning in
/-- **Dates and moments are compared in the order of time, if their texts are
spelled alike.**  So are dates with four, two and two digits, and moments of
the same shape without fractions.  Texts that are equal to the store always
denote the same point of time. -/
theorem dates_chronological [Disorder] {schemaName : String} {descriptors : List EntityDescriptor}
    {registry : ScalarRegistry} {s : QuerySchema}
    (built : QuerySchema.build schemaName descriptors registry = .ok s) :
    -- Two texts.
    (∀ (kind : ScalarKind) a b x y, kind.Denotes a x → kind.Denotes b y →
      (kind.Alike a b → compareValues (.string a) (.string b) = some (compare x y)) ∧
      (compareValues (.string a) (.string b) = some .eq → x = y)) ∧
    -- Texts that are spelled alike.
    (∀ a b (d e : Date), Calendar.strictDate a.toList = .ok (d, []) →
      Calendar.strictDate b.toList = .ok (e, []) → d.exists? = true → e.exists? = true →
        ScalarKind.Alike .date a b) ∧
    (∀ a b (m n : Moment), Moment.read a = .ok m → Moment.read b = .ok n →
      Calendar.SameShape a.toList b.toList → '.' ∉ a.toList →
      m.date.year = n.date.year ∨ 0 ≤ m.date.year ∧ 0 ≤ n.date.year → m.offset = n.offset →
        ScalarKind.Alike .dateTime a b) ∧
    -- The points of time of dates.
    (∀ d e : Date, d.exists? = true → e.exists? = true → compare d.instant e.instant =
      (compare d.year e.year).then ((compare d.month e.month).then (compare d.day e.day))) ∧
    -- What an operand is taken in as, and what operands supply.
    (∀ (vars : Variables) context name description kind operand value v,
      kind = .date ∨ kind = .dateTime → operand.resolve vars = .ok value →
        (Predicate.coerce vars context (.plain name description kind) operand = .ok v ↔
          v = value ∧ (value = .null ∨ ∃ text x, value = .string text ∧ kind.Denotes text x))) ∧
    (∀ (vars : Variables) context name description kind operand operator values,
      kind = .date ∨ kind = .dateTime →
      Predicate.Supplies vars context (.plain name description kind) operand operator values →
      (∀ v ∈ values, v ≠ .null) →
        ∃ texts : List String, values = texts.map .string ∧
          ∀ t ∈ texts, ∃ x, kind.Denotes t x) ∧
    -- The leaf of a filter, compiled anywhere, on joined rows.
    (∀ (root : EntityType) vars leaf between g name description kind operator
        (texts : List String) xs,
      kind = .date ∨ kind = .dateTime →
      Predicate.Tests s root vars leaf between g (.plain name description kind) operator
        (texts.map .string) →
      List.Forall₂ kind.Denotes texts xs → ∀ d : Draft, d.parameters.Sequential →
        ∃ e d', Gives (Predicate.compileLeaf s root vars leaf) d e d' ∧
          ∀ binding (choice : Choice), AgreesAt d'.joins binding choice between →
            ∀ a x, cellOf (choice between) g.descriptor.column = .string a → kind.Denotes a x →
              (∀ t ∈ texts, kind.Alike a t) →
                ∃ t : Bool, eval d'.parameters binding e = .ok (.bool t) ∧
                  (t = true ↔ operator.Asks x xs)) ∧
    -- The root field, restricted by criteria.
    ∀ (vars : Variables) field plan (entity : EntityType) fieldName g name description kind
        (operator : FilterOperator) value (texts : List String) xs,
      s.root? field.name = some entity → field.argument? whereArgument = none →
      planRootField s vars field = .ok plan → Criteria.isCombinator fieldName = false →
      entity.field? fieldName = some g → g.binding = some (.plain name description kind) →
      kind = .date ∨ kind = .dateTime →
      Predicate.Supplies vars fieldName (.plain name description kind) (.ofValue value) operator
        (texts.map .string) →
      List.Forall₂ kind.Denotes texts xs →
      ∃ plan', planRootField s vars (field.restrictedBy (.tests fieldName operator value)) =
          .ok plan' ∧
        (∀ row a x, cellOf (some row) g.descriptor.column = .string a → kind.Denotes a x →
          (∀ t ∈ texts, kind.Alike a t) →
            (plan'.query.holds row = true ↔ operator.Asks x xs)) ∧
        ∀ (tables : Tables) rootRows limit,
          Keyed.find? tables plan.query.table = some rootRows →
            tables.run (plan.query.limitedTo limit) =
              .ok (Tables.arranged plan.query.order limit
                (rootRows.flatMap (tables.answersFor plan.query))) ∧
            tables.run (plan'.query.limitedTo limit) =
              .ok (Tables.arranged plan.query.order limit
                ((rootRows.filter plan'.query.holds).flatMap (tables.answersFor plan.query))) ∧
            ∀ row, tables.answersFor plan.query row ≠ [] := by
  have native {name description : String} {kind : ScalarKind}
      (timed : kind = .date ∨ kind = .dateTime) :
      (ScalarBinding.plain name description kind).storage = .native := by
    rcases timed with rfl | rfl <;> rfl
  refine ⟨?_, ?_, ?_, ?_, ?_, ?_, ?_, ?_⟩
  · intro kind a b x y hx hy
    refine ⟨fun alike => (alike.comparesAs hx hy).order, fun equal => ?_⟩
    have same : a = b := compare_eq_iff_eq.1 (Option.some.inj equal)
    rw [← same] at hy
    exact hx.unique hy
  · intro a b d e hd he thereD thereE
    exact ScalarKind.alike_of_strictDate hd he thereD thereE
  · intro a b m n readA readB shape noPoint later offset
    exact .moment readA readB (shape.aligned noPoint) later offset
  · intro d e hd he
    exact Date.compare_instant hd he
  · intro vars context name description kind operand value v timed resolved
    exact Predicate.coerce_timed timed resolved
  · intro vars context name description kind operand operator values timed supplies present
    exact supplies.texts timed present
  · intro root vars leaf between g name description kind operator texts xs timed tests denote d
      sequential
    obtain ⟨e, d', compiled, said⟩ := tests.eval (native timed) sequential
    refine ⟨e, d', compiled, fun binding choice agrees a x cell denoted alike => ?_⟩
    have said := said binding choice agrees x xs
    rw [cell] at said
    exact said rfl (ScalarKind.Alike.forall₂_comparesAs denoted denote alike)
  · intro vars field plan entity fieldName g name description kind operator value texts xs root
      unrestricted planned plain found bound timed supplies denote
    obtain ⟨plan', planned', holds, runs⟩ := run_tested built plain root unrestricted planned found
      bound (supplies.supports timed) (native timed) supplies
    refine ⟨plan', planned', fun row a x cell denoted alike => ?_, runs⟩
    have holds := holds row x xs
    rw [cell] at holds
    exact holds rfl (ScalarKind.Alike.forall₂_comparesAs denoted denote alike)

/-! ### A timetable -/

namespace Sample

/-- The day of a trip, a date. -/
def day : SchemaField :=
  QuerySchema.scalarField ⟨"day", "day", .scalar "Date"⟩
    (.plain "Date" "Calendar date (YYYY-MM-DD)" .date)

/-- The departure of a trip, a moment. -/
def departure : SchemaField :=
  QuerySchema.scalarField ⟨"departure", "departure", .scalar "DateTime"⟩
    (.plain "DateTime" "Date and time (RFC 3339)" .dateTime)

/-- Trips with a day and a departure. -/
def trip : EntityDescriptor :=
  ⟨"Trip", some "trips", none, "trips", some "id",
    [id.descriptor, day.descriptor, departure.descriptor]⟩

/-- Trips in the schema. -/
def trips : EntityType := ⟨trip, "trips", criteriaTypeName "trips", [id, day, departure], id⟩

/-- The schema of a timetable. -/
def timetable : QuerySchema := ⟨"timetable", [trips], .empty⟩

theorem timetable_built : QuerySchema.build "timetable" [trip] .empty = .ok timetable := rfl

/-- The root field of all trips. -/
def allTrips : Document.Field := .mk none "trips" [] [.mk none "select" [] [leaf "id"]]

/-- A trip on a day written without a zero, which departs at eight in universal
time. -/
def early : Tables :=
  [("trips", [[("id", .string "1"), ("day", .string "2024-1-15"),
    ("departure", .string "2024-01-15T10:00:00+02:00")]])]

/-- The trips under a test of a field, by their identifiers. -/
def tripsWhere (name : String) (operator : FilterOperator) (text : String) :
    Except ExecutionError Json :=
  (Executor.executeRoot ⟨timetable, none⟩ (fun q => (pure (early.run q) : Id _)) []
    (allTrips.restrictedBy (.tests name operator (.string text)))).run

/-- The trip is not found by its day, but after a later day; it is not found
by its departure in universal time, but after a later departure. -/
theorem not_chronological :
    ¬(∀ (kind : ScalarKind) a b x y, kind.Denotes a x → kind.Denotes b y →
      compareValues (.string a) (.string b) = some (compare x y)) ∧
    tripsWhere "day" .eq "2024-01-15" = .ok (.object [("select", .array [])]) ∧
    tripsWhere "day" .gt "2024-01-20" =
      .ok (.object [("select", .array [.object [("id", .string "1")]])]) ∧
    tripsWhere "departure" .eq "2024-01-15 08:00:00" = .ok (.object [("select", .array [])]) ∧
    tripsWhere "departure" .gt "2024-01-15T09:00:00Z" =
      .ok (.object [("select", .array [.object [("id", .string "1")]])]) := by
  refine ⟨fun chronological => ?_, rfl, rfl, rfl, rfl⟩
  have same := chronological .date "2024-1-15" "2024-01-15" _ _
    (.date (d := ⟨2024, 1, 15⟩) rfl) (.date (d := ⟨2024, 1, 15⟩) rfl)
  exact absurd same (by decide)

/-- The first day of a month, and the last one of the month before: the months
differ. -/
theorem alike_days : ScalarKind.Alike .date "2024-02-01" "2024-01-31" :=
  .date (d := ⟨2024, 2, 1⟩) (e := ⟨2024, 1, 31⟩) rfl rfl
    (.skip <| .skip <| .skip <| .skip <| .skip <| .skip <| .whole rfl rfl (by decide) rfl)
    (.inl rfl)

/-- Two departures of a morning, one with a fraction: the hours differ. -/
theorem alike_departures :
    ScalarKind.Alike .dateTime "2024-01-15T09:30:00.5+02:00" "2024-01-15T10:00:00+02:00" :=
  .moment (m := ⟨⟨2024, 1, 15⟩, ⟨9, 30, 0, 500000000⟩, 7200⟩)
    (n := ⟨⟨2024, 1, 15⟩, ⟨10, 0, 0, 0⟩, 7200⟩) rfl rfl
    (.skip <| .skip <| .skip <| .skip <| .skip <| .skip <| .skip <| .skip <| .skip <| .skip <|
      .skip <| .whole rfl rfl (by decide) rfl) (.inl rfl) rfl

end Sample

/-- In the timetable the first day of a month is after the last one of the
month before, and a departure at half past nine is not at ten or later. -/
theorem dates_chronological_timetable :
    QuerySchema.build "timetable" [Sample.trip] .empty = .ok Sample.timetable ∧
    (∃ plan, Planning.planRootField Sample.timetable []
        (Sample.allTrips.restrictedBy (.tests "day" .gt (.string "2024-01-31"))) = .ok plan ∧
      plan.query.holds [("day", .string "2024-02-01")] = true) ∧
    ∃ plan, Planning.planRootField Sample.timetable []
        (Sample.allTrips.restrictedBy
          (.tests "departure" .ge (.string "2024-01-15T10:00:00+02:00"))) = .ok plan ∧
      plan.query.holds [("departure", .string "2024-01-15T09:30:00.5+02:00")] = false := by
  refine ⟨Sample.timetable_built, ?_⟩
  obtain ⟨-, -, -, -, -, -, -, restricted⟩ := dates_chronological Sample.timetable_built
  have planned : Planning.planRootField Sample.timetable [] Sample.allTrips = .ok _ := rfl
  constructor
  · have first : ScalarKind.Denotes .date "2024-02-01" _ := .date (d := ⟨2024, 2, 1⟩) rfl
    have last : ScalarKind.Denotes .date "2024-01-31" _ := .date (d := ⟨2024, 1, 31⟩) rfl
    obtain ⟨plan, planned', holds, -⟩ := restricted [] _ _ Sample.trips "day" Sample.day _ _ .date
      .gt (.string "2024-01-31") ["2024-01-31"] _ rfl rfl planned (by decide) rfl rfl (.inl rfl)
      (.value rfl rfl) (.cons last .nil)
    have after := holds [("day", .string "2024-02-01")] _ _ rfl first
      (List.forall_mem_singleton.2 Sample.alike_days)
    exact ⟨plan, planned', after.2 (compare_gt_iff_gt.1 (by decide))⟩
  · have half : ScalarKind.Denotes .dateTime "2024-01-15T09:30:00.5+02:00" _ :=
      .moment (m := ⟨⟨2024, 1, 15⟩, ⟨9, 30, 0, 500000000⟩, 7200⟩) rfl
    have ten : ScalarKind.Denotes .dateTime "2024-01-15T10:00:00+02:00" _ :=
      .moment (m := ⟨⟨2024, 1, 15⟩, ⟨10, 0, 0, 0⟩, 7200⟩) rfl
    obtain ⟨plan, planned', holds, -⟩ := restricted [] _ _ Sample.trips "departure"
      Sample.departure _ _ .dateTime .ge (.string "2024-01-15T10:00:00+02:00")
      ["2024-01-15T10:00:00+02:00"] _ rfl rfl planned (by decide) rfl rfl (.inr rfl)
      (.value rfl rfl) (.cons ten .nil)
    have before := holds [("departure", .string "2024-01-15T09:30:00.5+02:00")] _ _ rfl half
      (List.forall_mem_singleton.2 Sample.alike_departures)
    refine ⟨plan, planned', ?_⟩
    rw [← Bool.not_eq_true, before]
    exact not_le_of_gt (compare_lt_iff_lt.1 (by decide))

end EntityQuery
