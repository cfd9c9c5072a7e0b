/-
EntityQuery/Proofs/Candidates.lean

Membership tests beside comparisons with each candidate.

A value is one of several candidates if it equals the first, or the second,
and so on, and it is none of them if it differs from each.  Where a candidate
is null, the comparison with it is unknown, and then so is the whole, unless
an equal candidate decides it.  A membership test only looks for an equal
candidate, and says no if there is none.  So the two part where there is a
value, null is among the candidates and none of them is equal
(`Store.Overlooks`), and nowhere else (`Store.membership_comparisons`).

A test for membership keeps just the rows that the comparisons keep.  A test
for no membership, and the negation of a test for membership, also keep the
rows on which null is overlooked (`Predicate.membership_expanded`,
`Sample.not_expanded`).
-/
import EntityQuery.Proofs.Reached
import EntityQuery.Proofs.Tested

namespace EntityQuery

/-! ### Several truth values -/

namespace Truth

variable {s t : Truth} {ts : List Truth}

theorem any_eq_yes : any ts = .yes ↔ .yes ∈ ts := by
  induction ts with
  | nil => exact ⟨nofun, fun h => absurd h List.not_mem_nil⟩
  | cons t ts ih =>
    have greatest : max t (any ts) = .yes ↔ .yes = t ∨ any ts = .yes := by
      cases t <;> cases any ts <;> decide
    exact greatest.trans ((or_congr_right ih).trans List.mem_cons.symm)

theorem any_eq_no : any ts = .no ↔ ∀ t ∈ ts, t = .no := by
  induction ts with
  | nil => exact ⟨fun _ => List.forall_mem_nil _, fun _ => rfl⟩
  | cons t ts ih =>
    have greatest : max t (any ts) = .no ↔ t = .no ∧ any ts = .no := by
      cases t <;> cases any ts <;> decide
    rw [List.forall_mem_cons, ← ih]
    exact greatest

/-- A truth value is known by whether it is `yes` and whether it is `no`. -/
theorem eq_of_iff (yes : s = .yes ↔ t = .yes) (no : s = .no ↔ t = .no) : s = t := by
  cases s <;> cases t <;> simp_all

theorem ofJson_eq_yes {j : Json} : ofJson j = .yes ↔ j = .bool true := by
  cases j with
  | bool b => cases b <;> simp [ofJson]
  | _ => simp [ofJson]

theorem ofJson_eq_no {j : Json} : ofJson j = .no ↔ j = .bool false := by
  cases j with
  | bool b => cases b <;> simp [ofJson]
  | _ => simp [ofJson]

end Truth

namespace Store

variable {x c : Json} {cs : List Json}

/-! ### One comparison -/

/-- The truth of the equality of two values. -/
def equality (x c : Json) : Truth := Truth.ofJson (comparison .equal x c)

theorem comparison_equal (x c : Json) : comparison .equal x c = (equality x c).toJson := by
  obtain ⟨t, truth⟩ := Json.IsTruth.comparison .equal x c
  rw [equality, truth, Truth.ofJson_toJson]

theorem comparison_notEqual (x c : Json) :
    comparison .notEqual x c = (equality x c).negate.toJson := by
  rw [← Truth.contrary_toJson, ← comparison_equal, comparison, comparison]
  split <;> rfl

/-- No value but null is equal to null. -/
theorem isEqual_null (present : x ≠ .null) : isEqual x .null = false := by
  cases x <;> first | rfl | exact absurd rfl present

/-- A value that is not null equals a candidate for sure if the two compare as
equal. -/
theorem equality_eq_yes (present : x ≠ .null) : equality x c = .yes ↔ isEqual x c = true := by
  have some := Json.isNull_eq_false_iff.2 present
  rw [equality, Truth.ofJson_eq_yes, comparison, some, Bool.false_or]
  cases null : c.isNull with
  | true => simp [Json.isNull_iff.1 null, isEqual_null present]
  | false => simp [satisfies, isEqual]

/-- It differs from a candidate for sure if that is not null and compares as
different. -/
theorem equality_eq_no (present : x ≠ .null) :
    equality x c = .no ↔ c ≠ .null ∧ isEqual x c = false := by
  have some := Json.isNull_eq_false_iff.2 present
  rw [equality, Truth.ofJson_eq_no, comparison, some, Bool.false_or]
  cases null : c.isNull with
  | true => simp [Json.isNull_iff.1 null]
  | false =>
    have given : c ≠ .null := fun h => by simp [h] at null
    simp [satisfies, isEqual, given]

/-- Nothing is known of a null. -/
theorem equality_null (c : Json) : equality .null c = .unknown := rfl

/-! ### Membership -/

/-- The truth of the membership of a value among candidates. -/
def amongTruth (x : Json) (cs : List Json) : Truth := Truth.ofJson (membership x cs true)

theorem membership_true (x : Json) (cs : List Json) :
    membership x cs true = (amongTruth x cs).toJson := by
  obtain ⟨t, truth⟩ := Json.IsTruth.membership x cs true
  rw [amongTruth, truth, Truth.ofJson_toJson]

theorem membership_false (x : Json) (cs : List Json) :
    membership x cs false = (amongTruth x cs).negate.toJson := by
  rw [← Truth.contrary_toJson, ← membership_true, membership, membership]
  split <;> simp [contrary]

/-- A membership test does not see that null is among the candidates: there is
a value, and none of them is equal to it. -/
structure Overlooks (x : Json) (cs : List Json) : Prop where
  present : x ≠ .null
  null : .null ∈ cs
  unequal : ∀ c ∈ cs, isEqual x c = false

theorem amongTruth_null (cs : List Json) : amongTruth .null cs = .unknown := rfl

/-- The store finds a value among candidates if it equals one of them. -/
theorem amongTruth_eq_yes (present : x ≠ .null) :
    amongTruth x cs = .yes ↔ ∃ c ∈ cs, isEqual x c = true := by
  have some := Json.isNull_eq_false_iff.2 present
  simp [amongTruth, Truth.ofJson_eq_yes, membership, some]

/-- It denies this if the value equals none of them, nulls included. -/
theorem amongTruth_eq_no (present : x ≠ .null) :
    amongTruth x cs = .no ↔ ∀ c ∈ cs, isEqual x c = false := by
  have some := Json.isNull_eq_false_iff.2 present
  simp [amongTruth, Truth.ofJson_eq_no, membership, some]

/-- The truth of the comparisons with each candidate. -/
def expandedTruth (x : Json) (cs : List Json) : Truth := Truth.any (cs.map (equality x))

/-- Comparing with the candidates one by one finds an equal one just where a
membership test does. -/
theorem expandedTruth_eq_yes :
    expandedTruth x cs = .yes ↔ amongTruth x cs = .yes := by
  rw [expandedTruth, Truth.any_eq_yes, List.mem_map]
  by_cases null : x = .null
  · subst null
    simp [amongTruth_null, equality_null]
  · simp only [equality_eq_yes null, amongTruth_eq_yes null]

/-- It rules all of them out where a membership test does, unless one of them
is null. -/
theorem expandedTruth_eq_no (some : cs ≠ []) :
    expandedTruth x cs = .no ↔ amongTruth x cs = .no ∧ .null ∉ cs := by
  rw [expandedTruth, Truth.any_eq_no, List.forall_mem_map]
  by_cases null : x = .null
  · subst null
    obtain ⟨c, others, rfl⟩ := List.exists_cons_of_ne_nil some
    refine ⟨fun no => ?_, fun ⟨among, _⟩ => nomatch among⟩
    exact nomatch no c List.mem_cons_self
  · simp only [equality_eq_no null, amongTruth_eq_no null, forall_and]
    exact ⟨fun ⟨given, unequal⟩ => ⟨unequal, fun h => given _ h rfl⟩,
      fun ⟨unequal, given⟩ => ⟨fun c hc h => given (h ▸ hc), unequal⟩⟩

/-- A null among the candidates is overlooked where the store denies. -/
theorem overlooks_iff : Overlooks x cs ↔ amongTruth x cs = .no ∧ .null ∈ cs := by
  by_cases null : x = .null
  · subst null
    simp only [amongTruth_null, reduceCtorEq, false_and, iff_false]
    exact fun h => h.present rfl
  · rw [amongTruth_eq_no null]
    exact ⟨fun h => ⟨h.unequal, h.null⟩, fun ⟨unequal, among⟩ => ⟨null, among, unequal⟩⟩

/-- A membership test says what the comparisons with each candidate say, but
for where it overlooks null: there it says no, and they do not know. -/
theorem membership_comparisons (some : cs ≠ []) :
    (¬Overlooks x cs → amongTruth x cs = expandedTruth x cs) ∧
      (Overlooks x cs → amongTruth x cs = .no ∧ expandedTruth x cs = .unknown) := by
  rw [overlooks_iff]
  refine ⟨fun sees => Truth.eq_of_iff expandedTruth_eq_yes.symm ?_,
    fun ⟨among, null⟩ => ⟨among, Truth.eq_of_iff ?_ ?_⟩⟩
  · rw [expandedTruth_eq_no some]
    exact iff_self_and.2 fun among null => sees ⟨among, null⟩
  · simp [expandedTruth_eq_yes, among]
  · simp [expandedTruth_eq_no some, null]

end Store

/-! ### Leaves -/

namespace Predicate

open Planner Store Joins

variable {s : QuerySchema} {root : EntityType} {vars : Variables} {leaf : FilterLeaf}
variable {between : List String} {g : SchemaField} {b : ScalarBinding} {operator : FilterOperator}
variable {values : List Json} {ps : Parameters} {binding : Binding} {left : Expr} {es : List Expr}
variable {x : Json} {cs : List Json} {field : String} {operand : Operand}

/-- What a membership test is supplied with are its candidates. -/
theorem Supplies.candidates_eq (h : Supplies vars field b operand operator values)
    (list : operator.takesList = true) :
    Predicate.candidates vars field b operand = .ok values := by
  cases h with
  | value compares => exact nomatch list.symm.trans (FilterOperator.plain_of_compares compares).2
  | candidates _ coerced => exact coerced

/-- Comparisons of a value with each candidate have the truth of each. -/
theorem evalAll_comparisons {operator : Operator} {truth : Json → Truth}
    (compares : ∀ c, applyOperator operator [x, c] = .ok (truth c).toJson)
    (value : eval ps binding left = .ok x) (candidates : evalAll ps binding es = .ok cs) :
    evalAll ps binding (es.map (.binary operator left)) =
      .ok ((cs.map truth).map Truth.toJson) := by
  induction es generalizing cs with
  | nil =>
    cases candidates
    rfl
  | cons e es ih =>
    obtain ⟨c, first, rest⟩ := Outcome.bind_eq_ok.1 candidates
    obtain ⟨others, following, both⟩ := Outcome.bind_eq_ok.1 rest
    cases both
    exact evalAll_cons ((eval_binary value first).trans (compares c)) (ih following)

/-- Where expressions stand for a value and for candidates, the truth `t` of the
membership test and the truth `u` of the comparisons with each candidate.  The
tests for no membership and for inequality are the contraries. -/
structure Expands (ps : Parameters) (binding : Binding) (left : Expr) (candidates : List Expr)
    (t u : Truth) : Prop where
  oneOf : eval ps binding (.binary .oneOf left (.list candidates)) = .ok t.toJson
  noneOf : eval ps binding (.binary .noneOf left (.list candidates)) = .ok t.negate.toJson
  equal : eval ps binding (.anyOf (candidates.map (.binary .equal left))) = .ok u.toJson
  unequal : eval ps binding (.allOf (candidates.map (.binary .notEqual left))) =
    .ok u.negate.toJson

/-- Values of the operands make both sides of the comparison. -/
theorem expands_of_eval (value : eval ps binding left = .ok x)
    (candidates : evalAll ps binding es = .ok cs) :
    Expands ps binding left es (amongTruth x cs) (expandedTruth x cs) := by
  -- The store sees the candidates as one array, the expansion as an expression for each.
  have items : eval ps binding (.list es) = .ok (.array cs) := by
    rw [Store.eval, candidates]
    rfl
  constructor
  · rw [eval_binary value items, ← membership_true]
    rfl
  · rw [eval_binary value items, ← membership_false]
    rfl
  · exact eval_anyOf (evalAll_comparisons
      (fun c => congrArg Except.ok (comparison_equal x c)) value candidates)
  · rw [expandedTruth, Truth.negate_any, List.map_map]
    exact eval_allOf (evalAll_comparisons
      (fun c => congrArg Except.ok (comparison_notEqual x c)) value candidates)

/-- **A membership test is the comparisons with each candidate, but for
overlooking null.**  The leaf compiles to a membership test of the stored form
of its cell among those of its values.  Of every chosen row both the test and
the comparisons have a truth value, and the two are the same except where the
test overlooks null; there it says no, and the comparisons do not know. -/
theorem membership_expanded {d : Draft}
    (tests : Tests s root vars leaf between g b operator values)
    (list : operator.takesList = true) (some : values ≠ [])
    (sequential : d.parameters.Sequential) :
    ∃ left candidates d', Gives (compileLeaf s root vars leaf) d
        (.binary (if operator = .noneOf then .noneOf else .oneOf) left (.list candidates)) d' ∧
      ∀ binding choice, AgreesAt d'.joins binding choice between →
        ∃ x cs t u, x = Comparison.storedCell b (cellOf (choice between) g.descriptor.column) ∧
          cs = values.map (Comparison.storedValue b) ∧
          eval d'.parameters binding left = .ok x ∧
          evalAll d'.parameters binding candidates = .ok cs ∧
          Expands d'.parameters binding left candidates t u ∧
          (¬Overlooks x cs → t = u) ∧ (Overlooks x cs → t = .no ∧ u = .unknown) := by
  obtain ⟨reached, found, bound, supported, supplies⟩ := tests
  have leads := QuerySchema.LeadsTo.intro reached found bound
  obtain ⟨e, d', compiled⟩ := leads.exists_compiled supported supplies.operandFault d
  obtain ⟨a, d₁, joined, unbound, compared⟩ := leads.compared supported compiled
  rw [comparison_of_takesList list] at compared
  obtain ⟨values', d₀, step, compared⟩ := gives_bind.1 compared
  obtain ⟨coerced, rfl⟩ := gives_lift.1 step
  cases coerced.symm.trans (supplies.candidates_eq list)
  obtain ⟨candidates, d₂, bindings, rest⟩ := gives_bind.1 compared
  obtain ⟨rfl, rfl⟩ := gives_pure.1 rest
  -- What is compiled compares the stored column with the candidates that were
  -- bound; both sides are then evaluated once.
  refine ⟨_, candidates, d₂, by simpa using compiled, fun binding choice agrees => ?_⟩
  rw [← unbound] at sequential
  have value : eval d₂.parameters binding (Comparison.storedColumn b _) = .ok _ :=
    Comparison.eval_storedColumn (columnValue_of_find? (agrees a joined) g.descriptor.column) b
  have among : evalAll d₂.parameters binding candidates = .ok _ :=
    evalAll_bindValues bindings sequential
  exact ⟨_, _, _, _, rfl, rfl, value, among, expands_of_eval value among,
    membership_comparisons (by simpa using some)⟩

end Predicate

/-! ### The small library -/

namespace Sample

open Predicate Planner Store

/-- A book is called neither `z` nor null. -/
def unnamed : FilterLeaf := ⟨["title"], "NIN", .list [.constant (.string "z"), .constant .null]⟩

/-- The leaf tests titles against `z` and null. -/
theorem unnamed_tests : Tests schema books [] unnamed [] (text "title")
    (.plain "String" "Built-in String" .text) .noneOf [.string "z", .null] := by
  show Tests schema books [] ⟨[] ++ ["title"], FilterOperator.token .noneOf, _⟩ _ _ _ _ _
  exact .intro rfl rfl rfl rfl (.candidates rfl rfl)

/-- The book `x` passes the membership test against `z` and null, and the
negation of the test for membership, where the inequalities with `z` and with
null do not know. -/
theorem not_expanded :
    ∃ left candidates d', Gives (compileLeaf schema books [] unnamed) Draft.empty
        (.binary .noneOf left (.list candidates)) d' ∧
      eval d'.parameters binding left = .ok (.string "x") ∧
      evalAll d'.parameters binding candidates = .ok [.string "z", .null] ∧
      eval d'.parameters binding (.binary .noneOf left (.list candidates)) = .ok (.bool true) ∧
      eval d'.parameters binding (.allOf (candidates.map (.binary .notEqual left))) =
        .ok .null ∧
      run shelf [] ((allBooks [leaf "id"]).restrictedBy
          (.tests "title" .noneOf (.list [.string "z", .null]))) =
        .ok (.object [("select", .array [.object [("id", .string "1")]])]) ∧
      run shelf [] ((allBooks [leaf "id"]).restrictedBy
          (.object [("NOT", .tests "title" .oneOf (.list [.string "z", .null]))])) =
        .ok (.object [("select", .array [.object [("id", .string "1")]])]) :=
  ⟨_, _, _, rfl, rfl, rfl, rfl, rfl, rfl, rfl⟩

end Sample

open Predicate Planner Store Joins in
/-- Of the book `x`, the test against `z` and null overlooks null. -/
theorem membership_expanded_library :
    ∃ left candidates d', Gives (compileLeaf Sample.schema Sample.books [] Sample.unnamed)
        Draft.empty (.binary .noneOf left (.list candidates)) d' ∧
      eval d'.parameters Sample.binding (.binary .noneOf left (.list candidates)) =
        .ok (.bool true) ∧
      eval d'.parameters Sample.binding (.anyOf (candidates.map (.binary .equal left))) =
        .ok .null := by
  obtain ⟨left, candidates, d', compiled, truth⟩ :=
    membership_expanded (d := Draft.empty) Sample.unnamed_tests rfl (by decide) rfl
  have agrees : AgreesAt d'.joins Sample.binding
    (fun _ => some [("id", .string "1"), ("title", .string "x")]) [] := agreesAt_root rfl
  obtain ⟨x, cs, t, u, rfl, rfl, -, -, expands, -, overlooked⟩ := truth _ _ agrees
  obtain ⟨rfl, rfl⟩ := overlooked ⟨nofun, List.mem_cons_of_mem _ List.mem_cons_self, by decide⟩
  exact ⟨left, candidates, d', compiled, expands.noneOf, expands.equal⟩

end EntityQuery
