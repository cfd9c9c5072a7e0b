/-
EntityQuery/Proofs/Escaped.lean

Payloads that are looked for by their own text.

A payload lies in its column as JSON text.  Equality compares this text with
the JSON text of the operand.  A substring search looks in it for the JSON text
of the operand, too, unless the operand is a string: then it looks for the
string as it is, without quotes, so that pieces of JSON can be searched for.

So a payload that equals a value has the text that is searched for in it, if
the value is not a string, or is one that is written out in its own JSON text
(`Predicate.located_of_equal`).  That is so where no character of it is escaped
(`Json.occurs_text_of_plain`), and never where there is a control character in
it (`Json.not_occurs_text`); a quote or a backslash can hide it as well
(`Sample.not_located`).
-/
import EntityQuery.Proofs.Contained
import EntityQuery.Proofs.Reached

namespace EntityQuery

/-! ### Strings in their own text -/

namespace Json

variable {s : String} {c : Char}

/-- The character stands for itself in a quoted string. -/
structure Plain (c : Char) : Prop where
  quote : c ≠ '"'
  backslash : c ≠ '\\'
  printed : 0x20 ≤ c.toNat

theorem escapeChar_of_plain (h : Plain c) : escapeChar c = [c] := by
  have control : ∀ d : Char, d.toNat < 0x20 → c ≠ d := by
    rintro d few rfl
    exact absurd h.printed (Nat.not_le.2 few)
  rw [escapeChar, if_neg h.quote, if_neg h.backslash, if_neg (control _ (by decide)),
    if_neg (control _ (by decide)), if_neg (control _ (by decide)),
    if_neg (control _ (by decide)), if_neg (control _ (by decide)),
    if_neg (Nat.not_lt.2 h.printed)]

/-- A string without escapes stands between the quotes. -/
theorem occurs_text_of_plain (plain : ∀ c ∈ s.toList, Plain c) :
    Occurs s (Json.string s).text := by
  have same : s.toList.flatMap escapeChar = s.toList := by
    rw [List.flatMap_congr fun c hc => escapeChar_of_plain (plain c hc), List.flatMap_singleton']
  refine ⟨"\"", "\"", String.toList_inj.1 ?_⟩
  rw [text, chars, quoted, same]
  simp

theorem printed_hexDigit (n : Nat) : 0x20 ≤ (hexDigit n).toNat := by
  have each : ∀ m < 16, 0x20 ≤ (Nat.digitChar m).toNat := by decide
  exact each _ (Nat.mod_lt n (by decide))

/-- An escape has no control characters in it. -/
theorem printed_escapeChar (c : Char) : ∀ d ∈ escapeChar c, 0x20 ≤ d.toNat := by
  have backslash : 0x20 ≤ '\\'.toNat := by decide
  have short : ∀ d : Char, 0x20 ≤ d.toNat → ∀ e ∈ ['\\', d], 0x20 ≤ e.toNat := fun d printed =>
    List.forall_mem_cons.2 ⟨backslash, List.forall_mem_singleton.2 printed⟩
  rw [escapeChar]
  split_ifs with _ _ _ _ _ _ _ control
  any_goals exact short _ (by decide)
  · simp only [List.forall_mem_cons, List.not_mem_nil, false_imp_iff, implies_true, and_true]
    exact ⟨backslash, by decide, by decide, by decide, printed_hexDigit _, printed_hexDigit _⟩
  · exact List.forall_mem_singleton.2 (Nat.not_lt.1 control)

/-- A string with a control character is not in its text. -/
theorem not_occurs_text (control : ∃ c ∈ s.toList, c.toNat < 0x20) :
    ¬Occurs s (Json.string s).text := by
  rintro ⟨before, after, e⟩
  obtain ⟨c, hc, few⟩ := control
  have inside : c ∈ (Json.string s).text.toList := by
    rw [e, String.toList_append, String.toList_append]
    exact List.mem_append_left _ (List.mem_append_right _ hc)
  rw [text, chars, quoted, String.toList_ofList] at inside
  have printed : 0x20 ≤ c.toNat := by
    simp only [List.mem_cons, List.mem_append, List.mem_flatMap, List.not_mem_nil, or_false]
      at inside
    rcases inside with rfl | ⟨d, -, hd⟩ | rfl
    · decide
    · exact printed_escapeChar d _ hd
    · decide
  exact Nat.not_lt.2 printed few

/-- What is searched for is found in the text of a value, except for strings
that are not. -/
theorem occurs_needle_iff {v : Json} :
    Occurs (Coercion.document.needle v) v.text ↔
      ∀ text, v = .string text → Occurs text v.text := by
  cases v with
  | string s =>
    refine ⟨fun found text same => ?_, fun found => found s rfl⟩
    cases same
    exact found
  | _ => exact ⟨fun _ _ => nofun, fun _ => ⟨"", "", by simp [Coercion.needle]⟩⟩

end Json

/-! ### Equality and search -/

open Store

/-- The text of a cell equals a text just if it is that text. -/
theorem Comparison.isTrue_equal_text {cell : Json} {t : String} :
    isTrue (Store.comparison .equal (textValue cell) (.string t)) = true ↔
      cell.textOrSelf? = some t := by
  rw [textValue]
  cases cell.textOrSelf? with
  | none => constructor <;> intro h <;> cases h
  | some text =>
    have compared : Store.comparison .equal (.string text) (.string t) =
      .bool (some (compare text t) == some .eq) := rfl
    rw [compared, Store.isTrue]
    simp

namespace Predicate

open Planner Joins

variable {s : QuerySchema} {root : EntityType} {vars : Variables} {path between : List String}
variable {g : SchemaField} {b : ScalarBinding} {operand : Operand} {v cell w : Json}
variable {context : String}

/-- Documents are taken as they are given. -/
theorem coerce_document (document : b.coercion = .document)
    (resolved : operand.resolve vars = .ok v) : coerce vars context b operand = .ok v := by
  rw [coerce, resolved, Outcome.ok_bind, document]
  cases operand.hasVariables <;> rfl

/-- Equality with a value is true of the cells with its text. -/
theorem isTrue_verdict_eq_document (document : b.coercion = .document)
    (encoded : b.storage = .encoded) (resolved : operand.resolve vars = .ok v) (given : v ≠ .null)
    (h : verdict vars context b .eq operand cell = .ok w) :
    isTrue w = true ↔ cell.textOrSelf? = some v.text := by
  have present : v.isNull = false := Json.isNull_eq_false_iff.2 given
  rw [verdict, coerce_document document resolved] at h
  cases h
  simp only [Comparison.verdict, present, Bool.false_eq_true, if_false, Comparison.storedCell,
    Comparison.storedValue, encoded, document, Coercion.stored]
  exact Comparison.isTrue_equal_text

/-- A search for a value is true of the cells with what is searched for in
their text. -/
theorem isTrue_verdict_locate_document (document : b.coercion = .document)
    (resolved : operand.resolve vars = .ok v)
    (h : verdict vars context b .locate operand cell = .ok w) :
    isTrue w = true ↔
      ∃ text, cell.textOrSelf? = some text ∧ Occurs (Coercion.document.needle v) text := by
  rw [verdict, coerce_document document resolved] at h
  cases h
  rw [Comparison.verdict, document]
  exact (place_locateValue _ cell).isTrue_iff

/-- **A payload equal to a value is found by the value's text, unless that is
escaped.**  Equality with a value and the search for it both compile for
payloads.  Of a row on which the equality is true, the search is true exactly
if the value is not a string outside its own JSON text.  It is true for every
value that is not a string, for strings without escaped characters, and not for
strings with control characters. -/
theorem located_of_equal {d : Draft} (leads : s.LeadsTo root path between g b)
    (payload : b.kind = .payload) (document : b.coercion = .document)
    (encoded : b.storage = .encoded) (resolved : operand.resolve vars = .ok v)
    (given : v ≠ .null) (sequential : d.parameters.Sequential) :
    ∃ e₁ d₁ e₂ d₂,
      Gives (compileLeaf s root vars ⟨path, FilterOperator.token .eq, operand⟩) d e₁ d₁ ∧
      Gives (compileLeaf s root vars ⟨path, FilterOperator.token .locate, operand⟩) d e₂ d₂ ∧
      ∀ choice binding₁ binding₂, AgreesAt d₁.joins binding₁ choice between →
        AgreesAt d₂.joins binding₂ choice between →
          ∃ equal located, eval d₁.parameters binding₁ e₁ = .ok (Truth.toJson equal) ∧
            eval d₂.parameters binding₂ e₂ = .ok (Truth.toJson located) ∧
            (equal = .yes →
              (located = .yes ↔ ∀ text, v = .string text → Occurs text v.text) ∧
              ((∀ text, v = .string text → ∀ c ∈ text.toList, Json.Plain c) → located = .yes) ∧
              ((∃ text, v = .string text ∧ ∃ c ∈ text.toList, c.toNat < 0x20) →
                located ≠ .yes)) := by
  have equality : b.supports .eq = true := rfl
  have search : b.supports .locate = true := by
    simp [ScalarBinding.supports, ScalarBinding.isPayload, payload]
  have taken : coerce vars (".".intercalate path) b operand = .ok v :=
    coerce_document document resolved
  obtain ⟨e₁, d₁, first⟩ := leads.exists_compiled equality
    (Outcome.fault_eq_none.2 ⟨v, taken⟩) d
  obtain ⟨e₂, d₂, second⟩ := leads.exists_compiled search
    (Outcome.fault_eq_none.2 ⟨v, taken⟩) d
  refine ⟨e₁, d₁, e₂, d₂, first, second, fun choice binding₁ binding₂ agrees₁ agrees₂ => ?_⟩
  obtain ⟨w₁, said₁, value₁⟩ := leads.eval equality first sequential agrees₁
  obtain ⟨w₂, said₂, value₂⟩ := leads.eval search second sequential agrees₂
  obtain ⟨equal, rfl⟩ := isTruth_verdict said₁
  obtain ⟨located, rfl⟩ := isTruth_verdict said₂
  refine ⟨equal, located, value₁, value₂, fun yes => ?_⟩
  have cell := (isTrue_verdict_eq_document document encoded resolved given said₁).1
    (Truth.isTrue_toJson.2 yes)
  -- The cell holds the text of the operand, so that the search is one of text in text.
  have found : located = .yes ↔ ∀ text, v = .string text → Occurs text v.text := by
    rw [← Truth.isTrue_toJson, isTrue_verdict_locate_document document resolved said₂, cell]
    simp only [Option.some.injEq, exists_eq_left', Json.occurs_needle_iff]
  refine ⟨found, fun plain => found.2 fun text same => ?_, ?_⟩
  · rw [same]
    exact Json.occurs_text_of_plain (plain text same)
  · rintro ⟨text, rfl, control⟩ yes
    exact Json.not_occurs_text control (found.1 yes text rfl)

end Predicate

/-! ### The small library -/

namespace Sample

open Predicate Planner Store

theorem attributes_leadsTo : schema.LeadsTo books ["attributes"] [] attributes
    (.document "Attributes" "Attributes of a book") := by
  show schema.LeadsTo books ([] ++ ["attributes"]) _ _ _
  exact .intro rfl rfl rfl

/-- A book whose attributes are a text with a quote in it. -/
def quotation : Tables :=
  [("books", [[("id", .string "1"), ("attributes", .string "\"a\\\"b\"")]])]

/-- The attributes of the book equal the text, and a search for the text does
not find them. -/
theorem not_located :
    Tables.empty.insertEntity schema "Book"
        (.object [("id", .string "1"), ("attributes", .string "a\"b")]) = .ok quotation ∧
      run quotation [] ((allBooks [leaf "id"]).restrictedBy
          (.tests "attributes" .eq (.string "a\"b"))) =
        .ok (.object [("select", .array [.object [("id", .string "1")]])]) ∧
      run quotation [] ((allBooks [leaf "id"]).restrictedBy
          (.tests "attributes" .locate (.string "a\"b"))) =
        .ok (.object [("select", .array [])]) :=
  ⟨rfl, rfl, rfl⟩

end Sample

open Predicate Planner Store Joins in
/-- In the library, a book whose attributes are the text `blue` is found by it. -/
theorem located_of_equal_library :
    ∃ e₂ d₂, Gives (compileLeaf Sample.schema Sample.books []
        ⟨["attributes"], FilterOperator.token .locate, .constant (.string "blue")⟩) Draft.empty e₂
        d₂ ∧
      eval d₂.parameters [("t0", some [("attributes", .string "\"blue\"")])] e₂ =
        .ok (.bool true) := by
  have resolved : (Operand.constant (.string "blue")).resolve [] = .ok (.string "blue") := rfl
  obtain ⟨e₁, d₁, e₂, d₂, first, second, both⟩ := located_of_equal (d := Draft.empty)
    Sample.attributes_leadsTo rfl rfl rfl resolved nofun rfl
  have agrees : ∀ joins : Joins, AgreesAt joins [("t0", some [("attributes", .string "\"blue\"")])]
    (fun _ => some [("attributes", .string "\"blue\"")]) [] := fun _ => agreesAt_root rfl
  obtain ⟨equal, located, value₁, value₂, found⟩ := both _ _ _ (agrees _) (agrees _)
  have compiled : Gives (compileLeaf Sample.schema Sample.books []
    ⟨["attributes"], FilterOperator.token .eq, .constant (.string "blue")⟩) Draft.empty _ _ := rfl
  cases first.symm.trans compiled
  obtain rfl : equal = .yes := by cases equal <;> first | rfl | cases value₁
  obtain rfl := (found rfl).1.2 fun text same => by
    cases same
    exact ⟨"\"", "\"", by decide⟩
  exact ⟨e₂, d₂, second, value₂⟩

end EntityQuery
