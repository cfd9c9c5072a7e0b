/-
EntityQuery/Proofs/Legible.lean

The text of a condition tells which condition it is.

Comparisons are written without brackets, and a group of one operand without
a trace of the group, so it takes an argument that no two conditions are
written alike.  The argument is a reader of conditions (`Sql.readCondition`).
It never has to look back: the first characters tell a test from a
connective, and what stands after the tested column, or after the first
operand, tells the operator (`Sql.readOperator`).  Names are where care is
needed: they end where something else than a letter, a digit or an underscore
begins, and everything that may follow a condition begins so (`Sql.Apart`).

The reader gives back every condition that is written before anything of that
kind (`Sql.exists_reads`), so the text determines the condition
(`Predicate.compile_legible`).
-/
import EntityQuery.Proofs.Columns
import EntityQuery.Proofs.Condition
import EntityQuery.Proofs.Printing
import EntityQuery.Proofs.Template

namespace EntityQuery

namespace Sql

/-! ### Words -/

/-- Letters and digits of ASCII, and the underscore. -/
def isWordChar (c : Char) : Bool := c.isAlphanum || c = '_'

/-- Nothing but such characters. -/
def Word (s : String) : Prop := ∀ c ∈ s.toList, isWordChar c = true

instance (s : String) : Decidable (Word s) :=
  decidable_of_iff (s.toList.all isWordChar = true) List.all_eq_true

/-- A word that stands before the text ends there. -/
def Apart : List Char → Prop
  | [] => True
  | c :: _ => isWordChar c = false

theorem Word.append {s t : String} (hs : Word s) (ht : Word t) : Word (s ++ t) := by
  intro c hc
  rw [String.toList_append] at hc
  rcases List.mem_append.1 hc with hc | hc
  · exact hs c hc
  · exact ht c hc

theorem word_toString (n : Nat) : Word (toString n) := by
  intro c hc
  have digit := isDigit_of_mem_toString hc
  simp [isWordChar, Char.isAlphanum, digit]

theorem word_nameAt (i : Nat) : Word (Parameters.nameAt i) := by
  have p : Word "p" := by decide
  exact p.append (word_toString i)

/-- A column of a joined table, under a name that is a word. -/
structure Legible (tableAlias name : String) : Prop where
  numbered : ∃ i : Nat, tableAlias = "t" ++ toString i
  word : Word name

/-- The alias of a legible column is a word. -/
theorem Legible.alias {a name : String} (h : Legible a name) : Word a := by
  obtain ⟨i, rfl⟩ := h.numbered
  have t : Word "t" := by decide
  exact t.append (word_toString i)

/-! ### A reader -/

/-- Reading takes something from the front of a text. -/
abbrev Reader (α : Type) := List Char → Option (α × List Char)

/-- What comes after a given text. -/
def expect (text : String) (cs : List Char) : Option (List Char) :=
  Document.stripWord text.toList cs

/-- The longest word. -/
def readWord : Reader String := fun cs =>
  some (String.ofList (cs.takeWhile isWordChar), cs.dropWhile isWordChar)

/-- A column of a table. -/
def readColumn : Reader Expr := fun cs => do
  let (tableAlias, cs) ← readWord cs
  let cs ← expect "." cs
  let (name, cs) ← readWord cs
  return (.column tableAlias name, cs)

/-- A column or its text. -/
def readStored : Reader Expr := fun cs =>
  match expect "toString(" cs with
  | some cs => do
    let (e, cs) ← readColumn cs
    let cs ← expect ")" cs
    return (.toText e, cs)
  | none => readColumn cs

/-- A bound value. -/
def readValue : Reader Expr := fun cs => do
  let cs ← expect "$" cs
  let (name, cs) ← readWord cs
  return (.parameter name, cs)

/-- What stands after the first operand of an operator. -/
def between : Operator → String
  | .isNull => " IS NULL"
  | .isNotNull => " IS NOT NULL"
  | operator => " " ++ infixText operator ++ " "

/-- The operator after a first operand. -/
def readOperator : Reader Operator := fun cs =>
  Operator.all.findSome? fun operator => (expect (between operator) cs).map (operator, ·)

/-- Items with separators between them; there is one at least. -/
def readSeparated (item : Reader Expr) (separator : String) : Nat → Reader (List Expr)
  | 0, _ => none
  | n + 1, cs => do
    let (e, cs) ← item cs
    match expect separator cs with
    | some cs => do
      let (es, cs) ← readSeparated item separator n cs
      return (e :: es, cs)
    | none => return ([e], cs)

/-- Bound values in brackets; there may be none. -/
def readList (n : Nat) : Reader Expr := fun cs => do
  let cs ← expect "(" cs
  let (es, cs) := (readSeparated readValue ", " n cs).getD ([], cs)
  let cs ← expect ")" cs
  return (.list es, cs)

/-- The operands of an operator after the first one. -/
def readOperands (n : Nat) : Operator → Reader (List Expr)
  | .isNull | .isNotNull => fun cs => some ([], cs)
  | .oneOf | .noneOf => fun cs => (readList n cs).map fun (e, cs) => ([e], cs)
  | _ => fun cs => (readValue cs).map fun (e, cs) => ([e], cs)

/-- A test of a stored value. -/
def readTest (n : Nat) : Reader Expr := fun cs => do
  let (e, cs) ← readStored cs
  let (operator, cs) ← readOperator cs
  let (es, cs) ← readOperands n operator cs
  return (.apply operator (e :: es), cs)

/-- A truth value. -/
def readTruth : Reader Expr := fun cs =>
  (expect "true" cs).map (.literal (.boolean true), ·) <|>
    (expect "false" cs).map (.literal (.boolean false), ·)

/-- The test whether a text occurs. -/
def readOccurrence : Reader Expr := fun cs => do
  let cs ← expect "position(" cs
  let (haystack, cs) ← readStored cs
  let cs ← expect ", " cs
  let (needle, cs) ← readValue cs
  let cs ← expect ") > 0" cs
  return (.apply .greaterThan [.locate needle haystack, .literal (.integer 0)], cs)

/-- The equality of documents. -/
def readDocument : Reader Expr := fun cs => do
  let cs ← expect "JSONExtractRaw(" cs
  let (left, cs) ← readStored cs
  let cs ← expect ") = JSONExtractRaw(" cs
  let (right, cs) ← readValue cs
  let cs ← expect ")" cs
  return (.sameDocument left right, cs)

/-- The negation of a condition. -/
def readNegation (condition : Reader Expr) : Reader Expr := fun cs => do
  let cs ← expect "NOT (" cs
  let (e, cs) ← condition cs
  let cs ← expect ")" cs
  return (.apply .not [e], cs)

/-- Conditions in brackets, with the same connective between any two. -/
def readGroup (condition : Reader Expr) (n : Nat) : Reader Expr := fun cs => do
  let cs ← expect "(" cs
  let (e, cs) ← condition cs
  let (operator, cs) ← readOperator cs
  let (es, cs) ← readSeparated condition (between operator) n cs
  let cs ← expect ")" cs
  return (.apply operator (e :: es), cs)

/-- A condition; `n` bounds its depth and the number of operands. -/
def readCondition : Nat → Reader Expr
  | 0, _ => none
  | n + 1, cs =>
    readTruth cs <|> readNegation (readCondition n) cs <|> readOccurrence cs <|>
      readDocument cs <|> readGroup (readCondition n) n cs <|> readTest n cs

/-! ### Reading parts of conditions -/

/-- Wherever the text stands, the reader takes exactly it. -/
def Reads {α : Type} (reader : Reader α) (text : String) (a : α) : Prop :=
  ∀ rest, Apart rest → reader (text.toList ++ rest) = some (a, rest)

variable {a name : String} {e : Expr} {es : List Expr} {rest : List Char}

@[simp] theorem expect_text (text : String) (rest : List Char) :
    expect text (text.toList ++ rest) = some rest :=
  Document.stripWord_append _ _

theorem reads_word {w : String} (word : Word w) : Reads readWord w w := by
  intro rest apart
  have taken : (w.toList ++ rest).takeWhile isWordChar = w.toList := by
    rw [List.takeWhile_append_of_pos word]
    cases rest with
    | nil => exact List.append_nil _
    | cons c rest => rw [List.takeWhile_cons_of_neg (by rw [apart]; simp), List.append_nil]
  have left : (w.toList ++ rest).dropWhile isWordChar = rest := by
    rw [List.dropWhile_append_of_pos word]
    cases rest with
    | nil => rfl
    | cons c rest => exact List.dropWhile_cons_of_neg (by rw [apart]; simp)
  rw [readWord, taken, left, String.ofList_toList]

theorem reads_column (legible : Legible a name) :
    Reads readColumn (exprText (.column a name)) (.column a name) := by
  intro rest apart
  have dot : Apart (".".toList ++ (name.toList ++ rest)) := rfl
  show readColumn ((a ++ "." ++ name).toList ++ rest) = _
  simp only [String.toList_append, List.append_assoc, readColumn,
    reads_word legible.alias _ dot, expect_text, reads_word legible.word _ apart,
    Option.bind_eq_bind, Option.bind_some, Option.pure_def]

theorem reads_value (i : Nat) : Reads readValue (exprText (.bound i)) (.bound i) := by
  intro rest apart
  show readValue (("$" ++ Parameters.nameAt i).toList ++ rest) = _
  simp only [Expr.bound, String.toList_append, List.append_assoc, readValue, expect_text,
    reads_word (word_nameAt i) _ apart, Option.bind_eq_bind, Option.bind_some, Option.pure_def]

/-- The alias of a column cannot be taken for a word of the language. -/
theorem column_opens (legible : Legible a name) :
    ∃ d cs, (exprText (.column a name)).toList = 't' :: d :: cs ∧ d.isDigit = true := by
  obtain ⟨i, rfl⟩ := legible.numbered
  cases digits : (toString i).toList with
  | nil => exact absurd (Nat.toList_repr.symm.trans digits) Nat.toDigits_ne_nil
  | cons d ds =>
    have digit : d.isDigit = true :=
      isDigit_of_mem_toString (digits ▸ List.mem_cons_self)
    refine ⟨d, ds ++ ".".toList ++ name.toList, ?_, digit⟩
    show ("t" ++ toString i ++ "." ++ name).toList = _
    rw [String.toList_append, String.toList_append, String.toList_append, digits]
    rfl

theorem expect_digit {d : Char} (digit : d.isDigit = true) (cs : List Char) :
    expect "toString(" ('t' :: d :: cs) = none ∧ expect "true" ('t' :: d :: cs) = none := by
  constructor
  · refine if_neg ?_
    rintro rfl
    cases digit
  · refine if_neg ?_
    rintro rfl
    cases digit

theorem reads_stored (stored : Expr.Stored Legible e) : Reads readStored (exprText e) e := by
  intro rest apart
  -- An alias has a digit behind its first letter, which tells a column from the form as text.
  cases stored with
  | column legible =>
    obtain ⟨d, cs, opens, digit⟩ := column_opens legible
    have column := reads_column legible rest apart
    rw [opens] at column ⊢
    rw [readStored]
    simp only [List.cons_append]
    rw [(expect_digit digit _).1]
    exact column
  | @text a name legible =>
    have closing : Apart (")".toList ++ rest) := rfl
    show readStored (("toString(" ++ exprText (.column a name) ++ ")").toList ++ rest) = _
    simp only [String.toList_append, List.append_assoc, readStored, expect_text,
      reads_column legible _ closing, Option.bind_eq_bind, Option.bind_some, Option.pure_def]

/-- An operator is read back from its sign, whatever follows. -/
theorem readOperator_between {operator : Operator} (apart : operator ≠ .not) (rest : List Char) :
    readOperator ((between operator).toList ++ rest) = some (operator, rest) := by
  cases operator <;> first | exact absurd rfl apart | rfl

/-- No word goes on into an operator. -/
theorem apart_between (operator : Operator) (rest : List Char) :
    Apart ((between operator).toList ++ rest) := by
  cases operator <;> rfl

/-- Items are read one by one until no separator follows. -/
theorem reads_separated {item : Reader Expr} {separator : String} {n : Nat}
    (each : ∀ x ∈ e :: es, Reads item (exprText x) x) (enough : es.length < n)
    (opens : ∀ cs, Apart (separator.toList ++ cs)) (apart : Apart rest)
    (stop : expect separator rest = none) :
    readSeparated item separator n
        ((separator.intercalate (exprTexts (e :: es))).toList ++ rest) =
      some (e :: es, rest) := by
  -- Along the candidates; what follows each is a separator, and what follows the last is none.
  induction es generalizing e n with
  | nil =>
    obtain ⟨n, rfl⟩ := Nat.exists_eq_succ_of_ne_zero (Nat.ne_zero_of_lt enough)
    show readSeparated item separator (n + 1)
      ((separator.intercalate [exprText e]).toList ++ rest) = _
    rw [String.intercalate_singleton, readSeparated, each e List.mem_cons_self rest apart]
    show (match expect separator rest with
      | some cs => _
      | none => _) = _
    rw [stop]
    rfl
  | cons e' es ih =>
    obtain ⟨n, rfl⟩ := Nat.exists_eq_succ_of_ne_zero (Nat.ne_zero_of_lt enough)
    obtain ⟨first, others⟩ := List.forall_mem_cons.1 each
    have later := ih others (Nat.lt_of_succ_lt_succ enough)
    show readSeparated item separator (n + 1)
      ((separator.intercalate (exprText e :: exprText e' :: exprTexts es)).toList ++ rest) = _
    rw [String.intercalate_cons_cons, String.toList_append, String.toList_append,
      List.append_assoc, List.append_assoc, readSeparated, first _ (opens _)]
    show (match expect separator (separator.toList ++ _) with
      | some cs => _
      | none => _) = _
    rw [expect_text]
    show (readSeparated item separator n
      ((separator.intercalate (exprTexts (e' :: es))).toList ++ rest) >>= _) = _
    rw [later]
    rfl

theorem reads_list {n : Nat} (places : List Nat) (enough : places.length ≤ n) :
    Reads (readList n) (exprText (.list (places.map Expr.bound)))
      (.list (places.map Expr.bound)) := by
  intro rest apart
  have closing : Apart (")".toList ++ rest) := rfl
  -- Without values there is no first item, and the brackets close at once.
  have values : (readSeparated readValue ", " n
      ((", ".intercalate (exprTexts (places.map Expr.bound))).toList ++
        (")".toList ++ rest))).getD
        ([], (", ".intercalate (exprTexts (places.map Expr.bound))).toList ++
          (")".toList ++ rest)) =
      (places.map Expr.bound, ")".toList ++ rest) := by
    cases places with
    | nil => cases n <;> rfl
    | cons i places =>
      have comma : ∀ cs, Apart (", ".toList ++ cs) := fun _ => rfl
      rw [List.map_cons, reads_separated ?_ ?_ comma closing rfl, Option.getD_some]
      · intro x hx
        obtain ⟨j, -, rfl⟩ := List.mem_map.1 (List.map_cons ▸ hx)
        exact reads_value j
      · rw [List.length_map]
        exact enough
  show readList n (("(" ++ ", ".intercalate (exprTexts (places.map Expr.bound)) ++ ")").toList ++
    rest) = _
  simp only [String.toList_append, List.append_assoc, readList, expect_text, values,
    Option.bind_eq_bind, Option.bind_some, Option.pure_def]

/-! ### Reading conditions -/

variable {n : Nat}

/-- What begins like a stored value is a test. -/
theorem readCondition_stored (stored : Expr.Stored Legible e) (cs : List Char) :
    readCondition (n + 1) ((exprText e).toList ++ cs) =
      readTest n ((exprText e).toList ++ cs) := by
  -- No other kind of condition begins as a stored column does.
  have others : readTruth ((exprText e).toList ++ cs) = none ∧
      readNegation (readCondition n) ((exprText e).toList ++ cs) = none ∧
      readOccurrence ((exprText e).toList ++ cs) = none ∧
      readDocument ((exprText e).toList ++ cs) = none ∧
      readGroup (readCondition n) n ((exprText e).toList ++ cs) = none := by
    cases stored with
    | column legible =>
      obtain ⟨d, ds, opens, digit⟩ := column_opens legible
      rw [opens]
      refine ⟨?_, rfl, rfl, rfl, rfl⟩
      rw [List.cons_append, List.cons_append, readTruth, (expect_digit digit _).2]
      rfl
    | @text a name legible =>
      have opens : (exprText (.toText (.column a name))).toList ++ cs =
          "toString(".toList ++ ((exprText (.column a name) ++ ")").toList ++ cs) := by
        show (("toString(" ++ exprText (.column a name)) ++ ")").toList ++ cs = _
        simp only [String.toList_append, List.append_assoc]
      rw [opens]
      exact ⟨rfl, rfl, rfl, rfl, rfl⟩
  obtain ⟨truth, negation, occurrence, document, group⟩ := others
  rw [readCondition, truth, negation, occurrence, document, group]
  rfl

/-- A test is read if its operands after the first are. -/
theorem reads_test {operator : Operator} {text : String} (stored : Expr.Stored Legible e)
    (apart : operator ≠ .not) (operands : Reads (readOperands n operator) text es) :
    Reads (readCondition (n + 1)) (exprText e ++ between operator ++ text)
      (.apply operator (e :: es)) := by
  intro rest ends
  simp only [String.toList_append, List.append_assoc]
  rw [readCondition_stored stored]
  simp only [readTest, reads_stored stored _ (apart_between operator _),
    readOperator_between apart, operands rest ends, Option.bind_eq_bind, Option.bind_some,
    Option.pure_def]

/-- An operator stands between two operands, without brackets. -/
theorem exprText_binary {operator : Operator} (l r : Expr)
    (infixed : operator.Compares ∨ operator = .oneOf ∨ operator = .noneOf) :
    exprText (.apply operator [l, r]) = exprText l ++ between operator ++ exprText r := by
  have spaced : exprText (.apply operator [l, r]) =
      (between operator).intercalate [exprText l, exprText r] := by
    cases operator <;> first | rfl | (rcases infixed with h | h | h <;> cases h)
  rw [spaced, String.intercalate_cons_cons, String.intercalate_singleton]

/-- An operator that compares has one operand on its right. -/
theorem readOperands_compares {operator : Operator} (compares : operator.Compares) :
    readOperands n operator = fun cs => (readValue cs).map fun (e, cs) => ([e], cs) := by
  cases operator <;> first | rfl | exact compares.elim

/-- A substring search is read back from its text. -/
theorem reads_occurrence (i : Nat) (legible : Legible a name) :
    Reads (readCondition (n + 1))
      (exprText (.apply .greaterThan
        [.locate (.bound i) (.toText (.column a name)), .literal (.integer 0)]))
      (.apply .greaterThan
        [.locate (.bound i) (.toText (.column a name)), .literal (.integer 0)]) := by
  intro rest apart
  -- The printed text, cut into the parts that the reader goes through.
  have opens : (exprText (.apply .greaterThan [.locate (.bound i) (.toText (.column a name)),
      .literal (.integer 0)])).toList ++ rest =
        "position(".toList ++ ((exprText (.toText (.column a name))).toList ++ (", ".toList ++
          ((exprText (.bound i)).toList ++ (") > 0".toList ++ rest)))) := by
    show (" > ".intercalate ["position(" ++ exprText (.toText (.column a name)) ++ ", " ++
      exprText (.bound i) ++ ")", "0"]).toList ++ rest = _
    rw [String.intercalate_cons_cons, String.intercalate_singleton]
    simp only [String.toList_append, List.append_assoc]
    rfl
  have comma : ∀ cs, Apart (", ".toList ++ cs) := fun _ => rfl
  have closing : Apart (") > 0".toList ++ rest) := rfl
  rw [opens, readCondition]
  simp only [readOccurrence, expect_text, reads_stored (.text legible) _ (comma _),
    reads_value i _ closing, Option.bind_eq_bind, Option.bind_some, Option.pure_def]
  rfl

theorem reads_document (i : Nat) (legible : Legible a name) :
    Reads (readCondition (n + 1))
      (exprText (.sameDocument (.toText (.column a name)) (.bound i)))
      (.sameDocument (.toText (.column a name)) (.bound i)) := by
  intro rest apart
  have opens : (exprText (.sameDocument (.toText (.column a name)) (.bound i))).toList ++ rest =
      "JSONExtractRaw(".toList ++ ((exprText (.toText (.column a name))).toList ++
        (") = JSONExtractRaw(".toList ++ ((exprText (.bound i)).toList ++
          (")".toList ++ rest)))) := by
    show ("JSONExtractRaw(" ++ exprText (.toText (.column a name)) ++ ") = JSONExtractRaw(" ++
      exprText (.bound i) ++ ")").toList ++ rest = _
    simp only [String.toList_append, List.append_assoc]
  have between : ∀ cs, Apart (") = JSONExtractRaw(".toList ++ cs) := fun _ => rfl
  have closing : Apart (")".toList ++ rest) := rfl
  rw [opens, readCondition]
  simp only [readDocument, expect_text, reads_stored (.text legible) _ (between _),
    reads_value i _ closing, Option.bind_eq_bind, Option.bind_some, Option.pure_def]
  rfl

theorem reads_truth (b : Bool) :
    Reads (readCondition (n + 1)) (exprText (.literal (.boolean b))) (.literal (.boolean b)) := by
  intro rest apart
  cases b with
  | true => rfl
  | false => rfl

/-- A negation is read back if its operand is. -/
theorem reads_negation (operand : Reads (readCondition n) (exprText e) e) :
    Reads (readCondition (n + 1)) (exprText (.apply .not [e])) (.apply .not [e]) := by
  intro rest apart
  have opens : (exprText (.apply .not [e])).toList ++ rest =
      "NOT (".toList ++ ((exprText e).toList ++ (")".toList ++ rest)) := by
    show ("NOT (" ++ ", ".intercalate [exprText e] ++ ")").toList ++ rest = _
    rw [String.intercalate_singleton]
    simp only [String.toList_append, List.append_assoc]
  have closing : Apart (")".toList ++ rest) := rfl
  rw [opens, readCondition]
  simp only [readNegation, expect_text, operand _ closing, Option.bind_eq_bind, Option.bind_some,
    Option.pure_def]
  rfl

/-- A group is read if its operands are; the first one is followed by the
connective that separates them all. -/
theorem reads_group {operator : Operator} {e' : Expr} (connects : operator = .and ∨ operator = .or)
    (each : ∀ x ∈ e :: e' :: es, Reads (readCondition n) (exprText x) x) (enough : es.length < n) :
    Reads (readCondition (n + 1)) (exprText (.apply operator (e :: e' :: es)))
      (.apply operator (e :: e' :: es)) := by
  intro rest apart
  obtain ⟨first, others⟩ := List.forall_mem_cons.1 each
  have opens : (exprText (.apply operator (e :: e' :: es))).toList ++ rest =
      "(".toList ++ ((exprText e).toList ++ ((between operator).toList ++
        (((between operator).intercalate (exprTexts (e' :: es))).toList ++
          (")".toList ++ rest)))) := by
    have bracketed : exprText (.apply operator (e :: e' :: es)) =
        "(" ++ (between operator).intercalate (exprText e :: exprTexts (e' :: es)) ++ ")" := by
      rcases connects with rfl | rfl <;> rfl
    rw [bracketed]
    show ("(" ++ (between operator).intercalate (exprText e :: exprText e' :: exprTexts es) ++
      ")").toList ++ rest = _
    rw [String.intercalate_cons_cons]
    simp only [String.toList_append, List.append_assoc]
    rfl
  have closing : Apart (")".toList ++ rest) := rfl
  have apart : operator ≠ .not := by
    rintro rfl
    rcases connects with h | h <;> cases h
  -- After the last operand the bracket closes, and no connective follows.
  have stop : expect (between operator) (")".toList ++ rest) = none := by
    rcases connects with rfl | rfl <;> rfl
  rw [opens, readCondition]
  simp only [readGroup, expect_text, first _ (apart_between operator _),
    readOperator_between apart, reads_separated others enough (apart_between operator) closing stop,
    Option.bind_eq_bind, Option.bind_some, Option.pure_def]
  rfl

/-- With room enough for one of the expressions each, there is room enough for
all of them. -/
theorem exists_common {P : Expr → Nat → Prop} (each : ∀ e ∈ es, ∃ m, ∀ n, m ≤ n → P e n) :
    ∃ m, ∀ n, m ≤ n → ∀ e ∈ es, P e n := by
  induction es with
  | nil => exact ⟨0, fun n _ => List.forall_mem_nil _⟩
  | cons e es ih =>
    obtain ⟨here, there⟩ := List.forall_mem_cons.1 each
    obtain ⟨m, first⟩ := here
    obtain ⟨m', others⟩ := ih there
    refine ⟨max m m', fun n enough => List.forall_mem_cons.2 ⟨first n ?_, others n ?_⟩⟩
    · exact (le_max_left m m').trans enough
    · exact (le_max_right m m').trans enough

/-- Every condition is read, given room enough. -/
theorem exists_reads {vacuous : Prop} (h : Expr.Condition Legible vacuous e) :
    ∃ m, ∀ n, m ≤ n → Reads (readCondition (n + 1)) (exprText e) e := by
  induction h with
  | constant b allowed => exact ⟨0, fun n _ => reads_truth b⟩
  | @comparison operator e i compares stored =>
    refine ⟨0, fun n _ => ?_⟩
    have apart : operator ≠ .not := by
      rintro rfl
      exact compares
    rw [exprText_binary _ _ (.inl compares)]
    refine reads_test stored apart fun rest ends => ?_
    rw [readOperands_compares compares]
    simp only [reads_value i rest ends, Option.map_some]
  | @membership operator e places tests stored =>
    refine ⟨places.length, fun n enough => ?_⟩
    have apart : operator ≠ .not := by
      rintro rfl
      rcases tests with h | h <;> cases h
    rw [exprText_binary _ _ (.inr tests)]
    refine reads_test stored apart fun rest ends => ?_
    have values : readOperands n operator =
        fun cs => (readList n cs).map fun (e, cs) => ([e], cs) := by
      rcases tests with rfl | rfl <;> rfl
    rw [values]
    simp only [reads_list places enough rest ends, Option.map_some]
  | @null operator a name tests legible =>
    refine ⟨0, fun n _ => ?_⟩
    have apart : operator ≠ .not := by
      rintro rfl
      rcases tests with h | h <;> cases h
    have text : exprText (.apply operator [.column a name]) =
        exprText (.column a name) ++ between operator ++ "" := by
      rw [String.append_empty]
      rcases tests with rfl | rfl
      · show ", ".intercalate [exprText (.column a name)] ++ " IS NULL" = _
        rw [String.intercalate_singleton]
        rfl
      · show ", ".intercalate [exprText (.column a name)] ++ " IS NOT NULL" = _
        rw [String.intercalate_singleton]
        rfl
    rw [text]
    refine reads_test (.column legible) apart fun rest _ => ?_
    rcases tests with rfl | rfl <;> rfl
  | occurrence i legible => exact ⟨0, fun n _ => reads_occurrence i legible⟩
  | document i legible => exact ⟨0, fun n _ => reads_document i legible⟩
  | @group operator es connects several each ih =>
    obtain ⟨m, reads⟩ := exists_common ih
    -- The first operand tells the connective, so it is read by itself.
    match es, several with
    | e :: e' :: es, _ =>
      refine ⟨max m es.length + 1, fun n enough => ?_⟩
      obtain ⟨n, rfl⟩ := Nat.exists_eq_add_of_le' (Nat.le_trans (Nat.le_add_left 1 _) enough)
      obtain ⟨deep, long⟩ := max_le_iff.1 (Nat.le_of_succ_le_succ enough)
      exact reads_group connects (reads n deep) (Nat.lt_succ_of_le long)
  | @negation e operand ih =>
    obtain ⟨m, reads⟩ := ih
    refine ⟨m + 1, fun n enough => ?_⟩
    obtain ⟨n, rfl⟩ := Nat.exists_eq_add_of_le' (Nat.le_trans (Nat.le_add_left 1 m) enough)
    exact reads_negation (reads n (Nat.le_of_succ_le_succ enough))

example : readCondition 5 "NOT ((t0.a IN ($p0, $p1) OR t0.b IS NULL))".toList =
    some (.apply .not [.apply .or [
      .apply .oneOf [.column "t0" "a", .list [.parameter "p0", .parameter "p1"]],
      .apply .isNull [.column "t0" "b"]]], []) := rfl

/-- Conditions that are written alike are the same. -/
theorem exprText_injective {vacuous : Prop} {e e' : Expr}
    (h : Expr.Condition Legible vacuous e) (h' : Expr.Condition Legible vacuous e')
    (same : exprText e = exprText e') : e = e' := by
  obtain ⟨m, reads⟩ := exists_reads h
  obtain ⟨m', reads'⟩ := exists_reads h'
  -- One reader, with room for both, reads the same text.
  have first := reads (max m m') (le_max_left m m') [] trivial
  have second := reads' (max m m') (le_max_right m m') [] trivial
  rw [same, second] at first
  cases first
  rfl

end Sql

/-! ### Conditions of filters -/

/-- The names of columns are words. -/
def QuerySchema.Worded (s : QuerySchema) : Prop :=
  ∀ entity ∈ s.entities, ∀ field ∈ entity.fields, Sql.Word field.descriptor.column

namespace Predicate

open Planner

variable {s : QuerySchema} {root root' : EntityType} {vars vars' : Variables} {f f' : Filter}
variable {d d' d₁ d₁' : Draft} {e e' : Expr}

/-- What a filter compiles to is a condition on legible columns. -/
theorem condition_legible (worded : s.Worded) (hr : root ∈ s.entities)
    (planned : Joins.Planned s root d.joins) (compiled : Gives (compile s root vars f) d e d') :
    Expr.Condition Sql.Legible True e := by
  have leaves : ReadsAtLeaves s root vars Sql.Legible fun d => Joins.Planned s root d.joins := by
    intro leaf d d' e h planned
    obtain ⟨between, name, last, field, b, op, a, d₁, -, reached, found, -, -, joined, -, stays,
      comparison⟩ := compileLeaf_cases h
    have hl := QuerySchema.mem_of_entityAt hr reached
    have numbered := (stays planned).numbered.exists_number joined
    have word := worded last hl field (List.mem_of_find?_eq_some found)
    exact ⟨a, field.descriptor.column, b, op, d₁, ⟨numbered, word⟩, comparison⟩
  refine condition_compile leaves ?_ compiled planned fun g _ => .inr trivial
  intro f d d' e h planned
  exact (planned_compile h).2 planned

/-- **Conditions are written so that they can be told apart.**  Over columns
whose names are words, filters whose conditions are the same text have the
same condition, with the same groups, however deep they are. -/
theorem compile_legible (worded : s.Worded) (hr : root ∈ s.entities) (hr' : root' ∈ s.entities)
    (planned : Joins.Planned s root d.joins) (planned' : Joins.Planned s root' d'.joins)
    (compiled : Gives (compile s root vars f) d e d₁)
    (compiled' : Gives (compile s root' vars' f') d' e' d₁')
    (same : Sql.exprText e = Sql.exprText e') : e = e' :=
  Sql.exprText_injective (condition_legible worded hr planned compiled)
    (condition_legible worded hr' planned' compiled') same

end Predicate

/-- In the library a disjunction under a negation is written like the same
disjunction with a group of one operand in it, and is the same condition. -/
theorem compile_legible_library :
    ∃ e d e' d',
      Planner.Gives (Predicate.compile Sample.schema Sample.books []
        (.not (.or [Sample.titled, Sample.byAuthor]))) Draft.empty e d ∧
      Planner.Gives (Predicate.compile Sample.schema Sample.books []
        (.not (.or [.and [Sample.titled], Sample.byAuthor]))) Draft.empty e' d' ∧
      Sql.exprText e = "NOT ((t0.title = $p0 OR t1.name LIKE $p1))" ∧ e = e' := by
  have worded : Sample.schema.Worded := by
    simp only [QuerySchema.Worded]
    decide
  have books : Sample.books ∈ Sample.schema.entities := List.mem_cons_of_mem _ List.mem_cons_self
  have compiled : Planner.Gives (Predicate.compile Sample.schema Sample.books []
    (.not (.or [Sample.titled, Sample.byAuthor]))) Draft.empty _ _ := rfl
  have compiled' : Planner.Gives (Predicate.compile Sample.schema Sample.books []
    (.not (.or [.and [Sample.titled], Sample.byAuthor]))) Draft.empty _ _ := rfl
  exact ⟨_, _, _, _, compiled, compiled', rfl,
    Predicate.compile_legible worded books books .nil .nil compiled compiled' rfl⟩

end EntityQuery
