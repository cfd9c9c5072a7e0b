/-
EntityQuery/Proofs/Template.lean

The placeholders of rendered queries.

A dollar sign can get into SQL text as the beginning of a placeholder, or
inside a name or a constant.  In a query whose tables, columns and constants
have none (`Query.Plain`), all dollar signs of the template begin
placeholders of its parameters (`completes_template`).  The induction is on
expressions, with one case for each way of spelling one.
-/
import EntityQuery.Proofs.Pieces

namespace EntityQuery

/-- The name has no dollar sign in it; letters, digits, underscores and dots
are such names. -/
def Dollarless (name : String) : Prop := '$' ∉ name.toList

instance (name : String) : Decidable (Dollarless name) :=
  inferInstanceAs (Decidable ('$' ∉ name.toList))

/-! ### Plain queries -/

namespace Expr

mutual

/-- The expression has plain names and constants, and parameters of the given
names. -/
def Plain (names : List String) : Expr → Prop
  | .literal value => Dollarless (Sql.literalText value)
  | .column tableAlias name => Dollarless tableAlias ∧ Dollarless name
  | .parameter name => name ∈ names
  | .list items => AllPlain names items
  | .toText inner => Plain names inner
  | .locate needle haystack => Plain names needle ∧ Plain names haystack
  | .sameDocument left right => Plain names left ∧ Plain names right
  | .apply _ operands => AllPlain names operands

/-- All of the expressions are plain. -/
def AllPlain (names : List String) : List Expr → Prop
  | [] => True
  | e :: es => Plain names e ∧ AllPlain names es

end

theorem plain_allOf {names : List String} {es : List Expr} (h : AllPlain names es) :
    (allOf es).Plain names := by
  match es, h with
  | [], _ =>
    have word : Dollarless "true" := by decide
    exact word
  | [e], h => exact h.1
  | e₁ :: e₂ :: es, h => exact h

theorem plain_anyOf {names : List String} {es : List Expr} (h : AllPlain names es) :
    (anyOf es).Plain names := by
  match es, h with
  | [], _ =>
    have word : Dollarless "false" := by decide
    exact word
  | [e], h => exact h.1
  | e₁ :: e₂ :: es, h => exact h

mutual

theorem Plain.mono {names more : List String} (h : ∀ n ∈ names, n ∈ more) {e : Expr}
    (plain : e.Plain names) : e.Plain more := by
  cases e with
  | literal value => exact plain
  | column tableAlias name => exact plain
  | parameter name => exact h name plain
  | list items => exact (AllPlain.mono h plain : AllPlain more items)
  | toText inner => exact Plain.mono h (e := inner) plain
  | locate needle haystack =>
    exact ⟨Plain.mono h (e := needle) plain.1, Plain.mono h (e := haystack) plain.2⟩
  | sameDocument left right =>
    exact ⟨Plain.mono h (e := left) plain.1, Plain.mono h (e := right) plain.2⟩
  | apply operator operands => exact (AllPlain.mono h plain : AllPlain more operands)

theorem AllPlain.mono {names more : List String} (h : ∀ n ∈ names, n ∈ more) {es : List Expr}
    (plain : AllPlain names es) : AllPlain more es := by
  cases es with
  | nil => trivial
  | cons e es => exact ⟨Plain.mono h plain.1, AllPlain.mono h plain.2⟩

end

end Expr

/-- The query has plain names and constants, and parameters of the given
names. -/
structure Query.Plain (names : List String) (q : Query) : Prop where
  columns : ∀ c ∈ q.columns, c.expr.Plain names ∧ Dollarless c.name
  table : Dollarless q.table
  tableAlias : Dollarless q.tableAlias
  joins : ∀ j ∈ q.joins, Dollarless j.table ∧ Dollarless j.tableAlias ∧ j.condition.Plain names
  filter : ∀ e, q.filter = some e → e.Plain names
  order : ∀ k ∈ q.order, k.expr.Plain names

namespace Sql

/-! ### Expressions -/

/-- The name can stand after a dollar sign. -/
def Placeable (name : String) : Prop :=
  name.toList ≠ [] ∧ ∀ c ∈ name.toList, isPlaceholderPart c = true

variable {names : List String}

theorem mentions_applied (operator : Operator) {ts : List String}
    (h : ∀ t ∈ ts, Mentions names t.toList) :
    Mentions names (applied operator ts).toList := by
  have parts : ∀ u ∈ ts.map String.toList, Mentions names u := by
    intro u hu
    obtain ⟨t, ht, rfl⟩ := List.mem_map.1 hu
    exact h t ht
  -- All operators are spelled in one of two ways: between operands, or around them.
  have separated : ∀ separator : String, Dollarless separator →
      breaks separator.toList = true → Mentions names (separator.intercalate ts).toList := by
    intro separator plain off
    rw [String.toList_intercalate]
    exact mentions_intercalate parts plain off
  have enclosed : ∀ before separator after : String, Dollarless before → Dollarless separator →
      breaks separator.toList = true → Dollarless after → breaks after.toList = true →
      Mentions names (before ++ separator.intercalate ts ++ after).toList := by
    intro before separator after plain plain' off plain'' off'
    rw [String.toList_append, String.toList_append]
    exact ((separated separator plain' off).between before after plain plain'' off').mentions
  cases operator
  case and => exact enclosed "(" " AND " ")" (by decide) (by decide) rfl (by decide) rfl
  case or => exact enclosed "(" " OR " ")" (by decide) (by decide) rfl (by decide) rfl
  case not => exact enclosed "NOT (" ", " ")" (by decide) (by decide) rfl (by decide) rfl
  case isNull =>
    have := enclosed "" ", " " IS NULL" (by decide) (by decide) rfl (by decide) rfl
    rwa [String.empty_append] at this
  case isNotNull =>
    have := enclosed "" ", " " IS NOT NULL" (by decide) (by decide) rfl (by decide) rfl
    rwa [String.empty_append] at this
  case equal => exact separated " = " (by decide) rfl
  case notEqual => exact separated " <> " (by decide) rfl
  case lessThan => exact separated " < " (by decide) rfl
  case greaterThan => exact separated " > " (by decide) rfl
  case lessThanEqual => exact separated " <= " (by decide) rfl
  case greaterThanEqual => exact separated " >= " (by decide) rfl
  case like => exact separated " LIKE " (by decide) rfl
  case oneOf => exact separated " IN " (by decide) rfl
  case noneOf => exact separated " NOT IN " (by decide) rfl

mutual

/-- An expression mentions its parameters. -/
theorem mentions_exprText (placeable : ∀ n ∈ names, Placeable n) {e : Expr}
    (plain : e.Plain names) : Mentions names (exprText e).toList := by
  -- The text between the parts has no dollar in it, and ends a placeholder before it.
  cases e with
  | literal value =>
    have dollarless : Dollarless (literalText value) := plain
    exact (completes_of_not_mem dollarless).mentions
  | column tableAlias name =>
    show Mentions names (tableAlias ++ "." ++ name).toList
    rw [String.toList_append, String.toList_append]
    have dot : Dollarless "." := by decide
    exact (((completes_of_not_mem plain.1).append (completes_of_not_mem dot)).append
      (completes_of_not_mem plain.2)).mentions
  | parameter name =>
    show Mentions names ("$" ++ name).toList
    rw [String.toList_append]
    exact mentions_placeholder plain (placeable name plain).1 (placeable name plain).2
  | list items =>
    have inside : Mentions names (", ".intercalate (exprTexts items)).toList := by
      rw [String.toList_intercalate]
      refine mentions_intercalate (fun u hu => ?_) (by decide) rfl
      obtain ⟨t, ht, rfl⟩ := List.mem_map.1 hu
      exact mentions_exprTexts placeable plain t ht
    show Mentions names ("(" ++ ", ".intercalate (exprTexts items) ++ ")").toList
    rw [String.toList_append, String.toList_append]
    exact (inside.between "(" ")" (by decide) (by decide) rfl).mentions
  | toText inner =>
    have text : Mentions names (exprText inner).toList := mentions_exprText placeable plain
    show Mentions names ("toString(" ++ exprText inner ++ ")").toList
    rw [String.toList_append, String.toList_append]
    exact (text.between "toString(" ")" (by decide) (by decide) rfl).mentions
  | locate needle haystack =>
    have first := (mentions_exprText placeable plain.2).between "position(" ", " (by decide)
      (by decide) rfl
    have second := (mentions_exprText placeable plain.1).between "" ")" (by decide) (by decide) rfl
    show Mentions names
      ("position(" ++ exprText haystack ++ ", " ++ exprText needle ++ ")").toList
    simpa using (first.append second).mentions
  | sameDocument left right =>
    have first := (mentions_exprText placeable plain.1).between "JSONExtractRaw("
      ") = JSONExtractRaw(" (by decide) (by decide) rfl
    have second := (mentions_exprText placeable plain.2).between "" ")" (by decide) (by decide) rfl
    show Mentions names
      ("JSONExtractRaw(" ++ exprText left ++ ") = JSONExtractRaw(" ++ exprText right ++ ")").toList
    simpa using (first.append second).mentions
  | apply operator operands =>
    exact mentions_applied operator (mentions_exprTexts placeable plain)

theorem mentions_exprTexts (placeable : ∀ n ∈ names, Placeable n) {es : List Expr}
    (plain : Expr.AllPlain names es) : ∀ t ∈ exprTexts es, Mentions names t.toList := by
  cases es with
  | nil => exact fun t ht => absurd ht List.not_mem_nil
  | cons e es =>
    exact List.forall_mem_cons.2
      ⟨mentions_exprText placeable plain.1, mentions_exprTexts placeable plain.2⟩

end

/-! ### Clauses -/

theorem isDigit_of_mem_toString {n : Nat} {c : Char} (h : c ∈ (toString n).toList) :
    c.isDigit = true := by
  have digits : (toString n).toList = Nat.toDigits 10 n := Nat.toList_repr
  rw [digits] at h
  exact Nat.isDigit_of_mem_toDigits (by decide) (by decide) h

theorem dollarless_toString (n : Nat) : Dollarless (toString n) := by
  intro dollar
  have := isDigit_of_mem_toString dollar
  cases this

theorem completes_of_dollarless (names : List String) {s : String} (h : Dollarless s) :
    Completes names s.toList :=
  completes_of_not_mem h

theorem completes_columnText (placeable : ∀ n ∈ names, Placeable n) {c : Column}
    (plain : c.expr.Plain names) (name : Dollarless c.name) :
    Completes names (columnText c).toList := by
  have column := (mentions_exprText placeable plain).between "" " AS \"" (by decide) (by decide)
    rfl
  have quote : Dollarless "\"" := by decide
  simpa [columnText] using
    (column.append (completes_of_dollarless names name)).append
      (completes_of_dollarless names quote)

theorem completes_columnLines (placeable : ∀ n ∈ names, Placeable n) {cs : List Column}
    (plain : ∀ c ∈ cs, c.expr.Plain names ∧ Dollarless c.name) :
    Completes names (columnLines cs).toList := by
  induction cs with
  | nil => exact completes_of_dollarless names (by decide)
  | cons c cs ih =>
    obtain ⟨⟨expr, name⟩, others⟩ := List.forall_mem_cons.1 plain
    have line := (completes_columnText placeable expr name).mentions
    cases cs with
    | nil => simpa [columnLines] using line.between "      " "\n" (by decide) (by decide) rfl
    | cons c' cs =>
      have first := line.between "      " ", \n" (by decide) (by decide) rfl
      simpa [columnLines] using first.append (ih others)

theorem completes_joinText (placeable : ∀ n ∈ names, Placeable n) {j : Join}
    (table : Dollarless j.table) (tableAlias : Dollarless j.tableAlias)
    (condition : j.condition.Plain names) : Completes names (joinText j).toList := by
  have kind : ∀ s ∈ ["INNER JOIN ", "LEFT JOIN ", " AS "], Dollarless s := by decide
  have on := (mentions_exprText placeable condition).between " ON " "\n" (by decide) (by decide)
    rfl
  have named := ((completes_of_dollarless names table).append
    (completes_of_dollarless names (kind " AS " (by decide)))).append
    (completes_of_dollarless names tableAlias)
  simp only [joinText]
  cases j.type with
  | inner =>
    have inner := completes_of_dollarless names (kind "INNER JOIN " (by decide))
    simpa using (inner.append named).append on
  | left =>
    have left := completes_of_dollarless names (kind "LEFT JOIN " (by decide))
    simpa using (left.append named).append on

theorem mentions_orderText (placeable : ∀ n ∈ names, Placeable n) {k : OrderKey}
    (plain : k.expr.Plain names) : Mentions names (orderText k).toList := by
  have key := mentions_exprText placeable plain
  simp only [orderText]
  rw [String.toList_append]
  cases k.direction with
  | ascending => exact (key.append (completes_of_dollarless names (by decide)) rfl).mentions
  | descending => exact (key.append (completes_of_dollarless names (by decide)) rfl).mentions

theorem completes_flatMap {α : Type} {xs : List α} {text : α → List Char}
    (h : ∀ x ∈ xs, Completes names (text x)) : Completes names (xs.flatMap text) := by
  induction xs with
  | nil => exact completes_of_not_mem List.not_mem_nil
  | cons x xs ih =>
    obtain ⟨first, others⟩ := List.forall_mem_cons.1 h
    rw [List.flatMap_cons]
    exact first.append (ih others)

/-- The dollar signs of the template of a plain query begin placeholders of its
parameters. -/
theorem completes_template (placeable : ∀ n ∈ names, Placeable n) {q : Query}
    (plain : q.Plain names) : Completes names (template q).toList := by
  -- The words of the clauses are plain, and break off the names before them.
  have words : ∀ s ∈ ["SELECT \n", "FROM ", " AS ", "\n", ""], Dollarless s := by decide
  have joins : Completes names (String.join (q.joins.map joinText)).toList := by
    rw [String.toList_join, List.flatMap_map]
    refine completes_flatMap fun j hj => ?_
    obtain ⟨table, tableAlias, condition⟩ := plain.joins j hj
    exact completes_joinText placeable table tableAlias condition
  have order : Completes names (if q.order.isEmpty then ""
      else "ORDER BY " ++ ", ".intercalate (q.order.map orderText) ++ "\n").toList := by
    split
    · exact completes_of_dollarless names (words _ (by decide))
    · have keys : Mentions names (", ".intercalate (q.order.map orderText)).toList := by
        rw [String.toList_intercalate]
        refine mentions_intercalate (fun u hu => ?_) (by decide) rfl
        rw [List.map_map] at hu
        obtain ⟨k, hk, rfl⟩ := List.mem_map.1 hu
        exact mentions_orderText placeable (plain.order k hk)
      simpa using keys.between "ORDER BY " "\n" (by decide) (by decide) rfl
  have word := fun s hs => completes_of_dollarless names (words s hs)
  unfold template
  simp only [String.toList_append]
  refine Completes.append (Completes.append (Completes.append (Completes.append ?_ joins) ?_)
    order) ?_
  · exact (((((((word _ (by decide)).append (completes_columnLines placeable plain.columns)).append
      (word _ (by decide))).append (completes_of_dollarless names plain.table)).append
      (word _ (by decide))).append (completes_of_dollarless names plain.tableAlias)).append
      (word _ (by decide)))
  · cases some : q.filter with
    | none => exact completes_of_dollarless names (words _ (by decide))
    | some condition =>
      have text := mentions_exprText placeable (plain.filter condition some)
      simpa using text.between "WHERE " "\n" (by decide) (by decide) rfl
  · cases q.limit with
    | none => exact completes_of_dollarless names (words _ (by decide))
    | some limit =>
      have digits := (completes_of_dollarless names (dollarless_toString limit)).mentions
      simpa using digits.between "LIMIT " "\n" (by decide) (by decide) rfl

end Sql

end EntityQuery
