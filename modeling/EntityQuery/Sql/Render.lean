/-
EntityQuery/Sql/Render.lean

Queries as SQL text, with a placeholder for every parameter.
-/
import EntityQuery.Relation.Query
import EntityQuery.Sql.Quote

namespace EntityQuery.Sql

/-! ### Expressions -/

/-- A constant of an expression. -/
def literalText : Literal → String
  | .integer i => String.ofList (integerText i)
  | .float x => String.ofList (doubleText x)
  | .boolean true => "true"
  | .boolean false => "false"
  | .string s => String.ofList (quoted s)
  | .null => "NULL"

/-- The spelling of an operator between operands. -/
def infixText : Operator → String
  | .equal => "="
  | .notEqual => "<>"
  | .lessThan => "<"
  | .greaterThan => ">"
  | .lessThanEqual => "<="
  | .greaterThanEqual => ">="
  | .like => "LIKE"
  | .oneOf => "IN"
  | .noneOf => "NOT IN"
  | .and => "AND"
  | .or => "OR"
  | .not => "NOT"
  | .isNull => "IS NULL"
  | .isNotNull => "IS NOT NULL"

/-- An operator applied to rendered operands. -/
def applied (operator : Operator) (operands : List String) : String :=
  match operator with
  | .and => "(" ++ " AND ".intercalate operands ++ ")"
  | .or => "(" ++ " OR ".intercalate operands ++ ")"
  | .not => "NOT (" ++ ", ".intercalate operands ++ ")"
  | .isNull => ", ".intercalate operands ++ " IS NULL"
  | .isNotNull => ", ".intercalate operands ++ " IS NOT NULL"
  | other => (" " ++ infixText other ++ " ").intercalate operands

mutual

/-- An expression. -/
def exprText : Expr → String
  | .literal value => literalText value
  | .column tableAlias name => tableAlias ++ "." ++ name
  | .parameter name => "$" ++ name
  | .list items => "(" ++ ", ".intercalate (exprTexts items) ++ ")"
  | .toText inner => "toString(" ++ exprText inner ++ ")"
  | .locate needle haystack => "position(" ++ exprText haystack ++ ", " ++ exprText needle ++ ")"
  | .sameDocument left right =>
    "JSONExtractRaw(" ++ exprText left ++ ") = JSONExtractRaw(" ++ exprText right ++ ")"
  | .apply operator operands => applied operator (exprTexts operands)

/-- Expressions in order. -/
def exprTexts : List Expr → List String
  | [] => []
  | e :: es => exprText e :: exprTexts es

end

/-! ### Clauses -/

/-- A column under its name. -/
def columnText (c : Column) : String := exprText c.expr ++ " AS \"" ++ c.name ++ "\""

/-- A join with its condition. -/
def joinText (j : Join) : String :=
  (match j.type with
    | .inner => "INNER JOIN "
    | .left => "LEFT JOIN ") ++
    j.table ++ " AS " ++ j.tableAlias ++ " ON " ++ exprText j.condition ++ "\n"

/-- A key of the order. -/
def orderText (k : OrderKey) : String :=
  exprText k.expr ++ (match k.direction with
    | .ascending => " ASC"
    | .descending => " DESC")

/-- The lines of the columns, with a comma after all but the last. -/
def columnLines : List Column → String
  | [] => ""
  | [c] => "      " ++ columnText c ++ "\n"
  | c :: cs => "      " ++ columnText c ++ ", \n" ++ columnLines cs

/-- A query, with a placeholder for every parameter. -/
def template (q : Query) : String :=
  "SELECT \n" ++ columnLines q.columns ++
    "FROM " ++ q.table ++ " AS " ++ q.tableAlias ++ "\n" ++
    String.join (q.joins.map joinText) ++
    (match q.filter with
      | some condition => "WHERE " ++ exprText condition ++ "\n"
      | none => "") ++
    (if q.order.isEmpty then ""
     else "ORDER BY " ++ ", ".intercalate (q.order.map orderText) ++ "\n") ++
    (match q.limit with
      | some limit => "LIMIT " ++ toString limit ++ "\n"
      | none => "")

end EntityQuery.Sql
