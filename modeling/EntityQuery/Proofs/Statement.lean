/-
EntityQuery/Proofs/Statement.lean

The SQL of a planned query, with its values.

The values of a filter come from outside, and any character may stand in them.
They do not change what the statement is made of: the statement is the
template, in which each placeholder has become one constant
(`exists_filled`).  No placeholder is left over, since planning binds
every name that it writes, and none is made by a value, since what is put in is
not read again.

That a statement is made at all holds for any text whose placeholders are among
the parameters (`substitute_eq_fill`).  The rest is about planned queries: the
dollar signs of their templates begin placeholders only (Template), and their
values are spelled by what is put in (Bound, Quoting).
-/
import EntityQuery.Proofs.Bound
import EntityQuery.Proofs.Pieces
import EntityQuery.Proofs.Where

namespace EntityQuery

namespace Sql

/-! ### Filling in -/

/-- The text of a piece, with constants for placeholders. -/
def Piece.filled (values : String → Json) : Piece → List Char
  | .character c => [c]
  | .placeholder name => constant (values (String.ofList name))

/-- A placeholder of a parameter becomes the constant of its value; every other
character stays. -/
theorem fill_eq_filled {ps : Parameters} {values : String → Json}
    (found : ∀ name ∈ Keyed.keys ps, Keyed.find? ps name = some (values name))
    {p : Piece} (among : p.Among (Keyed.keys ps)) : fill ps p = .ok (p.filled values) := by
  cases p with
  | character c => rfl
  | placeholder name =>
    have value := found (String.ofList name) among
    rw [fill, value]
    rfl

/-- A text whose placeholders are among the parameters is filled in. -/
theorem substitute_eq_fill {text : String} {ps : Parameters} {values : String → Json}
    (found : ∀ name ∈ Keyed.keys ps, Keyed.find? ps name = some (values name))
    (among : ∀ p ∈ pieces text.toList, p.Among (Keyed.keys ps)) :
    substitute text ps =
      .ok (String.ofList ((pieces text.toList).flatMap (Piece.filled values))) := by
  have filled := Outcome.mapM_ok fun p hp => fill_eq_filled found (among p hp)
  simp only [substitute]
  rw [filled]
  rfl

/-- The names of parameters can stand after a dollar sign. -/
theorem placeable_nameAt (i : Nat) : Placeable (Parameters.nameAt i) := by
  have letters : (Parameters.nameAt i).toList = 'p' :: (toString i).toList :=
    String.toList_append
  simp only [Placeable]
  rw [letters]
  refine ⟨List.cons_ne_nil _ _, List.forall_mem_cons.2 ⟨by decide, fun c hc => ?_⟩⟩
  have digit := isDigit_of_mem_toString hc
  have ascii : c.toNat < 0x80 := by
    simp only [Char.isDigit, Bool.and_eq_true, decide_eq_true_eq] at digit
    have : c.toNat ≤ 57 := digit.2
    omega
  simp only [isPlaceholderPart]
  rw [Text.isAlphanumeric_of_ascii ascii, Char.isAlphanum, digit]
  simp

/-- The statement of the query is its template, in pieces, with one constant in
place of each placeholder.  The pieces are placeholders of the parameters, each
read as far as it goes, and characters other than a dollar sign; the constants
spell the values that the parameters are bound to. -/
structure Filled (q : Query) (ps : List Piece) (values : String → Json) : Prop where
  text : ps.flatMap Piece.text = (template q).toList
  munched : Munched ps
  among : ∀ p ∈ ps, p.Among (Keyed.keys q.parameters)
  statement : statement q = .ok (String.ofList (ps.flatMap (Piece.filled values)))
  names : ∀ name ∈ Keyed.keys q.parameters, ∃ i, name = Parameters.nameAt i
  bound : ∀ name ∈ Keyed.keys q.parameters, Keyed.find? q.parameters name = some (values name)
  spelled : ∀ name ∈ Keyed.keys q.parameters, Spells (values name) (constant (values name))

/-- The statement of a plain query, whose values are numbered and atomic. -/
theorem filled_of_plain {q : Query} (plain : q.Plain (Keyed.keys q.parameters))
    (sequential : Parameters.Sequential q.parameters) (atomic : Parameters.Atomic q.parameters) :
    ∃ ps values, Filled q ps values := by
  have names : ∀ name ∈ Keyed.keys q.parameters, ∃ i, name = Parameters.nameAt i := by
    intro name hn
    rw [sequential] at hn
    obtain ⟨i, -, rfl⟩ := List.mem_map.1 hn
    exact ⟨i, rfl⟩
  have placeable : ∀ name ∈ Keyed.keys q.parameters, Placeable name := by
    intro name hn
    obtain ⟨i, rfl⟩ := names name hn
    exact placeable_nameAt i
  -- Giving the template a name keeps it from being computed.
  obtain ⟨text, named⟩ : ∃ text, template q = text := ⟨_, rfl⟩
  have among := (completes_template placeable plain).mentions.among
  rw [named] at among
  let values : String → Json := fun name => (Keyed.find? q.parameters name).getD .null
  have found : ∀ name ∈ Keyed.keys q.parameters,
      Keyed.find? q.parameters name = some (values name) := by
    intro name hn
    obtain ⟨value, bound⟩ := Option.isSome_iff_exists.1 (Keyed.isSome_find?.2 hn)
    show _ = some ((Keyed.find? q.parameters name).getD .null)
    rw [bound]
    rfl
  have spelled : ∀ name ∈ Keyed.keys q.parameters,
      Spells (values name) (constant (values name)) := by
    intro name hn
    have value : values name ∈ q.parameters.map (·.2) :=
      List.mem_map_of_mem (f := Prod.snd) (Keyed.mem_of_find? (found name hn))
    exact spells_constant (atomic _ value)
  have filled : statement q =
      .ok (String.ofList ((pieces text.toList).flatMap (Piece.filled values))) := by
    simp only [statement]
    rw [named]
    exact substitute_eq_fill found among
  have whole : (pieces text.toList).flatMap Piece.text = (template q).toList := by
    rw [named]
    exact text_pieces text.toList
  exact ⟨pieces text.toList, values, whole, munched_pieces _, among, filled, names, found, spelled⟩

end Sql

namespace Planning

open Sql

/-! ### Statements of planned queries -/

/-- **Values do not change the structure of a statement.**  Over plain names
and standard scalars, the statement of a planned query is its template with one
constant in place of each placeholder: `NULL`, a digit for a truth value, a
numeral of the value, or a quoted string, which is read to its last character
and is the value.  Placeholders are read as far as they go, and no other
character of the template is a dollar sign. -/
theorem exists_filled {schemaName : String} {descriptors : List EntityDescriptor}
    {registry : ScalarRegistry} {s : QuerySchema}
    (built : QuerySchema.build schemaName descriptors registry = .ok s)
    (plain : ∀ e ∈ s.entities, e.Plain)
    (standard : ∀ e ∈ s.entities, ∀ f ∈ e.fields, ∀ b, f.binding = some b → b.Standard)
    {vars : Variables} {field : Document.Field} {plan : RootPlan}
    (planned : planRootField s vars field = .ok plan) (limit : Option Nat) :
    ∃ ps values, Filled { plan.query with limit := limit } ps values := by
  have identified := QuerySchema.identified_of_build built
  obtain ⟨root, select, gs, p⟩ : ∃ root select gs,
      PlanOf s (fun _ => True) vars field plan root select gs :=
    planOf planned ⟨identified, fun _ _ => trivial⟩
      (Document.Field.allThroughout_of_forall (fun _ => trivial) _)
  have hr : root ∈ s.entities := QuerySchema.mem_of_root? p.root
  obtain ⟨query, atomic⟩ := p.plain_query plain hr standard identified
  -- A limit is a number, and adds no placeholder.
  exact filled_of_plain { query with } p.parameters atomic

end Planning

/-! ### The small library -/

namespace Sample

/-- The root field of books, asked for with values that look like SQL. -/
def hostile : Document.Field :=
  .mk none "books" [("where", .object [("title", .object [("EQ", .string "it's $p1")]),
    ("attributes", .object [("LOCATE", .string "\\'; --")])])]
    [.mk none "select" [] [leaf "title"]]

/-- What is sent to the database for it. -/
def sent : String :=
  "SELECT \n      t0.title AS \"title\", \n      t0.id AS \"id\"\nFROM books AS t0\n" ++
    "WHERE (t0.title = 'it\\'s $p1' AND " ++
    "position(toString(t0.attributes), '\\\\\\'; --') > 0)\nLIMIT 10\n"

theorem standard : ∀ e ∈ schema.entities, ∀ f ∈ e.fields, ∀ b, f.binding = some b →
    b.Standard := by
  have bindings : ∀ e ∈ schema.entities, ∀ f ∈ e.fields, ∀ b, f.binding = some b →
      b ∈ ordinaryBindings.map (·.2) ∨ b = .document "Attributes" "Attributes of a book" := by
    decide
  intro e he f hf b hb
  rcases bindings e he f hf b hb with ordinary | document
  · exact .inl ordinary
  · exact .inr ⟨_, _, .inl document⟩

end Sample

/-- In the library, values that look like SQL are read as what they are. -/
theorem exists_filled_library :
    ∃ plan ps values, Planning.planRootField Sample.schema [] Sample.hostile = .ok plan ∧
      Sql.Filled { plan.query with limit := some 10 } ps values ∧
      values "p0" = .string "it's $p1" ∧ values "p1" = .string "\\'; --" ∧
      Sql.statement { plan.query with limit := some 10 } = .ok Sample.sent := by
  have planned : Planning.planRootField Sample.schema [] Sample.hostile = .ok _ := rfl
  obtain ⟨ps, values, filled⟩ := Planning.exists_filled Sample.schema_built (by decide)
    Sample.standard planned (some 10)
  refine ⟨_, ps, values, planned, filled, ?_, ?_, by decide +kernel⟩
  · have bound : some (.string "it's $p1") = some (values "p0") := filled.bound "p0" (by decide)
    exact (Option.some.inj bound).symm
  · have bound : some (.string "\\'; --") = some (values "p1") := filled.bound "p1" (by decide)
    exact (Option.some.inj bound).symm

end EntityQuery
