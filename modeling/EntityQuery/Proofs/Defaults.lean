/-
EntityQuery/Proofs/Defaults.lean

Defaults of variables.

The definitions of an operation are gone through in order, and a variable that
has no value yet takes the default of its definition.  So what is supplied is
kept, and any other variable has the value of the first of its defaults that
has one (`Planning.find?_bindVariables`).

A default is read like any value of a document, so there may be variables in
it.  Without them it is a constant and denotes a JSON value
(`Document.Value.isConstant_iff`); with them it is left out in silence, and its
variable stays unbound or takes a later default.  So the definitions whose
defaults are constants are merged as they should be (`Planning.Merges`), and
all definitions are if the first default of every variable that is not supplied
is a constant, and only then (`Planning.defaults_merged`, `Sample.not_merged`).
-/
import EntityQuery.Proofs.Apart
import EntityQuery.Proofs.Keyed

namespace EntityQuery

/-! ### Constants -/

namespace Document.Value

mutual

/-- The JSON value that a value of a document denotes.  A bare word denotes its
text and a number beyond the doubles null; of the entries of an object with one
name, the last is the one that counts.  A variable denotes nothing. -/
inductive Denotes : Document.Value → Json → Prop
  | int (i : Int) : Denotes (.int i) (.ofInt i)
  | float {x : Binary64} (finite : x.isFinite = true) :
      Denotes (.float x) (.number (.float x finite))
  | beyond {x : Binary64} (infinite : x.isFinite = false) : Denotes (.float x) .null
  | string (s : String) : Denotes (.string s) (.string s)
  | boolean (b : Bool) : Denotes (.boolean b) (.bool b)
  | null : Denotes .null .null
  | enum (name : String) : Denotes (.enum name) (.string name)
  | list {vs : List Document.Value} {js : List Json} (items : DenoteItems vs js) :
      Denotes (.list vs) (.array js)
  | object {es : List (String × Document.Value)} {members : List (String × Json)}
      (entries : DenoteEntries es members) :
      Denotes (.object es) (.object (Keyed.ofPairs members))

/-- The JSON values that the items of a list denote. -/
inductive DenoteItems : List Document.Value → List Json → Prop
  | nil : DenoteItems [] []
  | cons {v : Document.Value} {j : Json} {vs : List Document.Value} {js : List Json}
      (here : Denotes v j) (rest : DenoteItems vs js) : DenoteItems (v :: vs) (j :: js)

/-- The members that the entries of an object denote. -/
inductive DenoteEntries : List (String × Document.Value) → List (String × Json) → Prop
  | nil : DenoteEntries [] []
  | cons {name : String} {v : Document.Value} {j : Json} {es : List (String × Document.Value)}
      {members : List (String × Json)} (here : Denotes v j) (rest : DenoteEntries es members) :
      DenoteEntries ((name, v) :: es) ((name, j) :: members)

end

mutual

/-- Whether no variable occurs in the value. -/
def isConstant : Document.Value → Bool
  | .variable _ => false
  | .list vs => allConstant vs
  | .object es => entriesConstant es
  | _ => true

/-- Whether no variable occurs in the items. -/
def allConstant : List Document.Value → Bool
  | [] => true
  | v :: vs => isConstant v && allConstant vs

/-- Whether no variable occurs in the entries. -/
def entriesConstant : List (String × Document.Value) → Bool
  | [] => true
  | (_, v) :: es => isConstant v && entriesConstant es

end

mutual

/-- What a value denotes is what it is resolved to without variables. -/
theorem denotes_iff (v : Document.Value) (j : Json) :
    v.Denotes j ↔ (Operand.ofValue v).resolve [] = .ok j := by
  cases v with
  | «variable» name => exact iff_of_false nofun nofun
  | float x =>
    simp only [Operand.ofValue, Operand.resolve, Json.ofBinary64]
    constructor
    · intro denoted
      cases denoted with
      | float finite => rw [dif_pos finite]
      | beyond infinite => rw [dif_neg (by simp [infinite])]
    · split
      · next finite =>
        rintro ⟨⟩
        exact .float finite
      · next infinite =>
        rintro ⟨⟩
        exact .beyond (by simpa using infinite)
  | list vs =>
    constructor
    · intro denoted
      cases denoted with
      | list items => exact Outcome.bind_eq_ok.2 ⟨_, (denoteItems_iff vs _).1 items, rfl⟩
    · intro value
      obtain ⟨js, items, done⟩ := Outcome.bind_eq_ok.1 value
      cases done
      exact .list ((denoteItems_iff vs js).2 items)
  | object es =>
    constructor
    · intro denoted
      cases denoted with
      | object entries => exact Outcome.bind_eq_ok.2 ⟨_, (denoteEntries_iff es _).1 entries, rfl⟩
    · intro value
      obtain ⟨members, entries, done⟩ := Outcome.bind_eq_ok.1 value
      cases done
      exact .object ((denoteEntries_iff es members).2 entries)
  | _ =>
    constructor
    · rintro ⟨⟩
      rfl
    · rintro ⟨⟩
      constructor

theorem denoteItems_iff (vs : List Document.Value) (js : List Json) :
    DenoteItems vs js ↔ Operand.resolveItems [] (Operand.ofValues vs) = .ok js := by
  cases vs with
  | nil =>
    constructor
    · rintro ⟨⟩
      rfl
    · rintro ⟨⟩
      exact .nil
  | cons v vs =>
    constructor
    · intro denoted
      cases denoted with
      | cons here rest =>
        exact Outcome.bind_eq_ok.2 ⟨_, (denotes_iff v _).1 here,
          Outcome.bind_eq_ok.2 ⟨_, (denoteItems_iff vs _).1 rest, rfl⟩⟩
    · intro value
      obtain ⟨j, here, value⟩ := Outcome.bind_eq_ok.1 value
      obtain ⟨js, rest, done⟩ := Outcome.bind_eq_ok.1 value
      cases done
      exact .cons ((denotes_iff v j).2 here) ((denoteItems_iff vs js).2 rest)

theorem denoteEntries_iff (es : List (String × Document.Value)) (members : List (String × Json)) :
    DenoteEntries es members ↔
      Operand.resolveEntries [] (Operand.ofEntries es) = .ok members := by
  cases es with
  | nil =>
    constructor
    · rintro ⟨⟩
      rfl
    · rintro ⟨⟩
      exact .nil
  | cons e es =>
    obtain ⟨name, v⟩ := e
    constructor
    · intro denoted
      cases denoted with
      | cons here rest =>
        exact Outcome.bind_eq_ok.2 ⟨_, (denotes_iff v _).1 here,
          Outcome.bind_eq_ok.2 ⟨_, (denoteEntries_iff es _).1 rest, rfl⟩⟩
    · intro value
      obtain ⟨j, here, value⟩ := Outcome.bind_eq_ok.1 value
      obtain ⟨members, rest, done⟩ := Outcome.bind_eq_ok.1 value
      cases done
      exact .cons ((denotes_iff v j).2 here) ((denoteEntries_iff es members).2 rest)

end

mutual

/-- The constants are the values that denote something. -/
theorem isConstant_iff (v : Document.Value) : v.isConstant = true ↔ ∃ j, v.Denotes j := by
  cases v with
  | «variable» name => exact iff_of_false Bool.false_ne_true nofun
  | float x =>
    refine iff_of_true rfl ?_
    cases size : x.isFinite with
    | true => exact ⟨_, .float size⟩
    | false => exact ⟨_, .beyond size⟩
  | list vs =>
    refine (allConstant_iff vs).trans ⟨fun ⟨js, items⟩ => ⟨_, .list items⟩, ?_⟩
    rintro ⟨j, denoted⟩
    cases denoted with
    | list items => exact ⟨_, items⟩
  | object es =>
    refine (entriesConstant_iff es).trans ⟨fun ⟨members, entries⟩ => ⟨_, .object entries⟩, ?_⟩
    rintro ⟨j, denoted⟩
    cases denoted with
    | object entries => exact ⟨_, entries⟩
  | _ => exact iff_of_true rfl ⟨_, by constructor⟩

theorem allConstant_iff (vs : List Document.Value) :
    allConstant vs = true ↔ ∃ js, DenoteItems vs js := by
  cases vs with
  | nil => exact iff_of_true rfl ⟨_, .nil⟩
  | cons v vs =>
    rw [allConstant, Bool.and_eq_true, isConstant_iff v, allConstant_iff vs]
    constructor
    · rintro ⟨⟨j, here⟩, js, rest⟩
      exact ⟨_, .cons here rest⟩
    · rintro ⟨js, denoted⟩
      cases denoted with
      | cons here rest => exact ⟨⟨_, here⟩, _, rest⟩

theorem entriesConstant_iff (es : List (String × Document.Value)) :
    entriesConstant es = true ↔ ∃ members, DenoteEntries es members := by
  cases es with
  | nil => exact iff_of_true rfl ⟨_, .nil⟩
  | cons e es =>
    obtain ⟨name, v⟩ := e
    rw [entriesConstant, Bool.and_eq_true, isConstant_iff v, entriesConstant_iff es]
    constructor
    · rintro ⟨⟨j, here⟩, members, rest⟩
      exact ⟨_, .cons here rest⟩
    · rintro ⟨members, denoted⟩
      cases denoted with
      | cons here rest => exact ⟨⟨_, here⟩, _, rest⟩

end

/-- A value denotes one thing. -/
theorem Denotes.iff_eq {v : Document.Value} {j k : Json} (h : v.Denotes j) :
    v.Denotes k ↔ j = k := by
  rw [denotes_iff, (denotes_iff v j).1 h, Except.ok.injEq]

end Document.Value

/-- Whether the definition has a default without variables. -/
def Document.VariableDefinition.hasConstantDefault (d : VariableDefinition) : Bool :=
  d.default.any (·.isConstant)

namespace Planning

open Document (VariableDefinition)

variable {d : VariableDefinition} {ds : List VariableDefinition} {supplied : Variables}
variable {name : String} {v : Document.Value} {j : Json}

/-- The default of a definition is the value that its constant denotes. -/
theorem defaultOf?_eq_some : defaultOf? d = some j ↔ ∃ v, d.default = some v ∧ v.Denotes j := by
  simp only [Document.Value.denotes_iff, ← Outcome.toOption_eq_some]
  exact Option.bind_eq_some_iff

/-- There is one exactly if the default is constant. -/
theorem isSome_defaultOf? : (defaultOf? d).isSome = d.hasConstantDefault := by
  rw [Bool.eq_iff_iff, Option.isSome_iff_exists]
  simp only [defaultOf?_eq_some, Document.VariableDefinition.hasConstantDefault,
    Option.any_eq_true, Document.Value.isConstant_iff]
  exact ⟨fun ⟨j, v, default, denotes⟩ => ⟨v, default, j, denotes⟩,
    fun ⟨v, default, j, denotes⟩ => ⟨j, v, default, denotes⟩⟩

/-! ### Going through definitions -/

/-- One definition gives its variable a value, if there is none yet. -/
theorem find?_bindVariables_singleton (d : VariableDefinition) (supplied : Variables)
    (name : String) :
    Keyed.find? (bindVariables [d] supplied) name =
      (Keyed.find? supplied name).or (if d.name = name then defaultOf? d else none) := by
  rw [bindVariables, List.foldl_cons, List.foldl_nil, Keyed.contains]
  by_cases present : (Keyed.find? supplied d.name).isSome = true
  · rw [if_pos present]
    by_cases named : d.name = name
    · rw [← named, Option.or_of_isSome present]
    · rw [if_neg named, Option.or_none]
  · rw [if_neg present]
    by_cases named : d.name = name
    · rw [if_pos named, ← named, Option.not_isSome_iff_eq_none.1 present, Option.none_or]
      cases defaultOf? d with
      | some value => exact Keyed.find?_put_self _ _ _
      | none => exact Option.not_isSome_iff_eq_none.1 present
    · rw [if_neg named, Option.or_none]
      cases defaultOf? d with
      | some value => exact Keyed.find?_put_of_ne _ _ (Ne.symm named)
      | none => rfl

/-- After the definitions, a variable that was not supplied has the first value
of a default of its name. -/
theorem find?_bindVariables (ds : List VariableDefinition) (supplied : Variables)
    (name : String) :
    Keyed.find? (bindVariables ds supplied) name =
      (Keyed.find? supplied name).or
        (ds.findSome? fun d => if d.name = name then defaultOf? d else none) := by
  -- What is bound grows with every definition, so the rest begins with more than was supplied.
  induction ds generalizing supplied with
  | nil => exact Option.or_none.symm
  | cons d ds ih =>
    show Keyed.find? (bindVariables ds (bindVariables [d] supplied)) name = _
    rw [ih, find?_bindVariables_singleton, Option.or_assoc, List.findSome?_cons]
    cases (if d.name = name then defaultOf? d else none) <;> rfl

/-! ### Merging defaults -/

/-- The first default of a name. -/
def firstDefault? (ds : List VariableDefinition) (name : String) : Option Document.Value :=
  ds.findSome? fun d => if d.name = name then d.default else none

/-- The defaults of definitions are merged into what is supplied: this is kept,
the variables are those supplied and those with a default, and one that is not
supplied has the value that its first default denotes. -/
structure Merges (ds : List VariableDefinition) (supplied bound : Variables) : Prop where
  kept : ∀ name j, Keyed.find? supplied name = some j → Keyed.find? bound name = some j
  names : ∀ name, name ∈ bound.keys ↔
    name ∈ supplied.keys ∨ ∃ d ∈ ds, d.name = name ∧ d.default.isSome
  filled : ∀ name v, name ∉ supplied.keys → firstDefault? ds name = some v →
    ∃ j, v.Denotes j ∧ Keyed.find? bound name = some j

/-- The first definition of a name that has a default decides. -/
theorem firstDefault?_cons (d : VariableDefinition) (ds : List VariableDefinition)
    (name : String) :
    firstDefault? (d :: ds) name =
      (if d.name = name then d.default else none).or (firstDefault? ds name) := by
  rw [firstDefault?, List.findSome?_cons]
  cases (if d.name = name then d.default else none) <;> rfl

/-- There is a first default exactly if some definition of the name has one. -/
theorem isSome_firstDefault? :
    (firstDefault? ds name).isSome ↔ ∃ d ∈ ds, d.name = name ∧ d.default.isSome := by
  rw [firstDefault?, List.findSome?_isSome_iff]
  refine exists_congr fun d => and_congr_right fun _ => ?_
  split
  · next named => simp [named]
  · next other => simp [other]

theorem exists_of_firstDefault? (first : firstDefault? ds name = some v) :
    ∃ d ∈ ds, d.name = name ∧ d.default = some v := by
  obtain ⟨d, hd, found⟩ := List.exists_of_findSome?_eq_some first
  split at found
  · next named => exact ⟨d, hd, named, found⟩
  · cases found

/-- Among the definitions with constant defaults the first default is constant.
-/
theorem isConstant_of_firstDefault?
    (first : firstDefault? (ds.filter (·.hasConstantDefault)) name = some v) :
    v.isConstant = true := by
  obtain ⟨d, hd, -, default⟩ := exists_of_firstDefault? first
  have constant := (List.mem_filter.1 hd).2
  rwa [VariableDefinition.hasConstantDefault, default] at constant

/-- The first default, if it is a constant, is the first of the constants. -/
theorem firstDefault?_filter (first : firstDefault? ds name = some v)
    (constant : v.isConstant = true) :
    firstDefault? (ds.filter (·.hasConstantDefault)) name = some v := by
  induction ds with
  | nil => exact first
  | cons d ds ih =>
    rw [firstDefault?_cons, Option.or_eq_some_iff] at first
    rw [List.filter_cons]
    split
    · rw [firstDefault?_cons, Option.or_eq_some_iff]
      exact first.imp_right (And.imp_right ih)
    · next omitted =>
      -- A definition that is left out has another name, or no default.
      obtain found | ⟨-, first⟩ := first
      · split at found
        · exact absurd (by rwa [VariableDefinition.hasConstantDefault, found]) omitted
        · cases found
      · exact ih first

/-- The first value of a default is that of the first constant. -/
theorem findSome?_defaultOf? :
    (ds.findSome? fun d => if d.name = name then defaultOf? d else none) = some j ↔
      ∃ v, firstDefault? (ds.filter (·.hasConstantDefault)) name = some v ∧ v.Denotes j := by
  induction ds with
  | nil => simp [firstDefault?]
  | cons d ds ih =>
    rw [List.findSome?_cons, List.filter_cons]
    cases constant : d.hasConstantDefault with
    | false =>
      -- A default with variables has no value, and is not among the constants either.
      have nothing : defaultOf? d = none := by
        rw [← Option.not_isSome_iff_eq_none, isSome_defaultOf?, constant]
        exact Bool.false_ne_true
      simpa [nothing] using ih
    | true =>
      rw [if_pos rfl, firstDefault?_cons]
      by_cases named : d.name = name
      · obtain ⟨value, valued⟩ := Option.isSome_iff_exists.1 (isSome_defaultOf?.trans constant)
        obtain ⟨v, default, denotes⟩ := defaultOf?_eq_some.1 valued
        simp [named, valued, default, denotes.iff_eq]
      · simpa [named] using ih

/-- The definitions whose defaults are constants are merged. -/
theorem merges_constants (ds : List VariableDefinition) (supplied : Variables) :
    Merges (ds.filter (·.hasConstantDefault)) supplied (bindVariables ds supplied) where
  kept name j found := by
    rw [find?_bindVariables, found]
    rfl
  names name := by
    rw [← Keyed.isSome_find?, ← Keyed.isSome_find?, find?_bindVariables, Option.isSome_or,
      Bool.or_eq_true, ← isSome_firstDefault?]
    refine or_congr_right ?_
    rw [Option.isSome_iff_exists, Option.isSome_iff_exists]
    simp only [findSome?_defaultOf?]
    constructor
    · rintro ⟨j, v, first, -⟩
      exact ⟨v, first⟩
    · -- Of the definitions kept every default is constant, so that it denotes something.
      rintro ⟨v, first⟩
      obtain ⟨j, denotes⟩ :=
        (Document.Value.isConstant_iff v).1 (isConstant_of_firstDefault? first)
      exact ⟨j, v, first, denotes⟩
  filled name v absent first := by
    obtain ⟨j, denotes⟩ :=
      (Document.Value.isConstant_iff v).1 (isConstant_of_firstDefault? first)
    refine ⟨j, denotes, ?_⟩
    rw [find?_bindVariables, Keyed.find?_eq_none.2 absent, Option.none_or]
    exact findSome?_defaultOf?.2 ⟨v, first, denotes⟩

/-- All definitions are merged if the first default of every variable that is
not supplied is a constant, and only then. -/
theorem merges_iff (ds : List VariableDefinition) (supplied : Variables) :
    Merges ds supplied (bindVariables ds supplied) ↔
      ∀ name v, name ∉ supplied.keys → firstDefault? ds name = some v → v.isConstant = true := by
  constructor
  · intro merges name v absent first
    obtain ⟨j, denotes, -⟩ := merges.filled name v absent first
    exact (Document.Value.isConstant_iff v).2 ⟨j, denotes⟩
  · intro constants
    have merges := merges_constants ds supplied
    have firsts : ∀ name v, name ∉ supplied.keys → firstDefault? ds name = some v →
        firstDefault? (ds.filter (·.hasConstantDefault)) name = some v :=
      fun name v absent first => firstDefault?_filter first (constants name v absent first)
    -- The names are the same: a variable with a default has a first one, which is not left out.
    refine ⟨merges.kept, fun name => ?_,
      fun name v absent first => merges.filled name v absent (firsts name v absent first)⟩
    rw [merges.names]
    constructor
    · exact Or.imp_right fun ⟨d, hd, defined⟩ => ⟨d, List.mem_of_mem_filter hd, defined⟩
    · rintro (present | defined)
      · exact .inl present
      · by_cases present : name ∈ supplied.keys
        · exact .inl present
        · obtain ⟨v, first⟩ := Option.isSome_iff_exists.1 (isSome_firstDefault?.2 defined)
          refine .inr (isSome_firstDefault?.1 ?_)
          rw [firsts name v present first]
          rfl

end Planning

/-! ### Variables without a value -/

namespace Executor

/-- An operation fails for want of a value only for a variable that has none. -/
theorem find?_eq_none_of_unboundVariable {x : Executor}
    {reply : Query → Except StoreError (List Row)} {operation : Document.Operation}
    {supplied : Variables} {log : List Query} {e : ErrorEntry} {name : String}
    (he : e ∈ ((x.executeOperation (recorded reply) operation supplied).run log).1.errors)
    (unbound : e.error = .plan (.unboundVariable name)) :
    Keyed.find? (Planning.bindVariables operation.definitions supplied) name = none := by
  rw [executeOperation_recorded] at he
  obtain ⟨field, -, own⟩ | ⟨key, rfl⟩ := (x.tallied reply _ operation.selection).mem_errors he
  · exact x.single_of_mem_faultsOf reply _ own _ unbound
  · cases unbound

end Executor

namespace Planning

/-- **Defaults are merged as far as they are constants.**  After binding, every
variable that was supplied keeps its value, the other variables are those of
the definitions whose default is a constant, and each has the value that the
first of these defaults denotes.  This is merging all definitions exactly if
the first default of every variable that was not supplied is a constant.  A
variable that executing finds without a value was not supplied, and none of its
defaults is a constant. -/
theorem defaults_merged (operation : Document.Operation) (supplied : Variables) :
    Merges (operation.definitions.filter (·.hasConstantDefault)) supplied
        (bindVariables operation.definitions supplied) ∧
      (Merges operation.definitions supplied (bindVariables operation.definitions supplied) ↔
        ∀ name v, name ∉ supplied.keys → firstDefault? operation.definitions name = some v →
          v.isConstant = true) ∧
      ∀ (x : Executor) (reply : Query → Except StoreError (List Row)) (log : List Query),
        ∀ e ∈ ((x.executeOperation (Executor.recorded reply) operation supplied).run log).1.errors,
          ∀ name, e.error = .plan (.unboundVariable name) →
            name ∉ supplied.keys ∧
              ∀ d ∈ operation.definitions, d.name = name → d.hasConstantDefault = false := by
  have merges := merges_constants operation.definitions supplied
  refine ⟨merges, merges_iff operation.definitions supplied, ?_⟩
  intro x reply log e he name unbound
  have absent := Keyed.find?_eq_none.1 (Executor.find?_eq_none_of_unboundVariable he unbound)
  rw [merges.names, not_or] at absent
  refine ⟨absent.1, fun d hd named => ?_⟩
  -- A constant default would have bound the name.
  by_contra constant
  have constant : d.hasConstantDefault = true := by simpa using constant
  refine absent.2 ⟨d, List.mem_filter.2 ⟨hd, constant⟩, named, ?_⟩
  exact Option.isSome_of_any constant

end Planning

/-! ### Titles -/

namespace Sample

/-- A document that asks for the books of a title, which is that of another
variable if there is none. -/
def defaulted : String :=
  "query ($title: String = $other, $other: String = \"x\") " ++
    "\x7bbooks(where: \x7btitle: \x7bEQ: $title\x7d\x7d) \x7bselect \x7bid\x7d\x7d\x7d"

/-- Executing an operation in the library. -/
def ask (op : Document.Operation) (supplied : Variables) : Response :=
  ((Executor.executeOperation ⟨schema, none⟩ (Executor.recorded tables.run) op supplied).run []).1

/-- Both variables have a default, but the one whose default is a variable is
not bound, and the books are not answered. -/
theorem not_merged :
    ∃ op, Document.parse defaulted = .ok op ∧ (∀ d ∈ op.definitions, d.default.isSome) ∧
      ¬Planning.Merges op.definitions [] (Planning.bindVariables op.definitions []) ∧
      (ask op []).errors = [⟨.plan (.unboundVariable "title"), ["books"]⟩] := by
  have ran : ((Document.parse defaulted).toOption.map fun op =>
      (op.definitions.map fun d => (d.name, d.default.isSome),
        (Planning.bindVariables op.definitions []).keys, (ask op []).errors)) =
      some ([("title", true), ("other", true)], ["other"],
        [⟨.plan (.unboundVariable "title"), ["books"]⟩]) := by decide +kernel
  obtain ⟨op, parsed, ran⟩ := Option.map_eq_some_iff.1 ran
  simp only [Prod.mk.injEq] at ran
  obtain ⟨definitions, bound, errors⟩ := ran
  have defined : ∀ d ∈ op.definitions, d.default.isSome := by
    intro d hd
    have shown : (d.name, d.default.isSome) ∈ [("title", true), ("other", true)] := by
      rw [← definitions]
      exact List.mem_map_of_mem hd
    simp only [List.mem_cons, Prod.mk.injEq, List.not_mem_nil, or_false] at shown
    exact shown.elim And.right And.right
  refine ⟨op, Outcome.toOption_eq_some.1 parsed, defined, fun merges => ?_, errors⟩
  have title : ("title", true) ∈ op.definitions.map fun d => (d.name, d.default.isSome) := by
    rw [definitions]
    exact List.mem_cons_self
  obtain ⟨d, hd, shown⟩ := List.mem_map.1 title
  have named := (Prod.mk.inj shown).1
  have merged := (merges.names "title").2 (.inr ⟨d, hd, named, defined d hd⟩)
  rw [bound] at merged
  exact absurd merged (by decide)

/-- The title that is asked for. -/
def titleGiven : Variables := [("title", .string "x")]

end Sample

/-- With the title supplied, the variable in its default does not matter, and
the other variable has a value. -/
theorem Planning.defaults_merged_library :
    ∃ op, Document.parse Sample.defaulted = .ok op ∧
      Merges op.definitions Sample.titleGiven (bindVariables op.definitions Sample.titleGiven) ∧
      ∀ e ∈ (Sample.ask op Sample.titleGiven).errors,
        e.error ≠ .plan (.unboundVariable "other") := by
  have ran : ((Document.parse Sample.defaulted).toOption.map fun op =>
      op.definitions.map fun d => (d.name, d.hasConstantDefault)) =
      some [("title", false), ("other", true)] := by decide +kernel
  obtain ⟨op, parsed, definitions⟩ := Option.map_eq_some_iff.1 ran
  obtain ⟨-, all, bound⟩ := defaults_merged op Sample.titleGiven
  refine ⟨op, Outcome.toOption_eq_some.1 parsed, all.2 ?constants, fun e he unbound => ?other⟩
  case constants =>
    intro name v absent first
    obtain ⟨d, hd, named, default⟩ := exists_of_firstDefault? first
    have shown : (d.name, d.hasConstantDefault) ∈ [("title", false), ("other", true)] := by
      rw [← definitions]
      exact List.mem_map_of_mem hd
    simp only [List.mem_cons, Prod.mk.injEq, List.not_mem_nil, or_false] at shown
    obtain ⟨title, -⟩ | ⟨-, constant⟩ := shown
    · refine absurd ?_ absent
      rw [← named, title]
      exact List.mem_cons_self
    · rwa [Document.VariableDefinition.hasConstantDefault, default] at constant
  case other =>
    have other : ("other", true) ∈ op.definitions.map fun d => (d.name, d.hasConstantDefault) := by
      rw [definitions]
      exact List.mem_cons_of_mem _ List.mem_cons_self
    obtain ⟨d, hd, shown⟩ := List.mem_map.1 other
    obtain ⟨named, constant⟩ := Prod.mk.inj shown
    have missing := (bound _ _ _ e he "other" unbound).2 d hd named
    rw [constant] at missing
    cases missing

end EntityQuery
