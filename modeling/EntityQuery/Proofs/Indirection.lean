/-
EntityQuery/Proofs/Indirection.lean

Criteria that come through variables.

A part of the criteria of a root field may be given by a variable in its
place: the whole argument, the criteria of a field or of an association, the
operand of a combinator, the list of its operands, or one element of the list
(`Criteria.Given`).  The value of the variable is read as the part would be
(`Operand.ofJson_resolve`), and nothing else in the criteria changes, so the
filter is the same tree and the query the same query
(`Planning.planRootField_given`).

There are two exceptions, both shown in the library at the end
(`Sample.not_given`).  A variable whose value is null does not stand for an
absent argument, as null itself does.  And where the fields of an associated
entity are written like operators, they are told from operators by their
criteria being objects; at least one of them has to stay an object in its
place.
-/
import EntityQuery.Proofs.Where

namespace EntityQuery

/-! ### Literals -/

namespace Document.Value

mutual

/-- No variable occurs in the value, and no key twice in one object. -/
def Inline : Document.Value → Prop
  | .variable _ => False
  | .list items => AllInline items
  | .object entries => (entries.map (·.1)).Nodup ∧ EntriesInline entries
  | _ => True

/-- The same of several values. -/
def AllInline : List Document.Value → Prop
  | [] => True
  | v :: vs => Inline v ∧ AllInline vs

/-- The same of the values of entries. -/
def EntriesInline : List (String × Document.Value) → Prop
  | [] => True
  | (_, v) :: es => Inline v ∧ EntriesInline es

end

end Document.Value

namespace Operand

mutual

/-- No variable occurs in the operand, no key twice in one object, and no
constant is a list or an object. -/
def Inline : Operand → Prop
  | .variable _ => False
  | .constant value => ofJson value = .constant value
  | .list items => AllInline items
  | .object entries => (Keyed.keys entries).Nodup ∧ EntriesInline entries

/-- The same of several operands. -/
def AllInline : List Operand → Prop
  | [] => True
  | o :: os => Inline o ∧ AllInline os

/-- The same of the operands of entries. -/
def EntriesInline : List (String × Operand) → Prop
  | [] => True
  | (_, o) :: es => Inline o ∧ EntriesInline es

end

theorem keys_ofEntries (entries : List (String × Document.Value)) :
    Keyed.keys (ofEntries entries) = entries.map (·.1) := by
  induction entries with
  | nil => rfl
  | cons entry entries ih =>
    obtain ⟨name, v⟩ := entry
    exact congrArg (name :: ·) ih

mutual

/-- The operand of a literal without variables and repeated keys. -/
theorem inline_ofValue (v : Document.Value) (h : v.Inline) : (ofValue v).Inline := by
  cases v with
  | «variable» name => exact h.elim
  | int i => rfl
  | float x =>
    simp only [ofValue, Inline, Json.ofBinary64]
    split <;> rfl
  | string s => rfl
  | boolean b => rfl
  | null => rfl
  | enum name => rfl
  | list items =>
    rw [ofValue, Inline]
    exact inline_ofValues items h
  | object entries =>
    rw [ofValue, Inline]
    refine ⟨?_, inline_ofEntries entries h.2⟩
    rw [keys_ofEntries]
    exact h.1

theorem inline_ofValues (vs : List Document.Value) (h : Document.Value.AllInline vs) :
    AllInline (ofValues vs) := by
  cases vs with
  | nil => trivial
  | cons v vs => exact ⟨inline_ofValue v h.1, inline_ofValues vs h.2⟩

theorem inline_ofEntries (es : List (String × Document.Value))
    (h : Document.Value.EntriesInline es) : EntriesInline (ofEntries es) := by
  cases es with
  | nil => trivial
  | cons entry es =>
    obtain ⟨name, v⟩ := entry
    exact ⟨inline_ofValue v h.1, inline_ofEntries es h.2⟩

end

mutual

/-- The JSON value of such an operand is read as the operand again. -/
theorem ofJson_resolve {vars : Variables} (o : Operand) (inline : o.Inline) {j : Json}
    (h : o.resolve vars = .ok j) : ofJson j = o := by
  cases o with
  | «variable» name => exact inline.elim
  | constant value =>
    cases h
    exact inline
  | list items =>
    obtain ⟨js, resolved, h⟩ := Outcome.bind_eq_ok.1 h
    cases h
    rw [ofJson, ofItems_resolveItems items inline resolved]
  | object entries =>
    obtain ⟨members, resolved, h⟩ := Outcome.bind_eq_ok.1 h
    cases h
    obtain ⟨names, same⟩ := ofMembers_resolveEntries entries inline.2 resolved
    have distinct := inline.1
    rw [← names] at distinct
    rw [Keyed.ofPairs_eq_self distinct, ofJson, same]

theorem ofItems_resolveItems {vars : Variables} (os : List Operand) (inline : AllInline os)
    {js : List Json} (h : resolveItems vars os = .ok js) : ofItems js = os := by
  cases os with
  | nil =>
    cases h
    rfl
  | cons o os =>
    obtain ⟨j, first, h⟩ := Outcome.bind_eq_ok.1 h
    obtain ⟨js, rest, h⟩ := Outcome.bind_eq_ok.1 h
    cases h
    rw [ofItems, ofJson_resolve o inline.1 first, ofItems_resolveItems os inline.2 rest]

theorem ofMembers_resolveEntries {vars : Variables} (es : List (String × Operand))
    (inline : EntriesInline es) {members : List (String × Json)}
    (h : resolveEntries vars es = .ok members) :
    Keyed.keys members = Keyed.keys es ∧ ofMembers members = es := by
  cases es with
  | nil =>
    cases h
    exact ⟨rfl, rfl⟩
  | cons entry es =>
    obtain ⟨name, o⟩ := entry
    obtain ⟨j, first, h⟩ := Outcome.bind_eq_ok.1 h
    obtain ⟨members, rest, h⟩ := Outcome.bind_eq_ok.1 h
    cases h
    obtain ⟨names, same⟩ := ofMembers_resolveEntries es inline.2 rest
    refine ⟨congrArg (name :: ·) names, ?_⟩
    rw [ofMembers, ofJson_resolve o inline.1 first, same]

end

theorem AllInline.mem {os : List Operand} (h : AllInline os) : ∀ o ∈ os, o.Inline := by
  induction os with
  | nil => exact List.forall_mem_nil _
  | cons o os ih => exact List.forall_mem_cons.2 ⟨h.1, ih h.2⟩

theorem EntriesInline.mem {es : List (String × Operand)} (h : EntriesInline es) :
    ∀ e ∈ es, e.2.Inline := by
  induction es with
  | nil => exact List.forall_mem_nil _
  | cons e es ih => exact List.forall_mem_cons.2 ⟨h.1, ih h.2⟩

/-! ### Looking through a variable -/

variable {vars : Variables} {name : String} {j : Json}

/-- A variable has the entries that its value has. -/
theorem entries_variable (found : Keyed.find? vars name = some j) (context : String) :
    entries vars context (.variable name) = entries vars context (ofJson j) := by
  simp only [entries, variableValue]
  rw [found]
  cases j <;> rfl

/-- A variable has the items of its value. -/
theorem items?_variable (found : Keyed.find? vars name = some j) :
    items? vars (.variable name) = items? vars (ofJson j) := by
  simp only [items?, variableValue]
  rw [found]
  cases j <;> rfl

end Operand

namespace Criteria

/-! ### What variables may stand for -/

/-- The places of criteria that a variable may fill. -/
inductive Place where
  | criteria
  | group
  | field
deriving DecidableEq

/-- The place of the value of a key. -/
def Place.of (key : String) : Place :=
  if key = "AND" ∨ key = "OR" then .group else if key = "NOT" then .criteria else .field

mutual

/-- The operand in a place is also given with variables for parts of it, each
bound to the JSON value of its part. -/
inductive Given (vars : Variables) : Place → Operand → Operand → Prop
  | kept (place : Place) (o : Operand) : Given vars place o o
  | bound (place : Place) {o : Operand} {name : String} {j : Json}
      (value : o.resolve [] = .ok j) (found : Keyed.find? vars name = some j) :
      Given vars place o (.variable name)
  | criteria {es es' : List (String × Operand)} (entries : GivenEntries vars es es') :
      Given vars .criteria (.object es) (.object es')
  /-- The operands of a combinator in a list. -/
  | operands {os os' : List Operand} (each : List.Forall₂ (Given vars .criteria) os os') :
      Given vars .group (.list os) (.list os')
  /-- The operands of a combinator as the entries of one object. -/
  | separate {es es' : List (String × Operand)} (entries : GivenEntries vars es es') :
      Given vars .group (.object es) (.object es')
  /-- The criteria of an association, which what is left in place must show
  not to be operators. -/
  | association {es es' : List (String × Operand)} (entries : GivenEntries vars es es')
      (apart : isLeafGroup es = false) (still : isLeafGroup es' = false) :
      Given vars .field (.object es) (.object es')

/-- Entries of criteria are also given, one by one. -/
inductive GivenEntries (vars : Variables) :
    List (String × Operand) → List (String × Operand) → Prop
  | nil : GivenEntries vars [] []
  | cons {key : String} {o o' : Operand} {es es' : List (String × Operand)}
      (here : Given vars (Place.of key) o o') (rest : GivenEntries vars es es') :
      GivenEntries vars ((key, o) :: es) ((key, o') :: es')

end

variable {vars : Variables} {room : Nat} {path : List String} {key label : String}
variable {o o' : Operand} {es es' : List (String × Operand)} {place : Place}

theorem GivenEntries.refl (es : List (String × Operand)) : GivenEntries vars es es := by
  induction es with
  | nil => exact .nil
  | cons e es ih => exact .cons (.kept _ e.2) ih

theorem GivenEntries.isEmpty (h : GivenEntries vars es es') : es'.isEmpty = es.isEmpty := by
  cases h <;> rfl

/-- The entries of an object, given otherwise. -/
theorem Given.objectEntries (h : Given vars place o o') (inline : o.Inline)
    (read : o.entries vars label = .ok es) :
    ∃ es', o'.entries vars label = .ok es' ∧ GivenEntries vars es es' ∧
      (place = .field → es' = es ∨ isLeafGroup es = false ∧ isLeafGroup es' = false) := by
  -- Only a variable changes what is there; the others change what is below.
  cases h with
  | kept => exact ⟨es, read, .refl es, fun _ => .inl rfl⟩
  | bound place value found =>
    rw [Operand.entries_variable found, Operand.ofJson_resolve o inline value]
    exact ⟨es, read, .refl es, fun _ => .inl rfl⟩
  | criteria entries =>
    cases read
    exact ⟨_, rfl, entries, fun h => nomatch h⟩
  | operands => cases read
  | separate entries =>
    cases read
    exact ⟨_, rfl, entries, fun h => nomatch h⟩
  | association entries apart still =>
    cases read
    exact ⟨_, rfl, entries, fun _ => .inr ⟨apart, still⟩⟩

/-- The members of an inline operand are inline. -/
theorem inline_of_entries (inline : o.Inline) (read : o.entries vars label = .ok es) :
    (Operand.object es).Inline := by
  cases o with
  | «variable» name => exact inline.elim
  | constant value => cases read
  | list items => cases read
  | object entries =>
    cases read
    exact inline

theorem inline_singleton {e : String × Operand} (inline : e.2.Inline) :
    (Operand.object [e]).Inline :=
  ⟨List.nodup_singleton _, inline, trivial⟩

/-! ### Operands of combinators -/

/-- A combinator reads a variable as it reads its value. -/
theorem groupOperands_variable {name : String} {j : Json}
    (found : Keyed.find? vars name = some j) (combinator : String) :
    groupOperands vars path combinator (.variable name) =
      groupOperands vars path combinator (Operand.ofJson j) := by
  simp only [groupOperands]
  rw [Operand.items?_variable found, Operand.entries_variable found]

/-- One object is as many criteria as it has entries. -/
theorem GivenEntries.separately (h : GivenEntries vars es es') :
    List.Forall₂ (Given vars .criteria) (es.map fun e => .object [e])
      (es'.map fun e => .object [e]) := by
  induction es generalizing es' with
  | nil =>
    cases h
    exact .nil
  | cons e es ih =>
    cases h with
    | cons here rest => exact .cons (.criteria (.cons here .nil)) (ih rest)

/-- The operands of a combinator are the items of a list, or the members of an
object one by one. -/
theorem groupOperands_eq_ok {combinator : String} {os : List Operand} :
    groupOperands vars path combinator o = .ok os ↔ os.isEmpty = false ∧
      (o.items? vars = .ok (some os) ∨ o.items? vars = .ok none ∧
        ∃ es, o.entries vars (context path) = .ok es ∧ os = es.map fun e => .object [e]) := by
  -- Operands in a list and members one by one are both refused if there are none.
  have whole : ∀ operands : List Operand,
      (do
        if operands.isEmpty then
          throw (.invalidValue (context path) (combinator ++ " requires at least one operand"))
        return operands : Except PlanError (List Operand)) = .ok os ↔
      os.isEmpty = false ∧ os = operands := by
    intro operands
    cases operands with
    | nil =>
      constructor
      · intro h
        cases h
      · rintro ⟨some, rfl⟩
        cases some
    | cons o os' =>
      constructor
      · intro h
        cases h
        exact ⟨rfl, rfl⟩
      · rintro ⟨-, rfl⟩
        rfl
  simp only [groupOperands]
  cases items : o.items? vars with
  | error fault =>
    constructor
    · intro h
      cases h
    · rintro ⟨-, h | ⟨h, -⟩⟩ <;> cases h
  | ok found =>
    rw [Outcome.ok_bind]
    cases found with
    | some listed =>
      refine (whole listed).trans (and_congr_right fun _ => ⟨?_, ?_⟩)
      · rintro rfl
        exact .inl rfl
      · rintro (h | ⟨h, -⟩)
        · cases h
          rfl
        · cases h
    | none =>
      cases read : o.entries vars (context path) with
      | error fault =>
        constructor
        · intro h
          cases h
        · rintro ⟨-, h | ⟨-, es, h, -⟩⟩ <;> cases h
      | ok es =>
        refine (whole (es.map fun e => .object [e])).trans (and_congr_right fun _ => ⟨?_, ?_⟩)
        · rintro rfl
          exact .inr ⟨rfl, es, rfl, rfl⟩
        · rintro (h | ⟨-, es, h, rfl⟩)
          · cases h
          · cases h
            rfl

/-- The operands of a combinator, given otherwise. -/
theorem Given.groupOperands (h : Given vars .group o o') (inline : o.Inline)
    {combinator : String} {os : List Operand}
    (read : Criteria.groupOperands vars path combinator o = .ok os) :
    ∃ os', Criteria.groupOperands vars path combinator o' = .ok os' ∧
      List.Forall₂ (Given vars .criteria) os os' := by
  have same : List.Forall₂ (Given vars .criteria) os os :=
    List.forall₂_same.2 fun operand _ => .kept _ operand
  cases h with
  | kept => exact ⟨os, read, same⟩
  | bound place value found =>
    rw [groupOperands_variable found, Operand.ofJson_resolve o inline value]
    exact ⟨os, read, same⟩
  | @operands listed listed' each =>
    -- A list stays a list, and an object an object.
    obtain ⟨some, h | ⟨h, -⟩⟩ := groupOperands_eq_ok.1 read
    · cases h
      refine ⟨listed', groupOperands_eq_ok.2 ⟨?_, .inl rfl⟩, each⟩
      cases each with
      | nil => cases some
      | cons => rfl
    · cases h
  | @separate es es' entries =>
    obtain ⟨some, h | ⟨-, es, h, rfl⟩⟩ := groupOperands_eq_ok.1 read
    · cases h
    · cases h
      refine ⟨_, groupOperands_eq_ok.2 ⟨?_, .inr ⟨rfl, es', rfl, rfl⟩⟩, entries.separately⟩
      rw [List.isEmpty_map] at some ⊢
      rw [entries.isEmpty, some]

/-- The operands of an inline group are inline. -/
theorem inline_groupOperands (inline : o.Inline) {combinator : String} {os : List Operand}
    (read : groupOperands vars path combinator o = .ok os) : ∀ operand ∈ os, operand.Inline := by
  obtain ⟨-, h | ⟨-, es, h, rfl⟩⟩ := groupOperands_eq_ok.1 read
  · cases o with
    | «variable» name => exact inline.elim
    | constant value => cases h
    | list items =>
      cases h
      exact inline.mem
    | object entries => cases h
  · have inline := inline_of_entries inline h
    intro operand hm
    obtain ⟨e, he, rfl⟩ := List.mem_map.1 hm
    exact inline_singleton (inline.2.mem e he)

/-! ### Reading -/

/-- Reading criteria that are also given otherwise gives the same filters. -/
def ReadsSame (vars : Variables)
    (inner : List String → Operand → Except PlanError Filter) : Prop :=
  ∀ {path o o' f}, Given vars .criteria o o' → o.Inline → inner path o = .ok f →
    inner path o' = .ok f

variable {inner : List String → Operand → Except PlanError Filter}

/-- Operands are read like those given for them, one by one. -/
theorem ReadsSame.mapM (same : ReadsSame vars inner) {os os' : List Operand}
    (each : List.Forall₂ (Given vars .criteria) os os') (inline : ∀ o ∈ os, o.Inline)
    {fs : List Filter} (read : os.mapM (inner path) = .ok fs) :
    os'.mapM (inner path) = .ok fs := by
  induction each generalizing fs with
  | nil => exact read
  | cons here rest ih =>
    obtain ⟨first, others⟩ := List.forall_mem_cons.1 inline
    rw [List.mapM_cons] at read ⊢
    obtain ⟨f, one, read⟩ := Outcome.bind_eq_ok.1 read
    obtain ⟨fs, more, read⟩ := Outcome.bind_eq_ok.1 read
    rw [same here first one, Outcome.ok_bind, ih others more]
    exact read

/-- The operands of a combinator, given otherwise, are read the same. -/
theorem ReadsSame.operands (same : ReadsSame vars inner) (h : Given vars .group o o')
    (inline : o.Inline) {combinator : String} {next : List Filter → Except PlanError (List Filter)}
    {fs : List Filter}
    (read : (groupOperands vars path combinator o >>= fun os =>
      os.mapM (inner path) >>= next) = .ok fs) :
    (groupOperands vars path combinator o' >>= fun os => os.mapM (inner path) >>= next) =
      .ok fs := by
  obtain ⟨os, operands, read⟩ := Outcome.bind_eq_ok.1 read
  obtain ⟨gs, each, read⟩ := Outcome.bind_eq_ok.1 read
  obtain ⟨os', operands', given⟩ := h.groupOperands inline operands
  rw [operands', Outcome.ok_bind, same.mapM given (inline_groupOperands inline operands) each]
  exact read

/-- One entry, given otherwise, is read the same. -/
theorem ReadsSame.readEntry (same : ReadsSame vars inner) (h : Given vars (Place.of key) o o')
    (inline : o.Inline) {fs : List Filter}
    (read : Criteria.readEntry vars inner path key o = .ok fs) :
    Criteria.readEntry vars inner path key o' = .ok fs := by
  simp only [Criteria.readEntry] at read ⊢
  by_cases and : key = "AND"
  · rw [if_pos and] at read ⊢
    rw [Place.of, if_pos (.inl and)] at h
    exact same.operands h inline read
  rw [if_neg and] at read ⊢
  by_cases or : key = "OR"
  · rw [if_pos or] at read ⊢
    rw [Place.of, if_pos (.inr or)] at h
    exact same.operands h inline read
  rw [if_neg or] at read ⊢
  rw [Place.of, if_neg (by simp [and, or])] at h
  by_cases not : key = "NOT"
  · rw [if_pos not] at read ⊢ h
    obtain ⟨f, one, read⟩ := Outcome.bind_eq_ok.1 read
    rw [same h inline one]
    exact read
  rw [if_neg not] at read ⊢ h
  -- The value of a field: the operators of a group stay as they are.
  obtain ⟨es, entries, read⟩ := Outcome.bind_eq_ok.1 read
  obtain ⟨es', entries', given, field⟩ := h.objectEntries inline entries
  rw [entries', Outcome.ok_bind]
  rcases field rfl with rfl | ⟨apart, still⟩
  · exact read
  · simp only [apart, Bool.false_eq_true, if_false] at read
    obtain ⟨f, one, read⟩ := Outcome.bind_eq_ok.1 read
    simp only [still, Bool.false_eq_true, if_false]
    rw [same (.criteria given) (inline_of_entries inline entries) one]
    exact read

theorem ReadsSame.readEntries (same : ReadsSame vars inner) (given : GivenEntries vars es es')
    (inline : Operand.EntriesInline es) {fss : List (List Filter)}
    (read : (es.mapM fun (key, o) => Criteria.readEntry vars inner path key o) = .ok fss) :
    (es'.mapM fun (key, o) => Criteria.readEntry vars inner path key o) = .ok fss := by
  induction es generalizing es' fss with
  | nil =>
    cases given
    exact read
  | cons e es ih =>
    cases given with
    | cons here rest =>
      rw [List.mapM_cons] at read ⊢
      obtain ⟨fs, one, read⟩ := Outcome.bind_eq_ok.1 read
      obtain ⟨fss, more, read⟩ := Outcome.bind_eq_ok.1 read
      have one := same.readEntry here inline.1 one
      dsimp only
      rw [one, Outcome.ok_bind, ih rest inline.2 more]
      exact read

/-- Criteria that are also given otherwise are read the same, at any depth. -/
theorem readsSame_readWithin (vars : Variables) (room : Nat) :
    ReadsSame vars (readWithin vars room) := by
  -- Along the depth that is left: without any nothing is read.
  induction room with
  | zero =>
    intro path o o' f given inline read
    cases read
  | succ room ih =>
    intro path o o' f given inline read
    rw [readWithin] at read ⊢
    obtain ⟨es, entries, read⟩ := Outcome.bind_eq_ok.1 read
    obtain ⟨es', entries', given, -⟩ := given.objectEntries inline entries
    rw [entries', Outcome.ok_bind, given.isEmpty]
    cases some : es.isEmpty with
    | true =>
      rw [some] at read
      cases read
    | false =>
      simp only [some, Bool.false_eq_true, if_false] at read ⊢
      obtain ⟨fss, each, read⟩ := Outcome.bind_eq_ok.1 read
      have each' := ih.readEntries given (inline_of_entries inline entries).2 each
      rw [each']
      exact read

/-- The criteria of an argument, given otherwise, are the same filter. -/
theorem Given.read {w w' : Document.Value}
    (h : Given vars .criteria (.ofValue w) (.ofValue w')) (inline : w.Inline)
    {f : Option Filter} (read : Criteria.read vars w = .ok f) :
    Criteria.read vars w' = .ok f := by
  have inline := Operand.inline_ofValue w inline
  simp only [Criteria.read] at read ⊢
  obtain ⟨es, entries, read⟩ := Outcome.bind_eq_ok.1 read
  obtain ⟨es', entries', given, -⟩ := h.objectEntries inline entries
  rw [entries', Outcome.ok_bind, given.isEmpty]
  cases some : es.isEmpty with
  | true =>
    rw [some] at read
    exact read
  | false =>
    simp only [some, Bool.false_eq_true, if_false] at read ⊢
    obtain ⟨f, one, read⟩ := Outcome.bind_eq_ok.1 read
    rw [readsSame_readWithin vars _ h inline one]
    exact read

end Criteria

/-! ### Root fields -/

namespace Planning

open Planner

variable {s : QuerySchema} {vars : Variables} {plan : RootPlan} {label : Option String}
variable {name : String} {others : List (String × Document.Value)}
variable {selection : List Document.Field} {w w' : Document.Value}

/-- A where argument that is not null is read as criteria. -/
theorem filterOf_of_present (present : w ≠ .null) :
    filterOf vars (.mk label name ((whereArgument, w) :: others) selection) =
      Criteria.read vars w := by
  cases w with
  | null => exact absurd rfl present
  | _ => rfl

/-- **Criteria through variables mean the same as criteria in place.**  A root
field that is planned with a literal of criteria is planned with the same
query, and the same filter, if parts of the criteria are given by variables. -/
theorem planRootField_given (inline : w.Inline) (present : w ≠ .null)
    (given : Criteria.Given vars .criteria (.ofValue w) (.ofValue w'))
    (planned : planRootField s vars
      (.mk label name ((whereArgument, w) :: others) selection) = .ok plan) :
    planRootField s vars (.mk label name ((whereArgument, w') :: others) selection) =
      .ok plan := by
  obtain ⟨entity, d, condition, -, run, -⟩ := planRootField_eq_ok planned
  obtain ⟨d₁, -, filtered, -⟩ := gives_planParts.1 run
  rw [filterOf_of_present present] at filtered
  have read := given.read inline filtered
  -- A variable is there, too.
  have present' : w' ≠ .null := by
    rintro rfl
    cases read
  have same : filterOf vars (.mk label name ((whereArgument, w') :: others) selection) =
      filterOf vars (.mk label name ((whereArgument, w) :: others) selection) := by
    rw [filterOf_of_present present, filterOf_of_present present', filtered, read]
  have parts : ∀ entity, planParts s vars entity
        (.mk label name ((whereArgument, w') :: others) selection) =
      planParts s vars entity (.mk label name ((whereArgument, w) :: others) selection) := by
    intro entity
    simp only [planParts]
    rw [same]
    rfl
  have checked : ∀ w, ((whereArgument, w) :: others).find? (·.1 ≠ whereArgument) =
      others.find? (·.1 ≠ whereArgument) := fun w => List.find?_cons_of_neg (by simp)
  simp only [planRootField, Document.Field.name, Document.Field.arguments, checked, parts]
    at planned ⊢
  exact planned

end Planning

/-! ### The small library -/

namespace Sample

/-- A root field that is restricted to criteria. -/
def wherever (root : String) (criteria : Document.Value) : Document.Field :=
  .mk none root [("where", criteria)] [.mk none "select" [] [leaf "id"]]

/-- Authors who write under a mentor, with a field that is written like an
operator. -/
def writer : EntityDescriptor :=
  ⟨"Writer", some "writers", none, "writers", some "id",
    [id.descriptor, (text "ISNI").descriptor,
     ⟨"mentor", "mentor_id", .toOne "Writer" "mentor_id"⟩]⟩

/-- A variable of value null does not stand for null, and criteria of a field
that is written like an operator are not looked for in a variable. -/
theorem not_given :
    (∃ plan, Planning.planRootField schema [("w", .null)] (wherever "books" .null) = .ok plan) ∧
    Planning.planRootField schema [("w", .null)] (wherever "books" (.variable "w")) =
      .error (.invalidValue "where" "expected an input object") ∧
    ∃ s, QuerySchema.build "writers" [writer] .empty = .ok s ∧
      (∃ plan, Planning.planRootField s [("w", .object [("EQ", .string "x")])]
        (wherever "writers" (.object [("mentor",
          .object [("ISNI", .object [("EQ", .string "x")])])])) = .ok plan) ∧
      Planning.planRootField s [("w", .object [("EQ", .string "x")])]
        (wherever "writers" (.object [("mentor", .object [("ISNI", .variable "w")])])) =
          .error (.unsupportedOperator "mentor" "ISNI" "Writer") :=
  ⟨⟨_, rfl⟩, rfl, _, rfl, ⟨_, rfl⟩, rfl⟩

/-- The title is `x`, or the name of the author begins with `y`. -/
def eitherOf : Document.Value :=
  .object [("OR", .list [.object [("title", .object [("EQ", .string "x")])],
    .object [("author", .object [("name", .object [("LIKE", .string "y%")])])]])]

/-- The same, with variables for one operand and for the author in the
other. -/
def eitherGiven : Document.Value :=
  .object [("OR", .list [.variable "t", .object [("author", .variable "a")]])]

/-- Their values. -/
def parts : Variables :=
  [("t", .object [("title", .object [("EQ", .string "x")])]),
    ("a", .object [("name", .object [("LIKE", .string "y%")])])]

end Sample

/-- In the library a disjunction is planned the same with its parts in
variables. -/
theorem planRootField_given_library :
    ∃ plan, Planning.planRootField Sample.schema Sample.parts
        (Sample.wherever "books" Sample.eitherOf) = .ok plan ∧
      Planning.planRootField Sample.schema Sample.parts
        (Sample.wherever "books" Sample.eitherGiven) = .ok plan := by
  have planned : Planning.planRootField Sample.schema Sample.parts
    (Sample.wherever "books" Sample.eitherOf) = .ok _ := rfl
  have inline : Sample.eitherOf.Inline := by
    simp [Sample.eitherOf, Document.Value.Inline, Document.Value.AllInline,
      Document.Value.EntriesInline]
  have present : Sample.eitherOf ≠ .null := by
    intro h
    cases h
  have title : Criteria.Given Sample.parts .criteria
      (.ofValue (.object [("title", .object [("EQ", .string "x")])])) (.variable "t") :=
    .bound .criteria rfl rfl
  have author : Criteria.Given Sample.parts .criteria
      (.ofValue (.object [("author", .object [("name", .object [("LIKE", .string "y%")])])]))
      (.object [("author", .variable "a")]) :=
    .criteria (.cons (.bound _ rfl rfl) .nil)
  have given : Criteria.Given Sample.parts .criteria (.ofValue Sample.eitherOf)
      (.ofValue Sample.eitherGiven) :=
    .criteria (.cons (.operands (.cons title (.cons author .nil))) .nil)
  exact ⟨_, planned, Planning.planRootField_given inline present given planned⟩

end EntityQuery
