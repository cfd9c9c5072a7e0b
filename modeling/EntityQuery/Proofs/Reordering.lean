/-
EntityQuery/Proofs/Reordering.lean

Criteria in another order.

The entries of criteria may be written in any order, at any depth, and so may
the operands of `AND` and `OR` (`Criteria.Reordered`).  What is inside the
operators of a field is no criteria and stays as it is.

Reading criteria in another order succeeds or fails alike, and the filter has
the same sense (`Filter.SameSense`): the same leaves in some order, and the
same truth value whatever the leaves are worth, since conjunction and
disjunction do not look at the order of their operands
(`Criteria.Reordered.readsAlike`).
-/
import EntityQuery.Proofs.Indirection

namespace EntityQuery

/-! ### Computations that fail alike -/

namespace Outcome

variable {ε α β γ : Type}

/-- Both computations succeed with related outcomes, or both fail. -/
inductive Agree (R : α → β → Prop) : Except ε α → Except ε β → Prop
  | ok {a : α} {b : β} (related : R a b) : Agree R (.ok a) (.ok b)
  | error (e e' : ε) : Agree R (.error e) (.error e')

theorem Agree.refl {R : α → α → Prop} (h : ∀ a, R a a) (x : Except ε α) : Agree R x x := by
  cases x with
  | error e => exact .error e e
  | ok a => exact .ok (h a)

theorem Agree.symm {R : α → β → Prop} {S : β → α → Prop} (h : ∀ {a b}, R a b → S b a)
    {x : Except ε α} {y : Except ε β} (agree : Agree R x y) : Agree S y x := by
  cases agree with
  | ok related => exact .ok (h related)
  | error e e' => exact .error e' e

theorem Agree.trans {R : α → β → Prop} {S : β → γ → Prop} {T : α → γ → Prop}
    (h : ∀ {a b c}, R a b → S b c → T a c) {x : Except ε α} {y : Except ε β} {z : Except ε γ}
    (first : Agree R x y) (second : Agree S y z) : Agree T x z := by
  cases first with
  | ok related =>
    cases second with
    | ok related' => exact .ok (h related related')
  | error e e' =>
    cases second with
    | error _ e'' => exact .error e e''

/-- Where one of two outcomes that agree is a success, so is the other. -/
theorem Agree.of_ok {R : α → β → Prop} {x : Except ε α} {y : Except ε β} {a : α}
    (agree : Agree R x y) (h : x = .ok a) : ∃ b, y = .ok b ∧ R a b := by
  cases agree with
  | @ok a' b related =>
    cases h
    exact ⟨b, rfl, related⟩
  | error e e' => cases h

/-- Sequences agree if their parts do. -/
theorem Agree.bind {α' β' : Type} {R : α → β → Prop} {S : α' → β' → Prop} {x : Except ε α}
    {y : Except ε β} {f : α → Except ε α'} {g : β → Except ε β'} (agree : Agree R x y)
    (h : ∀ {a b}, R a b → Agree S (f a) (g b)) : Agree S (x >>= f) (y >>= g) := by
  cases agree with
  | ok related => exact h related
  | error e e' => exact .error e e'

theorem Agree.map {α' β' : Type} {R : α → β → Prop} {S : α' → β' → Prop} {x : Except ε α}
    {y : Except ε β} {f : α → α'} {g : β → β'} (agree : Agree R x y)
    (h : ∀ {a b}, R a b → S (f a) (g b)) : Agree S (x.map f) (y.map g) := by
  cases agree with
  | ok related => exact .ok (h related)
  | error e e' => exact .error e e'

end Outcome

/-! ### Filters of one sense -/

namespace Truth

/-- The order in which truths are joined does not matter. -/
theorem all_perm {ts us : List Truth} (h : ts.Perm us) : all ts = all us := by
  induction h with
  | nil => rfl
  | cons t _ ih => exact congrArg (min t) ih
  | swap t u ts => exact min_left_comm u t (all ts)
  | trans _ _ ih ih' => exact ih.trans ih'

theorem any_perm {ts us : List Truth} (h : ts.Perm us) : any ts = any us := by
  induction h with
  | nil => rfl
  | cons t _ ih => exact congrArg (max t) ih
  | swap t u ts => exact max_left_comm u t (any ts)
  | trans _ _ ih ih' => exact ih.trans ih'

end Truth

namespace Filter

/-- The filters have the same leaves, in some order, and the same truth value
whatever the leaves are worth. -/
structure SameSense (f g : Filter) : Prop where
  leaves : f.leaves.Perm g.leaves
  truth : ∀ value, f.truth value = g.truth value

/-- The same of two lists of filters, which may be in different orders. -/
structure SameSenses (fs gs : List Filter) : Prop where
  leaves : (leavesOf fs).Perm (leavesOf gs)
  truths : ∀ value, (truths value fs).Perm (truths value gs)

theorem SameSense.refl (f : Filter) : f.SameSense f := ⟨.refl _, fun _ => rfl⟩

theorem SameSense.symm {f g : Filter} (h : f.SameSense g) : g.SameSense f :=
  ⟨h.leaves.symm, fun value => (h.truth value).symm⟩

theorem SameSense.trans {f g k : Filter} (h : f.SameSense g) (h' : g.SameSense k) :
    f.SameSense k :=
  ⟨h.leaves.trans h'.leaves, fun value => (h.truth value).trans (h'.truth value)⟩

namespace SameSenses

variable {fs gs ks ls : List Filter}

/-- Filters in another order have the same senses. -/
theorem of_perm (h : fs.Perm gs) : SameSenses fs gs := by
  constructor
  · rw [leavesOf_eq_flatMap, leavesOf_eq_flatMap]
    exact h.flatMap_right _
  · intro value
    rw [truths_eq_map, truths_eq_map]
    exact h.map _

theorem refl (fs : List Filter) : SameSenses fs fs := of_perm (.refl fs)

theorem symm (h : SameSenses fs gs) : SameSenses gs fs :=
  ⟨h.leaves.symm, fun value => (h.truths value).symm⟩

theorem trans (h : SameSenses fs gs) (h' : SameSenses gs ks) : SameSenses fs ks :=
  ⟨h.leaves.trans h'.leaves, fun value => (h.truths value).trans (h'.truths value)⟩

theorem append (h : SameSenses fs gs) (h' : SameSenses ks ls) :
    SameSenses (fs ++ ks) (gs ++ ls) := by
  constructor
  · simp only [leavesOf_eq_flatMap, List.flatMap_append]
    rw [← leavesOf_eq_flatMap, ← leavesOf_eq_flatMap, ← leavesOf_eq_flatMap,
      ← leavesOf_eq_flatMap]
    exact h.leaves.append h'.leaves
  · intro value
    simp only [truths_eq_map, List.map_append]
    rw [← truths_eq_map, ← truths_eq_map, ← truths_eq_map, ← truths_eq_map]
    exact (h.truths value).append (h'.truths value)

theorem singleton {f g : Filter} (h : f.SameSense g) : SameSenses [f] [g] := by
  constructor
  · simpa [leavesOf] using h.leaves
  · intro value
    rw [Filter.truths, Filter.truths, h.truth value]
    exact .refl _

theorem and (h : SameSenses fs gs) : (Filter.and fs).SameSense (.and gs) :=
  ⟨h.leaves, fun value => Truth.all_perm (h.truths value)⟩

theorem or (h : SameSenses fs gs) : (Filter.or fs).SameSense (.or gs) :=
  ⟨h.leaves, fun value => Truth.any_perm (h.truths value)⟩

/-- A filter that stands for itself has the sense of the conjunction of it
alone. -/
theorem allOf_and (fs : List Filter) : (Filter.allOf fs).SameSense (.and fs) := by
  unfold Filter.allOf
  split
  · next f =>
    refine ⟨?_, fun value => (Truth.all_singleton _).symm⟩
    rw [Filter.leaves, leavesOf, leavesOf, List.append_nil]
  · exact .refl _

/-- Joining filters of the same senses makes filters of the same sense. -/
theorem allOf (h : SameSenses fs gs) : (Filter.allOf fs).SameSense (Filter.allOf gs) :=
  (allOf_and fs).trans (h.and.trans (allOf_and gs).symm)

end SameSenses

theorem SameSense.not {f g : Filter} (h : f.SameSense g) : (Filter.not f).SameSense (.not g) :=
  ⟨h.leaves, fun value => congrArg Truth.negate (h.truth value)⟩

end Filter

namespace Criteria

open Outcome EntityQuery.Filter

/-! ### Reading in any order -/

/-- The filters that are read from the elements of a list, one after
another. -/
def collect {α : Type} (reader : α → Except PlanError (List Filter)) (xs : List α) :
    Except PlanError (List Filter) :=
  (xs.mapM reader).map List.flatten

section Collect

variable {α : Type} {reader : α → Except PlanError (List Filter)}

theorem collect_cons (x : α) (xs : List α) :
    collect reader (x :: xs) = (do return (← reader x) ++ (← collect reader xs)) := by
  simp only [collect]
  rw [List.mapM_cons]
  cases reader x with
  | error e => rfl
  | ok fs => cases xs.mapM reader <;> rfl

/-- Reading operands one by one is collecting a filter for each. -/
theorem mapM_eq_collect (inner : α → Except PlanError Filter) (xs : List α) :
    xs.mapM inner = collect (fun x => (inner x).map ([·])) xs := by
  induction xs with
  | nil => rfl
  | cons x xs ih =>
    rw [collect_cons, List.mapM_cons, ← ih]
    cases inner x with
    | error e => rfl
    | ok f => cases xs.mapM inner <;> rfl

/-- Collecting agrees if it does at the first element and at the others. -/
theorem agree_collect_cons {x y : α} {xs ys : List α}
    (here : Agree SameSenses (reader x) (reader y))
    (rest : Agree SameSenses (collect reader xs) (collect reader ys)) :
    Agree SameSenses (collect reader (x :: xs)) (collect reader (y :: ys)) := by
  rw [collect_cons, collect_cons]
  refine here.bind fun same => rest.bind fun sames => ?_
  exact .ok (same.append sames)

/-- The order of the elements does not matter. -/
theorem agree_collect_perm {xs ys : List α} (h : xs.Perm ys) :
    Agree SameSenses (collect reader xs) (collect reader ys) := by
  induction h with
  | nil => exact .refl .refl _
  | cons x _ ih => exact agree_collect_cons (.refl .refl _) ih
  | swap x y xs =>
    rw [collect_cons, collect_cons, collect_cons, collect_cons]
    cases reader x with
    | error e => cases reader y <;> exact .error _ _
    | ok fs =>
      cases reader y with
      | error e => exact .error _ _
      | ok gs =>
        cases collect reader xs with
        | error e => exact .error _ _
        | ok ks =>
          -- The first two lists of filters change places.
          have swapped := List.perm_append_comm_assoc gs fs ks
          exact .ok (.of_perm swapped)
  | trans _ _ ih ih' => exact ih.trans .trans ih'

/-- One element is replaced by one that is read alike. -/
theorem agree_collect_replace (before after : List α) {x y : α}
    (h : Agree SameSenses (reader x) (reader y)) :
    Agree SameSenses (collect reader (before ++ x :: after))
      (collect reader (before ++ y :: after)) := by
  induction before with
  | nil => exact agree_collect_cons h (.refl .refl _)
  | cons z before ih => exact agree_collect_cons (.refl .refl _) ih

end Collect

/-! ### Criteria in another order -/

/-- What is written in a place is the same but for the order of entries of
criteria and of operands of groups. -/
inductive Reordered (vars : Variables) : Place → Operand → Operand → Prop
  | refl (place : Place) (o : Operand) : Reordered vars place o o
  | symm {place : Place} {o o' : Operand} : Reordered vars place o o' → Reordered vars place o' o
  | trans {place : Place} {o o' o'' : Operand} :
      Reordered vars place o o' → Reordered vars place o' o'' → Reordered vars place o o''
  /-- The entries of criteria, of a group or of a field in another order. -/
  | entries (place : Place) {es es' : List (String × Operand)} (perm : es.Perm es') :
      Reordered vars place (.object es) (.object es')
  /-- The operands of a group in another order. -/
  | operands {os os' : List Operand} (perm : os.Perm os') :
      Reordered vars .group (.list os) (.list os')
  /-- Another order inside one entry; the operators of a field have no
  criteria inside. -/
  | entry {place : Place} (before after : List (String × Operand)) {key : String}
      {o o' : Operand} (inner : Reordered vars (Place.of key) o o')
      (apart : place = .field → isLeafGroup (before ++ (key, o) :: after) = false) :
      Reordered vars place (.object (before ++ (key, o) :: after))
        (.object (before ++ (key, o') :: after))
  /-- Another order inside one operand of a group. -/
  | operand (before after : List Operand) {o o' : Operand}
      (inner : Reordered vars .criteria o o') :
      Reordered vars .group (.list (before ++ o :: after)) (.list (before ++ o' :: after))
  /-- Variables whose values differ in their order. -/
  | given {place : Place} {name name' : String} {j j' : Json}
      (found : Keyed.find? vars name = some j) (found' : Keyed.find? vars name' = some j')
      (inner : Reordered vars place (Operand.ofJson j) (Operand.ofJson j')) :
      Reordered vars place (.variable name) (.variable name')

variable {vars : Variables} {place : Place} {o o' : Operand} {es es' : List (String × Operand)}

/-! ### Stages of reading -/

/-- The filters of the operands of a group. -/
def readOperands (vars : Variables) (inner : List String → Operand → Except PlanError Filter)
    (path : List String) (combinator : String) (o : Operand) : Except PlanError (List Filter) :=
  groupOperands vars path combinator o >>= fun os => os.mapM (inner path)

/-- The filters of the value of a field: leaves for its operators, or the
criteria of the entity it leads to. -/
def readValue (vars : Variables) (inner : List String → Operand → Except PlanError Filter)
    (below : List String) (o : Operand) : Except PlanError (List Filter) := do
  let entries ← o.entries vars (context below)
  if isLeafGroup entries then
    return entries.map fun (operator, operand) => .leaf ⟨below, operator, operand⟩
  else
    return [← inner below (.object entries)]

variable {inner : List String → Operand → Except PlanError Filter} {path : List String}

/-- What an entry is read as depends on its key. -/
theorem readEntry_eq (key : String) (o : Operand) :
    readEntry vars inner path key o =
      if key = "AND" then (readOperands vars inner path key o).map fun fs => [.and fs]
      else if key = "OR" then (readOperands vars inner path key o).map fun fs => [.or fs]
      else if key = "NOT" then (inner path o).map fun f => [.not f]
      else readValue vars inner (path ++ [key]) o := by
  simp only [readEntry, readOperands]
  split
  · cases groupOperands vars path key o with
    | error e => rfl
    | ok os => cases os.mapM (inner path) with
      | error e => rfl
      | ok fs => rfl
  split
  · cases groupOperands vars path key o with
    | error e => rfl
    | ok os => cases os.mapM (inner path) with
      | error e => rfl
      | ok fs => rfl
  split
  · cases inner path o <;> rfl
  · rfl

/-- An object is read entry by entry, and refused without any. -/
theorem readWithin_object (room : Nat) (path : List String) (es : List (String × Operand)) :
    readWithin vars (room + 1) path (.object es) =
      if es.isEmpty then
        .error (.invalidValue (context path) "criteria must name at least one field or operator")
      else (collect (fun e => readEntry vars (readWithin vars room) path e.1 e.2) es).map
        Filter.allOf := by
  simp only [readWithin, Operand.entries, Outcome.ok_bind]
  split
  · rfl
  · simp only [collect]
    cases es.mapM fun e => readEntry vars (readWithin vars room) path e.1 e.2 <;> rfl

/-- A list of operands is read one by one, and refused without any. -/
theorem readOperands_list (combinator : String) (os : List Operand) :
    readOperands vars inner path combinator (.list os) =
      if os.isEmpty then
        .error (.invalidValue (context path) (combinator ++ " requires at least one operand"))
      else os.mapM (inner path) := by
  simp only [readOperands, groupOperands, Operand.items?, Outcome.ok_bind]
  cases os <;> rfl

/-- Members of an object are read as a list of objects with one member each. -/
theorem readOperands_object (combinator : String) (es : List (String × Operand)) :
    readOperands vars inner path combinator (.object es) =
      readOperands vars inner path combinator (.list (es.map fun e => .object [e])) := by
  rw [readOperands_list]
  simp only [readOperands, groupOperands, Operand.items?, Operand.entries, Outcome.ok_bind]
  cases es <;> rfl

/-! ### What is read alike -/

/-- Neither of two lists of entries is empty, or both are. -/
def EmptyAlike (es es' : List (String × Operand)) : Prop := es.isEmpty = es'.isEmpty

theorem EmptyAlike.refl (es : List (String × Operand)) : EmptyAlike es es := rfl

theorem EmptyAlike.symm (h : EmptyAlike es es') : EmptyAlike es' es := Eq.symm h

theorem EmptyAlike.trans {es'' : List (String × Operand)} (h : EmptyAlike es es')
    (h' : EmptyAlike es' es'') : EmptyAlike es es'' := Eq.trans h h'

/-- What is written in a place is read with the same sense, or fails to be
read, in both forms. -/
structure ReadsAlike (vars : Variables) (place : Place) (o o' : Operand) : Prop where
  object : isObject o = isObject o'
  entries : ∀ context, Agree EmptyAlike (o.entries vars context) (o'.entries vars context)
  criteria : place = .criteria → ∀ room path,
    Agree SameSense (readWithin vars room path o) (readWithin vars room path o')
  operands : place = .group → ∀ room path combinator,
    Agree SameSenses (readOperands vars (readWithin vars room) path combinator o)
      (readOperands vars (readWithin vars room) path combinator o')
  values : place = .field → ∀ room below,
    Agree SameSenses (readValue vars (readWithin vars room) below o)
      (readValue vars (readWithin vars room) below o')

theorem ReadsAlike.refl (place : Place) (o : Operand) : ReadsAlike vars place o o where
  object := rfl
  entries _ := .refl .refl _
  criteria _ _ _ := .refl .refl _
  operands _ _ _ _ := .refl .refl _
  values _ _ _ := .refl .refl _

theorem ReadsAlike.symm (h : ReadsAlike vars place o o') : ReadsAlike vars place o' o where
  object := h.object.symm
  entries context := (h.entries context).symm .symm
  criteria e room path := (h.criteria e room path).symm .symm
  operands e room path combinator := (h.operands e room path combinator).symm .symm
  values e room below := (h.values e room below).symm .symm

theorem ReadsAlike.trans {o'' : Operand} (h : ReadsAlike vars place o o')
    (h' : ReadsAlike vars place o' o'') : ReadsAlike vars place o o'' where
  object := h.object.trans h'.object
  entries context := (h.entries context).trans .trans (h'.entries context)
  criteria e room path := (h.criteria e room path).trans .trans (h'.criteria e room path)
  operands e room path combinator :=
    (h.operands e room path combinator).trans .trans (h'.operands e room path combinator)
  values e room below := (h.values e room below).trans .trans (h'.values e room below)

/-- An entry whose value is read alike is read alike. -/
theorem ReadsAlike.entry {key : String} (h : ReadsAlike vars (Place.of key) o o') (room : Nat)
    (path : List String) :
    Agree SameSenses (readEntry vars (readWithin vars room) path key o)
      (readEntry vars (readWithin vars room) path key o') := by
  rw [readEntry_eq, readEntry_eq]
  -- The key decides in which place the operands stand.
  by_cases and : key = "AND"
  · have place : Place.of key = .group := by simp [Place.of, and]
    rw [if_pos and, if_pos and]
    exact (h.operands place room path key).map fun same => .singleton same.and
  by_cases or : key = "OR"
  · have place : Place.of key = .group := by simp [Place.of, or]
    rw [if_neg and, if_neg and, if_pos or, if_pos or]
    exact (h.operands place room path key).map fun same => .singleton same.or
  by_cases not : key = "NOT"
  · have place : Place.of key = .criteria := by simp [Place.of, not]
    rw [if_neg and, if_neg and, if_neg or, if_neg or, if_pos not, if_pos not]
    exact (h.criteria place room path).map fun same => .singleton same.not
  · have place : Place.of key = .field := by simp [Place.of, and, or, not]
    rw [if_neg and, if_neg and, if_neg or, if_neg or, if_neg not, if_neg not]
    exact h.values place room (path ++ [key])

/-- Entries of an object are read alike, one by one in some order. -/
structure EntriesAlike (vars : Variables) (place : Place) (es es' : List (String × Operand)) :
    Prop where
  isEmpty : es.isEmpty = es'.isEmpty
  group : place = .field → isLeafGroup es = isLeafGroup es' ∧
    (isLeafGroup es = true → es.Perm es')
  each : ∀ reader : String × Operand → Except PlanError (List Filter),
    (∀ key o o', ReadsAlike vars (Place.of key) o o' →
      Agree SameSenses (reader (key, o)) (reader (key, o'))) →
    Agree SameSenses (collect reader es) (collect reader es')

/-- Whether entries are operators does not depend on their order. -/
theorem isLeafGroup_perm (h : es.Perm es') : isLeafGroup es = isLeafGroup es' := by
  simp only [isLeafGroup]
  rw [h.isEmpty_eq, h.all_eq]

theorem isLeafGroup_replace (before after : List (String × Operand)) {key : String}
    (h : isObject o = isObject o') :
    isLeafGroup (before ++ (key, o) :: after) = isLeafGroup (before ++ (key, o') :: after) := by
  simp only [isLeafGroup, List.all_append, List.all_cons]
  rw [h]
  cases before <;> rfl

/-- The entries of an object in another order. -/
theorem entriesAlike_of_perm (place : Place) (h : es.Perm es') :
    EntriesAlike vars place es es' where
  isEmpty := h.isEmpty_eq
  group _ := ⟨isLeafGroup_perm h, fun _ => h⟩
  each _ _ := agree_collect_perm h

/-- An object with another value in one entry. -/
theorem entriesAlike_replace (before after : List (String × Operand)) {key : String}
    (h : ReadsAlike vars (Place.of key) o o')
    (apart : place = .field → isLeafGroup (before ++ (key, o) :: after) = false) :
    EntriesAlike vars place (before ++ (key, o) :: after) (before ++ (key, o') :: after) where
  isEmpty := by cases before <;> rfl
  group field := by
    refine ⟨isLeafGroup_replace before after h.object, fun operators => ?_⟩
    rw [apart field] at operators
    cases operators
  each _ alike := agree_collect_replace before after (alike key o o' h)

namespace EntriesAlike

/-- Entries alike are read as filters of the same sense, or refused both. -/
theorem readWithin (h : EntriesAlike vars place es es') (room : Nat) (path : List String) :
    Agree SameSense (readWithin vars room path (.object es))
      (readWithin vars room path (.object es')) := by
  cases room with
  | zero => exact .error _ _
  | succ room =>
    rw [readWithin_object, readWithin_object, h.isEmpty]
    split
    · exact .error _ _
    · exact (h.each _ fun key o o' alike => alike.entry room path).map fun same => same.allOf

/-- The operands that the entries of a group are, each alone. -/
theorem mapM_alone (h : EntriesAlike vars place es es') (room : Nat) (path : List String) :
    Agree SameSenses ((es.map fun e => .object [e]).mapM (Criteria.readWithin vars room path))
      ((es'.map fun e => .object [e]).mapM (Criteria.readWithin vars room path)) := by
  rw [Outcome.mapM_map, Outcome.mapM_map, mapM_eq_collect, mapM_eq_collect]
  refine h.each _ fun key o o' alike => ?_
  have alone : EntriesAlike vars .criteria [(key, o)] [(key, o')] :=
    entriesAlike_replace [] [] alike fun h => nomatch h
  exact (alone.readWithin room path).map fun same => .singleton same

theorem readsAlike (h : EntriesAlike vars place es es') :
    ReadsAlike vars place (.object es) (.object es') where
  object := rfl
  entries _ := .ok h.isEmpty
  criteria _ room path := h.readWithin room path
  operands _ room path combinator := by
    rw [readOperands_object, readOperands_object, readOperands_list, readOperands_list,
      List.isEmpty_map, List.isEmpty_map, h.isEmpty]
    split
    · exact .error _ _
    · exact h.mapM_alone room path
  values field room below := by
    -- Operators in another order make leaves in another order, and those are joined by AND.
    obtain ⟨same, perm⟩ := h.group field
    simp only [readValue, Operand.entries, Outcome.ok_bind, ← same]
    split
    · next operators => exact .ok (.of_perm ((perm operators).map _))
    · exact (h.readWithin room below).bind fun same => .ok (.singleton same)

end EntriesAlike

/-- Operands of a group that are read alike. -/
theorem readsAlike_list {os os' : List Operand} (empty : os.isEmpty = os'.isEmpty)
    (each : ∀ room path, Agree SameSenses (os.mapM (readWithin vars room path))
      (os'.mapM (readWithin vars room path))) :
    ReadsAlike vars .group (.list os) (.list os') where
  object := rfl
  entries _ := .error _ _
  criteria h := nomatch h
  operands _ room path combinator := by
    rw [readOperands_list, readOperands_list, empty]
    split
    · exact .error _ _
    · exact each room path
  values h := nomatch h

/-- A variable is read as its value is. -/
theorem readsAlike_variable {name : String} {j : Json} (found : Keyed.find? vars name = some j)
    (room : Nat) (path : List String) (combinator : String) :
    readWithin vars room path (.variable name) = readWithin vars room path (.ofJson j) ∧
    readOperands vars (readWithin vars room) path combinator (.variable name) =
      readOperands vars (readWithin vars room) path combinator (.ofJson j) ∧
    readValue vars (readWithin vars room) path (.variable name) =
      readValue vars (readWithin vars room) path (.ofJson j) := by
  refine ⟨?_, ?_, ?_⟩
  · cases room with
    | zero => rfl
    | succ room => rw [readWithin, readWithin, Operand.entries_variable found]
  · rw [readOperands, readOperands, groupOperands_variable found]
  · rw [readValue, readValue, Operand.entries_variable found]

/-- Variables whose values are read alike. -/
theorem ReadsAlike.given {name name' : String} {j j' : Json}
    (found : Keyed.find? vars name = some j) (found' : Keyed.find? vars name' = some j')
    (h : ReadsAlike vars place (.ofJson j) (.ofJson j')) :
    ReadsAlike vars place (.variable name) (.variable name') where
  object := rfl
  entries context := by
    rw [Operand.entries_variable found, Operand.entries_variable found']
    exact h.entries context
  criteria e room path := by
    rw [(readsAlike_variable found room path "").1,
      (readsAlike_variable found' room path "").1]
    exact h.criteria e room path
  operands e room path combinator := by
    rw [(readsAlike_variable found room path combinator).2.1,
      (readsAlike_variable found' room path combinator).2.1]
    exact h.operands e room path combinator
  values e room below := by
    rw [(readsAlike_variable found room below "").2.2,
      (readsAlike_variable found' room below "").2.2]
    exact h.values e room below

/-- Criteria in another order are read alike. -/
theorem Reordered.readsAlike (h : Reordered vars place o o') : ReadsAlike vars place o o' := by
  -- Each way of reordering, at any depth.
  induction h with
  | refl place o => exact .refl place o
  | symm _ ih => exact ih.symm
  | trans _ _ ih ih' => exact ih.trans ih'
  | entries place perm => exact (entriesAlike_of_perm place perm).readsAlike
  | operands perm =>
    refine readsAlike_list perm.isEmpty_eq fun room path => ?_
    rw [mapM_eq_collect, mapM_eq_collect]
    exact agree_collect_perm perm
  | entry before after _ apart ih => exact (entriesAlike_replace before after ih apart).readsAlike
  | operand before after _ ih =>
    refine readsAlike_list (by cases before <;> rfl) fun room path => ?_
    rw [mapM_eq_collect, mapM_eq_collect]
    exact agree_collect_replace before after ((ih.criteria rfl room path).map .singleton)
  | given found found' _ ih => exact .given found found' ih

/-- The filters of an argument in another order have the same sense. -/
theorem Reordered.read {w w' : Document.Value}
    (h : Reordered vars .criteria (.ofValue w) (.ofValue w')) :
    Agree (Option.Rel SameSense) (Criteria.read vars w) (Criteria.read vars w') := by
  have alike := h.readsAlike
  simp only [Criteria.read]
  refine (alike.entries "where").bind fun {es es'} empty => ?_
  have empty : es.isEmpty = es'.isEmpty := empty
  rw [empty]
  split
  · exact .ok .none
  · exact (alike.criteria rfl _ _).bind fun same => .ok (.some same)

end Criteria

/-! ### Root fields -/

/-- The argument is the same but for the order of criteria.  A null in its
place restricts nothing, and has no criteria to put in another order. -/
def Document.Value.Reordered (vars : Variables) (w w' : Document.Value) : Prop :=
  (w = .null ↔ w' = .null) ∧ Criteria.Reordered vars .criteria (.ofValue w) (.ofValue w')

theorem Document.Value.Reordered.symm {vars : Variables} {w w' : Document.Value}
    (h : w.Reordered vars w') : w'.Reordered vars w :=
  ⟨h.1.symm, h.2.symm⟩

namespace Planning

open Outcome

variable {vars : Variables} {w w' : Document.Value}

/-- A root field with the argument `w` among others. -/
def fieldWhere (label : Option String) (name : String)
    (before after : List (String × Document.Value)) (selection : List Document.Field)
    (w : Document.Value) : Document.Field :=
  .mk label name (before ++ (whereArgument, w) :: after) selection

/-- The filters of a root field have the same sense if its criteria are in
another order. -/
theorem agree_filterOf (h : w.Reordered vars w') (label : Option String) (name : String)
    (before after : List (String × Document.Value)) (selection : List Document.Field) :
    Agree (Option.Rel Filter.SameSense)
      (filterOf vars (fieldWhere label name before after selection w))
      (filterOf vars (fieldWhere label name before after selection w')) := by
  have same : ∀ f : Option Filter, Option.Rel Filter.SameSense f f := by
    intro f
    cases f with
    | none => exact .none
    | some f => exact .some (.refl f)
  have given : ∀ v, (fieldWhere label name before after selection v).argument? whereArgument =
      (before.lookup whereArgument).or (some v) := by
    intro v
    show (before ++ (whereArgument, v) :: after).lookup whereArgument = _
    rw [List.lookup_append, List.lookup_cons_self]
  cases first : before.lookup whereArgument with
  | some v =>
    -- An earlier argument of that name hides this one.
    simp only [filterOf, given, first]
    exact .refl same _
  | none =>
    have read : ∀ v : Document.Value, v ≠ .null →
        filterOf vars (fieldWhere label name before after selection v) = Criteria.read vars v := by
      intro v some
      simp only [filterOf, given, first]
      cases v with
      | null => exact absurd rfl some
      | _ => rfl
    by_cases null : w = .null
    · rw [null, h.1.1 null]
      exact .refl same _
    · rw [read w null, read w' fun null' => null (h.1.2 null')]
      exact h.2.read

end Planning

end EntityQuery
