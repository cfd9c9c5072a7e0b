/-
EntityQuery/Proofs/Apart.lean

The roots of one document have nothing to do with each other.

Executing goes through the roots in order and adds to what there is: a value
and perhaps an error under a key that is new, an error alone under a key that
was answered before.  `Executor.settle` is this one step without the store, and
`Executor.tally` all of the steps.  A store that answers every query in one way
is only told of the queries, so executing in any monad is telling it of the
queries of the tally (`Executor.executeRoots_told`).

What holds of a tally (`Executor.Tallied`) is kept by a step, hence by a run:
under every key there stands what the first root of that key has to say, which
depends on this root and nothing else.  Executing this root alone says the
same (`Executor.execute_apart`).

A store may also have no answer at all.  Telling it of a query is then what may
go wrong, and executing has a result exactly if every query of the tally has an
answer (`Executor.execute_answered`).
-/
import EntityQuery.Proofs.Distinct
import EntityQuery.Proofs.Outcome
import EntityQuery.Proofs.Refusal
import EntityQuery.Proofs.Where
import EntityQuery.Response.Execution

namespace EntityQuery

/-- Whether an error says that a name is used by several roots. -/
def ExecutionError.isRepetition : ExecutionError → Bool
  | .plan (.duplicateResponseKey _) => true
  | _ => false

namespace Executor

variable {m : Type → Type} [Monad m]

/-! ### Stores that answer every query in one way -/

/-- A store that answers every query in one way, with what is done on being
asked. -/
def told (note : Query → m Unit) (reply : Query → Except StoreError (List Row)) : RowSource m :=
  fun q => do
    note q
    return reply q

/-- A store that answers every query in one way and keeps the queries in
order. -/
def recorded (reply : Query → Except StoreError (List Row)) : RowSource (StateM (List Query)) :=
  told (fun q => modify (· ++ [q])) reply

variable (x : Executor) (reply : Query → Except StoreError (List Row)) (vars : Variables)

/-- What a root has for an answer. -/
def outcome (field : Document.Field) : Except ExecutionError Json :=
  match Planning.planRootField x.schema vars field with
  | .error e => .error (.plan e)
  | .ok plan => x.answer plan (reply (x.query plan))

/-- The query of a root that can be planned. -/
def asked? (field : Document.Field) : Option Query :=
  (Planning.planRootField x.schema vars field).toOption.map x.query

theorem executeRoot_told [LawfulMonad m] (note : Query → m Unit) (field : Document.Field) :
    x.executeRoot (told note reply) vars field = do
      (x.asked? vars field).toList.forM note
      return x.outcome reply vars field := by
  unfold executeRoot asked? outcome
  cases Planning.planRootField x.schema vars field with
  | error e => simp [Except.toOption]
  | ok plan => simp [Except.toOption, told]

/-! ### Answers and errors of a root -/

/-- The value under the key of a root: null if it has no answer. -/
def valueOf : Except ExecutionError Json → Json
  | .ok value => value
  | .error _ => .null

/-- The errors under the key of a root. -/
def faultsOf (key : String) : Except ExecutionError Json → List ErrorEntry
  | .ok _ => []
  | .error e => [⟨e, [key]⟩]

/-- The error of a root whose key was answered before. -/
def repetition (key : String) : ErrorEntry := ⟨.plan (.duplicateResponseKey key), [key]⟩

theorem path_of_mem_faultsOf {key : String} {o : Except ExecutionError Json} {e : ErrorEntry}
    (h : e ∈ faultsOf key o) : e.path = [key] := by
  cases o with
  | ok value => cases h
  | error error => rw [List.mem_singleton.1 h]

/-- What a root has for an answer is never null. -/
theorem answer_ne_null {plan : RootPlan} {r : Except StoreError (List Row)} {value : Json}
    (h : x.answer plan r = .ok value) : value ≠ .null := by
  obtain ⟨rows, -, h⟩ := Outcome.bind_eq_ok.1 h
  obtain ⟨-, -, h⟩ := Outcome.bind_eq_ok.1 h
  obtain ⟨objects, -, h⟩ := Outcome.bind_eq_ok.1 h
  cases h
  intro null
  cases null

/-- The value under a key is null exactly if there is an error. -/
theorem valueOf_eq_null {field : Document.Field} {key : String} :
    valueOf (x.outcome reply vars field) = .null ↔
      faultsOf key (x.outcome reply vars field) ≠ [] := by
  cases given : x.outcome reply vars field with
  | error e => simp [valueOf, faultsOf]
  | ok value =>
    have some : value ≠ .null := by
      unfold outcome at given
      split at given
      · cases given
      · exact answer_ne_null x given
    simpa [valueOf, faultsOf] using some

/-- What goes wrong after planning is no error of the plan. -/
theorem refuses_answer (plan : RootPlan) (r : Except StoreError (List Row)) :
    Outcome.Refuses (fun e => ∀ error, e ≠ .plan error) (x.answer plan r) := by
  unfold answer checkRows
  refine Outcome.Refuses.bind ?store fun rows => Outcome.Refuses.bind ?cap fun _ =>
    Outcome.Refuses.bind ?decode fun _ => Outcome.Refuses.ok _
  case store =>
    apply Outcome.Refuses.mapError
    exact fun _ _ => nofun
  case cap =>
    split
    · split
      · exact Outcome.Refuses.error nofun
      · exact Outcome.Refuses.ok ()
    · exact Outcome.Refuses.ok ()
  case decode =>
    apply Outcome.Refuses.mapError
    exact fun _ _ => nofun

/-- The error of a root itself is no repetition, and names as unbound only a
variable without a value. -/
theorem refuses_outcome (field : Document.Field) :
    Outcome.Refuses (fun e => ∀ error, e = .plan error → error.Single vars)
      (x.outcome reply vars field) := by
  unfold outcome
  split
  · next error planned =>
    have single := Planning.refuses_planRootField field error planned
    refine Outcome.Refuses.error ?_
    rintro _ ⟨⟩
    exact single
  · exact (x.refuses_answer _ _).mono fun e other error same => absurd same (other error)

theorem isRepetition_of_single {e : ExecutionError}
    (h : ∀ error, e = .plan error → error.Single vars) : e.isRepetition = false := by
  cases e with
  | plan error =>
    cases error with
    | duplicateResponseKey key => exact (h _ rfl).elim
    | _ => rfl
  | _ => rfl

/-- The errors under the key of a root are those of the root itself. -/
theorem single_of_mem_faultsOf {field : Document.Field} {key : String} {e : ErrorEntry}
    (h : e ∈ faultsOf key (x.outcome reply vars field)) :
    ∀ error, e.error = .plan error → error.Single vars := by
  cases given : x.outcome reply vars field with
  | ok value =>
    rw [given] at h
    cases h
  | error error =>
    rw [given] at h
    rw [List.mem_singleton.1 h]
    exact x.refuses_outcome reply vars field error given

theorem isRepetition_of_mem_faultsOf {field : Document.Field} {key : String} {e : ErrorEntry}
    (h : e ∈ faultsOf key (x.outcome reply vars field)) : e.error.isRepetition = false :=
  isRepetition_of_single vars (x.single_of_mem_faultsOf reply vars h)

/-! ### One root after another -/

/-- What there is after some roots: the answers, the errors, and the queries
that the store was asked. -/
structure Tally where
  data : Keyed Json
  errors : List ErrorEntry
  asked : List Query

/-- Add a root to what there is. -/
def settle (t : Tally) (field : Document.Field) : Tally :=
  let key := field.responseKey
  if Keyed.contains t.data key then { t with errors := t.errors ++ [repetition key] }
  else
    { data := t.data ++ [(key, valueOf (x.outcome reply vars field))]
      errors := t.errors ++ faultsOf key (x.outcome reply vars field)
      asked := t.asked ++ (x.asked? vars field).toList }

/-- What there is after these roots. -/
def tally (fields : List Document.Field) : Tally :=
  fields.foldl (x.settle reply vars) ⟨[], [], []⟩

/-- Executing roots is telling the store of the queries of the tally. -/
theorem executeRoots_told [LawfulMonad m] (note : Query → m Unit) (fields : List Document.Field)
    (t : Tally) :
    (do
      t.asked.forM note
      x.executeRoots (told note reply) vars t.data t.errors fields) = do
      let after := fields.foldl (x.settle reply vars) t
      after.asked.forM note
      return ⟨some after.data, after.errors⟩ := by
  induction fields generalizing t with
  | nil => rfl
  | cons field fields ih =>
    rw [List.foldl_cons, ← ih, executeRoots, settle]
    by_cases repeated : Keyed.contains t.data field.responseKey
    · simp only [repeated, if_true]
      rfl
    · simp only [repeated]
      rw [executeRoot_told]
      cases x.outcome reply vars field with
      | ok value => simp [valueOf, faultsOf]
      | error e => simp [valueOf, faultsOf]

theorem executeOperation_told [LawfulMonad m] (note : Query → m Unit)
    (op : Document.Operation) (supplied : Variables) :
    x.executeOperation (told note reply) op supplied = do
      let after := x.tally reply (Planning.bindVariables op.definitions supplied) op.selection
      after.asked.forM note
      return ⟨some after.data, after.errors⟩ := by
  have run := x.executeRoots_told reply (Planning.bindVariables op.definitions supplied) note
    op.selection ⟨[], [], []⟩
  exact (pure_bind () _).symm.trans run

/-! ### What holds of a tally -/

/-- The first root of every key, in order. -/
def leading (fields : List Document.Field) : List Document.Field :=
  (fields.map (·.responseKey)).eraseDups.filterMap fun key =>
    fields.find? (·.responseKey = key)

/-- Under every key there stands what its first root has to say, and one error
for every other root of the key; the store was asked the queries of the first
roots. -/
structure Tallied (fields : List Document.Field) (t : Tally) : Prop where
  keys : t.data.keys = (fields.map (·.responseKey)).eraseDups
  value : ∀ key field, fields.find? (·.responseKey = key) = some field →
    Keyed.find? t.data key = some (valueOf (x.outcome reply vars field))
  errors : ∀ key field, fields.find? (·.responseKey = key) = some field →
    t.errors.filter (·.path = [key]) = faultsOf key (x.outcome reply vars field) ++
      List.replicate (fields.countP (·.responseKey = key) - 1) (repetition key)
  paths : ∀ e ∈ t.errors, ∃ key ∈ t.data.keys, e.path = [key]
  asked : t.asked = (leading fields).filterMap (x.asked? vars)

variable {x reply vars} {fields : List Document.Field} {t : Tally}

theorem find?_concat (fields : List Document.Field) (field : Document.Field) (key : String) :
    (fields ++ [field]).find? (·.responseKey = key) =
      (fields.find? (·.responseKey = key)).or
        (if field.responseKey = key then some field else none) := by
  rw [List.find?_append, List.find?_singleton]
  simp

theorem find?_isSome_iff {key : String} :
    (fields.find? (·.responseKey = key)).isSome ↔ key ∈ fields.map (·.responseKey) := by
  simp

theorem find?_eq_none_iff {key : String} :
    fields.find? (·.responseKey = key) = none ↔ key ∉ fields.map (·.responseKey) := by
  rw [← Option.not_isSome_iff_eq_none, find?_isSome_iff]

theorem countP_concat (fields : List Document.Field) (field : Document.Field) (key : String) :
    (fields ++ [field]).countP (·.responseKey = key) =
      fields.countP (·.responseKey = key) + if field.responseKey = key then 1 else 0 := by
  rw [List.countP_append, List.countP_singleton]
  simp

/-- A root whose key is new comes after the first roots of the others. -/
theorem leading_concat (fields : List Document.Field) (field : Document.Field) :
    leading (fields ++ [field]) = leading fields ++
      if field.responseKey ∈ fields.map (·.responseKey) then [] else [field] := by
  have before : ((fields.map (·.responseKey)).eraseDups.filterMap fun key =>
      (fields ++ [field]).find? (·.responseKey = key)) = leading fields := by
    refine List.filterMap_congr fun key hk => ?_
    obtain ⟨first, found⟩ := Option.isSome_iff_exists.1
      (find?_isSome_iff.2 (List.mem_eraseDups.1 hk))
    rw [find?_concat, found]
    rfl
  unfold leading
  rw [List.map_append, List.map_singleton, eraseDups_concat, List.filterMap_append, before]
  congr 1
  split
  · rfl
  · next new =>
    have first : (fields ++ [field]).find? (·.responseKey = field.responseKey) = some field := by
      rw [find?_concat, find?_eq_none_iff.2 new]
      simp
    simp only [List.filterMap_cons, first, List.filterMap_nil]

/-- There are no errors under a key that was not answered. -/
theorem Tallied.filter_errors (h : Tallied x reply vars fields t) {key : String}
    (new : key ∉ fields.map (·.responseKey)) : t.errors.filter (·.path = [key]) = [] := by
  rw [List.filter_eq_nil_iff]
  intro e he same
  obtain ⟨other, answered, path⟩ := h.paths e he
  rw [decide_eq_true_eq, path, List.singleton_inj] at same
  rw [h.keys, List.mem_eraseDups, same] at answered
  exact new answered

/-- Certain errors of a key are those of its first root, and the repetitions. -/
theorem Tallied.filter_errors_and (h : Tallied x reply vars fields t) {key : String}
    {field : Document.Field} (found : fields.find? (·.responseKey = key) = some field)
    (p : ErrorEntry → Prop) [DecidablePred p] :
    t.errors.filter (fun e => e.path = [key] ∧ p e) =
      (faultsOf key (x.outcome reply vars field)).filter p ++
        (List.replicate (fields.countP (·.responseKey = key) - 1) (repetition key)).filter p := by
  have both : (fun e : ErrorEntry => decide (e.path = [key] ∧ p e)) =
      fun e => decide (p e) && decide (e.path = [key]) := by
    funext e
    rw [Bool.and_comm, Bool.decide_and]
  rw [both, ← List.filter_filter, h.errors key field found, List.filter_append]

/-- A root whose key was answered before adds an error. -/
theorem Tallied.repeated (h : Tallied x reply vars fields t) {field : Document.Field}
    (old : field.responseKey ∈ fields.map (·.responseKey)) :
    Tallied x reply vars (fields ++ [field])
      { t with errors := t.errors ++ [repetition field.responseKey] } := by
  obtain ⟨first, found⟩ := Option.isSome_iff_exists.1 (find?_isSome_iff.2 old)
  -- The first root of a key is the one it was.
  have same : ∀ key, (fields ++ [field]).find? (·.responseKey = key) =
      fields.find? (·.responseKey = key) := by
    intro key
    rw [find?_concat]
    split
    · next e =>
      rw [← e, found]
      rfl
    · exact Option.or_none
  constructor
  case keys => rw [h.keys, List.map_append, List.map_singleton, eraseDups_concat, if_pos old,
    List.append_nil]
  case value =>
    intro key f hf
    exact h.value key f ((same key).symm.trans hf)
  case errors =>
    intro key f hf
    have before := h.errors key f ((same key).symm.trans hf)
    rw [List.filter_append, before, countP_concat, List.append_assoc]
    congr 1
    by_cases e : field.responseKey = key
    · have its := List.find?_some found
      have counted : 0 < fields.countP (·.responseKey = key) := by
        rw [List.countP_pos_iff, ← e]
        exact ⟨first, List.mem_of_find?_eq_some found, its⟩
      have more : fields.countP (·.responseKey = key) + 1 - 1 =
          fields.countP (·.responseKey = key) - 1 + 1 := by omega
      rw [if_pos e, more, List.replicate_succ', e]
      simp [repetition]
    · simp [e, repetition]
  case paths =>
    refine List.forall_mem_append.2 ⟨h.paths, List.forall_mem_singleton.2 ?_⟩
    refine ⟨field.responseKey, ?_, rfl⟩
    rw [h.keys, List.mem_eraseDups]
    exact old
  case asked => rw [h.asked, leading_concat, if_pos old, List.append_nil]

/-- A root whose key is new adds its answer. -/
theorem Tallied.fresh (h : Tallied x reply vars fields t) {field : Document.Field}
    (new : field.responseKey ∉ fields.map (·.responseKey)) :
    Tallied x reply vars (fields ++ [field])
      { data := t.data ++ [(field.responseKey, valueOf (x.outcome reply vars field))]
        errors := t.errors ++ faultsOf field.responseKey (x.outcome reply vars field)
        asked := t.asked ++ (x.asked? vars field).toList } := by
  have unanswered : field.responseKey ∉ t.data.keys := by
    rw [h.keys, List.mem_eraseDups]
    exact new
  -- The root is the first of its own key, and of no other one.
  have firsts : ∀ key f, (fields ++ [field]).find? (·.responseKey = key) = some f →
      (field.responseKey = key ∧ f = field) ∨
        (field.responseKey ≠ key ∧ fields.find? (·.responseKey = key) = some f) := by
    intro key f hf
    rw [find?_concat] at hf
    by_cases e : field.responseKey = key
    · rw [← e, find?_eq_none_iff.2 new] at hf
      simp only [if_true, Option.none_or, Option.some.injEq] at hf
      exact .inl ⟨e, hf.symm⟩
    · rw [if_neg e, Option.or_none] at hf
      exact .inr ⟨e, hf⟩
  constructor
  case keys =>
    rw [List.map_append, List.map_singleton, eraseDups_concat, if_neg new, ← h.keys]
    exact List.map_append
  case value =>
    intro key f hf
    rcases firsts key f hf with ⟨rfl, rfl⟩ | ⟨-, found⟩
    · exact Keyed.find?_append_new _ unanswered
    · exact Keyed.find?_mono (List.prefix_append _ _) (h.value key f found)
  case errors =>
    intro key f hf
    rw [List.filter_append, countP_concat]
    rcases firsts key f hf with ⟨rfl, rfl⟩ | ⟨other, found⟩
    · have none : fields.countP (·.responseKey = f.responseKey) = 0 := by
        rw [List.countP_eq_zero]
        intro g hg same
        exact new (List.mem_map.2 ⟨g, hg, of_decide_eq_true same⟩)
      have own : (faultsOf f.responseKey (x.outcome reply vars f)).filter
          (·.path = [f.responseKey]) = faultsOf f.responseKey (x.outcome reply vars f) :=
        List.filter_eq_self.2 fun e he => decide_eq_true (path_of_mem_faultsOf he)
      rw [h.filter_errors new, own, none]
      simp
    · have apart : (faultsOf field.responseKey (x.outcome reply vars field)).filter
          (·.path = [key]) = [] := by
        rw [List.filter_eq_nil_iff]
        intro e he same
        rw [decide_eq_true_eq, path_of_mem_faultsOf he, List.singleton_inj] at same
        exact other same
      rw [h.errors key f found, apart, if_neg other]
      simp
  case paths =>
    refine List.forall_mem_append.2 ⟨fun e he => ?_, fun e he => ?_⟩
    · obtain ⟨key, answered, path⟩ := h.paths e he
      exact ⟨key, by simp [Keyed.keys] at answered ⊢; exact .inl answered, path⟩
    · exact ⟨field.responseKey, by simp [Keyed.keys], path_of_mem_faultsOf he⟩
  case asked =>
    rw [leading_concat, if_neg new, List.filterMap_append, h.asked]
    congr 1

/-- A root keeps what holds of a tally. -/
theorem Tallied.settle (h : Tallied x reply vars fields t) (field : Document.Field) :
    Tallied x reply vars (fields ++ [field]) (x.settle reply vars t field) := by
  have contained : Keyed.contains t.data field.responseKey = true ↔
      field.responseKey ∈ fields.map (·.responseKey) := by
    unfold Keyed.contains
    rw [Keyed.isSome_find?, h.keys, List.mem_eraseDups]
  unfold Executor.settle
  by_cases old : field.responseKey ∈ fields.map (·.responseKey)
  · rw [if_pos (contained.2 old)]
    exact h.repeated old
  · rw [if_neg fun found => old (contained.1 found)]
    exact h.fresh old

/-- What holds of every tally. -/
theorem tallied (x : Executor) (reply : Query → Except StoreError (List Row)) (vars : Variables)
    (fields : List Document.Field) : Tallied x reply vars fields (x.tally reply vars fields) := by
  induction fields using List.reverseRecOn with
  | nil =>
    constructor
    case keys => rfl
    case value => exact fun _ _ h => nomatch h
    case errors => exact fun _ _ h => nomatch h
    case paths => exact List.forall_mem_nil _
    case asked => rfl
  | append_singleton fields field ih =>
    unfold tally
    rw [List.foldl_concat]
    exact ih.settle field

/-- An error is that of a first root, or of a root whose key was answered
before. -/
theorem Tallied.mem_errors (h : Tallied x reply vars fields t) {e : ErrorEntry}
    (he : e ∈ t.errors) :
    (∃ field ∈ fields, e ∈ faultsOf field.responseKey (x.outcome reply vars field)) ∨
      ∃ key, e = repetition key := by
  obtain ⟨key, answered, path⟩ := h.paths e he
  rw [h.keys, List.mem_eraseDups, ← find?_isSome_iff] at answered
  obtain ⟨field, found⟩ := Option.isSome_iff_exists.1 answered
  have named : field.responseKey = key := of_decide_eq_true (List.find?_some found :)
  have own : e ∈ t.errors.filter (·.path = [key]) := List.mem_filter.2 ⟨he, decide_eq_true path⟩
  rw [h.errors key field found, List.mem_append] at own
  obtain first | later := own
  · refine .inl ⟨field, List.mem_of_find?_eq_some found, ?_⟩
    rwa [named]
  · exact .inr ⟨key, List.eq_of_mem_replicate later⟩

/-! ### Documents -/

section Documents

variable {m : Type → Type} [Monad m]

/-- A document that parses, with no other operation asked for, is executed. -/
theorem execute_parsed (x : Executor) (source : RowSource m) {text : String}
    {op : Document.Operation} (parsed : Document.parse text = .ok op)
    {operationName : Option String}
    (matching : ∀ requested, operationName = some requested → op.name = some requested)
    (supplied : Variables) :
    x.execute source text operationName supplied = x.executeOperation source op supplied := by
  unfold execute
  rw [parsed]
  cases operationName with
  | none => rfl
  | some requested => exact if_pos (matching requested rfl)

end Documents

/-- A store that answers every query leaves behind its tally. -/
theorem execute_replied (x : Executor) (reply : Query → Except StoreError (List Row))
    {text : String} {op : Document.Operation} (parsed : Document.parse text = .ok op)
    {operationName : Option String}
    (matching : ∀ requested, operationName = some requested → op.name = some requested)
    (supplied : Variables) :
    (x.execute (fun q => (pure (reply q) : Id _)) text operationName supplied).run =
      let after := x.tally reply (Planning.bindVariables op.definitions supplied) op.selection
      ⟨some after.data, after.errors⟩ := by
  rw [x.execute_parsed _ parsed matching]
  exact congrArg Id.run
    (x.executeOperation_told (m := Id) reply (fun _ => pure ()) op supplied)

/-! ### Stores that may give up -/

section Unanswered

variable {reply? : RowSource Option} {reply : Query → Except StoreError (List Row)}

/-- A store that may give up does so on being told of a query. -/
theorem eq_told (same : ∀ q r, reply? q = some r → reply q = r) :
    reply? = told (fun q => (reply? q).map fun _ => ()) reply := by
  funext q
  unfold told
  cases answered : reply? q with
  | none => simp [answered]
  | some r => simp [answered, same q r answered]

/-- There is a result after several queries if it gives up on none of them. -/
theorem forM_bind_eq_some {α : Type} {note : Query → Option Unit} {queries : List Query}
    {a b : α} :
    (do
      queries.forM note
      return a) = some b ↔ (∀ q ∈ queries, (note q).isSome = true) ∧ a = b := by
  induction queries with
  | nil => simp
  | cons q queries ih =>
    rw [List.forall_mem_cons, List.forM_eq_forM, List.forM_cons, bind_assoc]
    cases given : note q with
    | none => simp
    | some done => simpa using ih

/-- **A document is answered unless the store gives up on one of its roots.**
The answer is the one that the answers of the store make. -/
theorem execute_answered (x : Executor) (same : ∀ q r, reply? q = some r → reply q = r)
    {text : String} {op : Document.Operation} (parsed : Document.parse text = .ok op)
    {operationName : Option String}
    (matching : ∀ requested, operationName = some requested → op.name = some requested)
    (supplied : Variables) {response : Response} :
    x.execute reply? text operationName supplied = some response ↔
      (∀ field ∈ leading op.selection, ∀ plan,
        Planning.planRootField x.schema (Planning.bindVariables op.definitions supplied) field =
          .ok plan → (reply? (x.query plan)).isSome = true) ∧
      (x.execute (fun q => (pure (reply q) : Id _)) text operationName supplied).run =
        response := by
  have holds := x.tallied reply (Planning.bindVariables op.definitions supplied) op.selection
  -- The queries that the store is told of are those of the roots that can be planned.
  have asked : (∀ q ∈ (x.tally reply (Planning.bindVariables op.definitions supplied)
        op.selection).asked, ((reply? q).map fun _ => ()).isSome = true) ↔
      ∀ field ∈ leading op.selection, ∀ plan,
        Planning.planRootField x.schema (Planning.bindVariables op.definitions supplied) field =
          .ok plan → (reply? (x.query plan)).isSome = true := by
    rw [holds.asked]
    simp only [List.mem_filterMap, Option.isSome_map, asked?, Option.map_eq_some_iff,
      Outcome.toOption_eq_some]
    exact ⟨fun all field hf plan planned => all _ ⟨field, hf, plan, planned, rfl⟩,
      fun all q ⟨field, hf, plan, planned, e⟩ => e ▸ all field hf plan planned⟩
  have run := x.executeOperation_told (m := Option) reply (fun q => (reply? q).map fun _ => ())
    op supplied
  rw [← eq_told same, ← x.execute_parsed _ parsed matching] at run
  rw [run, x.execute_replied reply parsed matching, ← asked]
  exact forM_bind_eq_some

end Unanswered

/-! ### Stores that keep the queries -/

/-- Keeping queries in order. -/
theorem run_forM_modify (queries log : List Query) :
    StateT.run (queries.forM fun q => (modify (· ++ [q]) : StateM (List Query) Unit)) log =
      ((), log ++ queries) := by
  induction queries generalizing log with
  | nil =>
    rw [List.append_nil]
    rfl
  | cons q queries ih =>
    rw [List.append_cons, ← ih]
    rfl

/-- What executing an operation leaves behind is its tally. -/
theorem executeOperation_recorded (x : Executor) (reply : Query → Except StoreError (List Row))
    (op : Document.Operation) (supplied : Variables) (log : List Query) :
    (x.executeOperation (recorded reply) op supplied).run log =
      let after := x.tally reply (Planning.bindVariables op.definitions supplied) op.selection
      (⟨some after.data, after.errors⟩, log ++ after.asked) := by
  unfold recorded
  rw [executeOperation_told]
  dsimp only
  rw [StateT.run_bind, run_forM_modify]
  rfl

/-- **The roots of a document are apart.**  The answers stand under the
different keys of the roots, in order.  Under each key there stands what the
first root of that key is answered with when it is executed alone, and so do
the errors, which there are exactly if the answer is null; beside these there
is one error for every later root of the key.  The store is asked once for each
first root that can be planned, in order, and for nothing else. -/
theorem execute_apart (x : Executor) (reply : Query → Except StoreError (List Row))
    {text : String} {op : Document.Operation} (parsed : Document.parse text = .ok op)
    {operationName : Option String}
    (matching : ∀ requested, operationName = some requested → op.name = some requested)
    (supplied : Variables) (log : List Query) :
    ∃ data errors,
      (x.execute (recorded reply) text operationName supplied).run log =
        (⟨some data, errors⟩, log ++ (leading op.selection).filterMap fun field =>
          (Planning.planRootField x.schema (Planning.bindVariables op.definitions supplied)
            field).toOption.map fun plan =>
              { plan.query with limit := x.maxRows.map fun cap => min (cap + 1) greatestLimit }) ∧
      data.keys = (op.selection.map (·.responseKey)).eraseDups ∧
      (∀ e ∈ errors, ∃ key ∈ data.keys, e.path = [key]) ∧
      ∀ key field, op.selection.find? (·.responseKey = key) = some field →
        ∃ value own queries,
          (x.executeOperation (recorded reply) { op with selection := [field] } supplied).run [] =
            (⟨some [(key, value)], own⟩, queries) ∧
          Keyed.find? data key = some value ∧
          errors.filter (fun e => e.path = [key] ∧ e.error.isRepetition = false) = own ∧
          (value = .null ↔ own ≠ []) ∧
          errors.filter (fun e => e.path = [key] ∧ e.error.isRepetition) =
            List.replicate (op.selection.countP (·.responseKey = key) - 1)
              ⟨.plan (.duplicateResponseKey key), [key]⟩ := by
  have holds := x.tallied reply (Planning.bindVariables op.definitions supplied) op.selection
  refine ⟨_, _, ?_, holds.keys, holds.paths, fun key field found => ?_⟩
  · rw [x.execute_parsed _ parsed matching, executeOperation_recorded]
    dsimp only
    rw [holds.asked]
    rfl
  have its := List.find?_some found
  have named : field.responseKey = key := of_decide_eq_true its
  subst named
  -- What a root says by itself is told from the complaints about repeated keys
  -- by its kind, since both stand under the same path.
  have ofRoot : ∀ e ∈ faultsOf field.responseKey (x.outcome reply
      (Planning.bindVariables op.definitions supplied) field), e.error.isRepetition = false :=
    fun e he => x.isRepetition_of_mem_faultsOf reply _ he
  refine ⟨_, _, _, x.executeOperation_recorded reply _ supplied [], holds.value _ field found,
    ?own, x.valueOf_eq_null reply _, ?repeated⟩
  case own =>
    rw [holds.filter_errors_and found,
      List.filter_eq_self.2 fun e he => decide_eq_true (ofRoot e he),
      List.filter_replicate_of_neg (by simp [repetition, ExecutionError.isRepetition]),
      List.append_nil]
    rfl
  case repeated =>
    rw [holds.filter_errors_and found,
      List.filter_eq_nil_iff.2 fun e he => by rw [ofRoot e he]; simp,
      List.filter_replicate_of_pos (by simp [repetition, ExecutionError.isRepetition])]
    rfl

end Executor

/-! ### The small library -/

namespace Sample

/-- A document that asks for the books twice under one name, for the authors,
and for something that is not there. -/
def roots : String :=
  "\x7bbooks \x7bselect \x7btitle\x7d\x7d authors \x7bselect \x7bname\x7d\x7d " ++
    "books \x7bselect \x7bid\x7d\x7d shelves \x7bselect \x7bid\x7d\x7d\x7d"

/-- The entities of the roots that the store is asked for. -/
def planned (op : Document.Operation) : List String :=
  (Executor.leading op.selection).filterMap fun field =>
    (Planning.planRootField schema (Planning.bindVariables op.definitions []) field).toOption.map
      (·.query.root)

end Sample

/-- With a cap of one row: the store is asked for the first books and for the
authors, and the other books are refused. -/
theorem execute_apart_library :
    ∃ data errors asked,
      (Executor.execute ⟨Sample.schema, some 1⟩ (Executor.recorded Sample.tables.run) Sample.roots
        none []).run [] = (⟨some data, errors⟩, asked) ∧
      data.keys = ["books", "authors", "shelves"] ∧
      asked.map (fun q => (q.root, q.limit)) = [("Book", some 2), ("Author", some 2)] ∧
      errors.filter (fun e => e.path = ["books"] ∧ e.error.isRepetition) =
        [⟨.plan (.duplicateResponseKey "books"), ["books"]⟩] := by
  have ran : ((Document.parse Sample.roots).toOption.map fun op =>
      (op.selection.map (·.responseKey), Sample.planned op)) =
        some (["books", "authors", "books", "shelves"], ["Book", "Author"]) := by decide +kernel
  obtain ⟨op, parsed, ran⟩ := Option.map_eq_some_iff.1 ran
  have parsed := Outcome.toOption_eq_some.1 parsed
  obtain ⟨keys, planned⟩ := Prod.mk.inj ran
  have unnamed : ∀ requested, (none : Option String) = some requested → op.name = some requested :=
    fun _ h => nomatch h
  obtain ⟨data, errors, run, answered, -, each⟩ :=
    Executor.execute_apart ⟨Sample.schema, some 1⟩ Sample.tables.run parsed unnamed [] []
  refine ⟨data, errors, _, run, ?_, ?_, ?_⟩
  · rw [answered, keys]
    decide
  · have limited := congrArg (List.map fun root => (root, some 2)) planned
    unfold Sample.planned at limited
    rw [List.map_filterMap] at limited
    rw [List.nil_append, List.map_filterMap]
    simp only [Option.map_map] at limited ⊢
    exact limited
  · have asked : (op.selection.find? (·.responseKey = "books")).isSome := by
      rw [Executor.find?_isSome_iff, keys]
      decide
    obtain ⟨field, found⟩ := Option.isSome_iff_exists.1 asked
    obtain ⟨value, own, queries, -, -, -, -, repeated⟩ := each "books" field found
    have twice : op.selection.countP (·.responseKey = "books") = 2 := by
      have counted := congrArg (List.countP fun key => decide (key = "books")) keys
      rw [List.countP_map] at counted
      exact counted
    rw [twice] at repeated
    exact repeated

end EntityQuery
