/-
EntityQuery/Proofs/Limit.lean

The limit on nesting refuses what nests deeper, and nothing else.

A parser with a lower limit curtails one with a higher limit (`Parser.Curtails`):
it does the same, or it fails for good because of nesting, and then the other one
reads nothing that keeps to the lower limit.  The step is at the bracket for which
there is no room; from there a hard failure passes through every combinator, so
that no alternative is tried in its place.

A repetition and an optional part stop where something is missing.  For these the
curtailed parser must not fail where the other one finds nothing, so where that
matters a failure of the other one has to be hard as well (`Parser.Settled`).
This holds behind whatever a parser has committed to, and of repetitions of which
each part takes at least one character (`Parser.Advances`).

Hence a document that would be read under a higher limit is read if its operation
is shallow, and fails for good if it is not (`parse_shallow`).
-/
import EntityQuery.Proofs.Position
import EntityQuery.Proofs.Shallow

namespace EntityQuery.Document

/-! ### Replies -/

namespace Reply

variable {α β : Type} {r : Reply α} {loose : Prop} {good : α → Prop} {better : β → Prop}

/-- A hard failure because of nesting. -/
def TooDeep (r : Reply α) : Prop := ∃ rest trail, r = .hard (⟨rest, tooDeep⟩ :: trail)

/-- Text that is nested too deep is so whatever comes after. -/
theorem TooDeep.bind (h : r.TooDeep) (next : α → List Char → Reply β) : (r.bind next).TooDeep := by
  obtain ⟨rest, trail, rfl⟩ := h
  exact ⟨rest, trail, rfl⟩

theorem TooDeep.addComplaint (h : r.TooDeep) (c : Complaint) : (r.addComplaint c).TooDeep := by
  obtain ⟨rest, trail, rfl⟩ := h
  exact ⟨rest, trail ++ [c], rfl⟩

/-- Nothing good is read, and the failure is hard if it has to be. -/
def Misses (loose : Prop) (good : α → Prop) : Reply α → Prop
  | .ok value _ => ¬good value
  | .soft _ => loose
  | .hard _ => True

/-- A part that misses makes the whole miss. -/
theorem Misses.bind {next : α → List Char → Reply β} (h : r.Misses loose good)
    (back : ∀ value rest b left, next value rest = .ok b left → better b → good value)
    (settled : ∀ value rest trail, next value rest = .soft trail → loose) :
    (r.bind next).Misses loose better := by
  cases r with
  | ok value rest =>
    rw [Reply.bind]
    cases outcome : next value rest with
    | ok b left => exact fun hb => h (back value rest b left outcome hb)
    | soft trail => exact settled value rest trail outcome
    | hard trail => trivial
  | soft trail => exact h
  | hard trail => trivial

theorem Misses.addComplaint (h : r.Misses loose good) (c : Complaint) :
    (r.addComplaint c).Misses loose good := by
  cases r <;> exact h

/-- Of values one after the other the first one is not good. -/
theorem misses_cons {r : Reply (List α)} {a : α} (ha : ¬good a)
    (settled : ∀ trail, r = .soft trail → loose) :
    (r.map (a :: ·)).Misses loose fun found => ∀ b ∈ found, good b := by
  cases r with
  | ok found rest => exact fun all => ha (all a List.mem_cons_self)
  | soft trail => exact settled trail rfl
  | hard trail => trivial

end Reply

/-! ### Hard failures -/

namespace Parser

variable {α β : Type} {p q : Parser α} {loose : Prop} {good : α → Prop} {better : β → Prop}

/-- The parser fails softly only if that does not matter. -/
def Settled (q : Parser α) (loose : Prop) : Prop := ∀ input trail, q input = .soft trail → loose

theorem settled_of_loose (q : Parser α) : q.Settled True := fun _ _ _ => trivial

/-- A parser that is committed does not fail softly. -/
theorem settled_commit (q : Parser α) : q.commit.Settled loose := by
  intro input trail h
  rw [commit] at h
  generalize q input = reply at h
  cases reply <;> cases h

/-- An optional part never fails softly. -/
theorem settled_optional (q : Parser α) : q.optional.Settled loose := by
  intro input trail h
  rw [Parser.optional] at h
  generalize q input = reply at h
  cases reply <;> cases h

theorem Settled.expecting {reason : String} (h : q.Settled loose) :
    (q.expecting reason).Settled loose := by
  intro input trail e
  have here := h input
  rw [Parser.expecting] at e
  generalize q input = reply at here e
  cases reply with
  | ok value rest => cases e
  | soft trail' => exact here trail' rfl
  | hard trail' => cases e

/-- A sequence is settled if each of its parts is. -/
theorem Settled.bind {f : α → Parser β} (h : q.Settled loose) (later : ∀ a, (f a).Settled loose) :
    Settled (fun input => (q input).bind f) loose := by
  intro input trail e
  have here := h input
  simp only at e
  generalize q input = reply at here e
  cases reply with
  | ok value rest => exact later value rest trail e
  | soft trail' => exact here trail' rfl
  | hard trail' => cases e

theorem Settled.map {f : α → β} (h : q.Settled loose) : (q.map f).Settled loose :=
  h.bind fun _ _ _ e => nomatch e

theorem Settled.pair {second : Parser β} (h : q.Settled loose) (hs : second.Settled loose) :
    (Parser.pair q second).Settled loose :=
  h.bind fun _ => hs.map

/-- Whatever is read takes at least one character. -/
def Advances (q : Parser α) : Prop :=
  ∀ input value rest, q input = .ok value rest → rest.length < input.length

theorem Stays.length_le {input rest : List Char} {value : α} (h : q.Stays)
    (read : q input = .ok value rest) : rest.length ≤ input.length := by
  have left := h input
  rw [read] at left
  exact List.IsSuffix.length_le left

/-- A sequence consumes something if its first part does. -/
theorem Advances.bind {f : α → Parser β} (h : q.Advances) (later : ∀ a, (f a).Stays) :
    Advances (fun input => (q input).bind f) := by
  intro input b rest read
  obtain ⟨a, left, first, read⟩ := Reply.bind_eq_ok.1 read
  exact Nat.lt_of_le_of_lt ((later a).length_le read) (h input a left first)

theorem Advances.pair {second : Parser β} (h : q.Advances) (hs : second.Stays) :
    (Parser.pair q second).Advances :=
  h.bind fun _ => hs.map

theorem Advances.token (h : q.Advances) : (token q).Advances := by
  intro input a rest read
  obtain ⟨a', left, first, e⟩ := Reply.bind_eq_ok.1 read
  cases e
  have before := (skipIgnoredFrom_suffix false input).length_le
  have after := (skipIgnoredFrom_suffix false left).length_le
  have taken := h _ _ _ first
  simp only [skipIgnored] at taken ⊢
  omega

theorem advances_char (c : Char) : Advances (char c) := by
  intro input d rest read
  cases input with
  | nil => cases read
  | cons d after =>
    rw [char] at read
    split at read
    · cases read
      exact Nat.lt_succ_self _
    · cases read

theorem advances_name : Advances name := by
  intro input s rest read
  cases input with
  | nil => cases read
  | cons c after =>
    rw [name] at read
    split at read
    · cases read
      exact Nat.lt_succ_of_le (List.dropWhile_suffix _).length_le
    · cases read

/-- A repetition ends where nothing more is there, or fails for good. -/
theorem Advances.settled_many (h : q.Advances) : q.many.Settled loose := by
  have each : ∀ fuel, (q.manyWithin fuel).Settled loose := by
    intro fuel
    induction fuel with
    | zero => exact fun _ _ e => nomatch e
    | succ fuel ih =>
      intro input trail e
      simp only [manyWithin] at e
      -- A round that succeeds consumed something, so that the repetition never
      -- stops for lack of progress.
      cases outcome : q input with
      | ok value rest =>
        simp only [outcome, if_pos (h input value rest outcome)] at e
        exact ih.map rest trail e
      | soft trail' =>
        rw [outcome] at e
        cases e
      | hard trail' =>
        rw [outcome] at e
        cases e
  exact fun input => each (input.length + 1) input

/-! ### Curtailed parsers -/

/-- The first parser does as the second one, or fails because of nesting where the
second one reads nothing good. -/
def Curtails (p q : Parser α) (loose : Prop) (good : α → Prop) : Prop :=
  ∀ input, p input = q input ∨ (p input).TooDeep ∧ (q input).Misses loose good

theorem Curtails.refl (p : Parser α) : p.Curtails p loose good := fun _ => .inl rfl

theorem Curtails.firm (h : p.Curtails q True good) (settled : q.Settled loose) :
    p.Curtails q loose good := by
  intro input
  rcases h input with same | ⟨deep, misses⟩
  · exact .inl same
  · refine .inr ⟨deep, ?_⟩
    have firm := settled input
    generalize q input = reply at misses firm ⊢
    cases reply with
    | ok value rest => exact misses
    | soft trail => exact firm trail rfl
    | hard trail => trivial

/-- Sequences are curtailed part by part. -/
theorem Curtails.bind {f g : α → Parser β} (h : p.Curtails q loose good)
    (later : ∀ a, (f a).Curtails (g a) loose better)
    (back : ∀ a rest b left, g a rest = .ok b left → better b → good a)
    (settled : ∀ a, (g a).Settled loose) :
    Curtails (fun input => (p input).bind f) (fun input => (q input).bind g) loose better := by
  intro input
  rcases h input with same | ⟨deep, misses⟩
  · simp only [same]
    cases q input with
    | ok a rest => exact later a rest
    | soft trail => exact .inl rfl
    | hard trail => exact .inl rfl
  · exact .inr ⟨deep.bind f, misses.bind back settled⟩

/-- What comes after the same beginning. -/
theorem Curtails.after {first : Parser α} {f g : α → Parser β}
    (later : ∀ a, (f a).Curtails (g a) loose better) :
    Curtails (fun input => (first input).bind f) (fun input => (first input).bind g) loose
      better := by
  intro input
  cases outcome : first input with
  | ok a rest =>
    simp only [outcome]
    exact later a rest
  | soft trail => exact .inl (by simp only [outcome, Reply.bind])
  | hard trail => exact .inl (by simp only [outcome, Reply.bind])

theorem Curtails.map {f : α → β} (h : p.Curtails q loose good)
    (back : ∀ a, better (f a) → good a) : (p.map f).Curtails (q.map f) loose better := by
  refine h.bind (fun _ => .refl _) ?_ fun _ _ _ e => nomatch e
  rintro a rest _ _ ⟨⟩
  exact back a

theorem Curtails.pair_left {second : Parser β} (h : p.Curtails q loose good)
    (settled : second.Settled loose) :
    (Parser.pair p second).Curtails (Parser.pair q second) loose fun ab => good ab.1 := by
  refine h.bind (fun _ => .refl _) ?_ fun _ => settled.map
  intro a rest ab left read
  obtain ⟨b, -, rfl⟩ := Reply.map_eq_ok.1 read
  exact id

theorem Curtails.pair_right {first : Parser β} (h : p.Curtails q loose good) :
    (Parser.pair first p).Curtails (Parser.pair first q) loose fun ab => good ab.2 :=
  .after fun _ => h.map fun _ => id

/-- What is dropped in front does not matter. -/
theorem Curtails.andThen {first : Parser β} (h : p.Curtails q loose good) :
    (Parser.andThen first p).Curtails (Parser.andThen first q) loose good :=
  .after fun _ => h

theorem Curtails.token (h : p.Curtails q loose good) :
    (token p).Curtails (token q) loose good := by
  intro input
  refine h.bind (fun _ => .refl _) ?_ ?_ (skipIgnored input)
  · rintro a rest _ _ ⟨⟩
    exact id
  · rintro a rest trail ⟨⟩

/-- Behind a commitment all failures are hard. -/
theorem Curtails.commit {before : Prop} (h : p.Curtails q before good) :
    p.commit.Curtails q.commit loose good := by
  intro input
  rcases h input with same | ⟨⟨rest, trail, e⟩, misses⟩
  · exact .inl (by rw [Parser.commit, Parser.commit, same])
  · refine .inr ⟨⟨rest, trail, by rw [Parser.commit, e]⟩, ?_⟩
    rw [Parser.commit]
    generalize q input = reply at misses ⊢
    cases reply with
    | ok a left => exact misses
    | soft trail => trivial
    | hard trail => trivial

theorem Curtails.expecting {reason : String} (h : p.Curtails q loose good) :
    (p.expecting reason).Curtails (q.expecting reason) loose good := by
  intro input
  rcases h input with same | ⟨deep, misses⟩
  · exact .inl (by rw [Parser.expecting, Parser.expecting, same])
  · exact .inr ⟨deep.addComplaint _, misses.addComplaint _⟩

/-- An optional part is curtailed with its part. -/
theorem Curtails.optional (h : p.Curtails q False good) :
    p.optional.Curtails q.optional loose fun found => ∀ a, found = some a → good a := by
  intro input
  rcases h input with same | ⟨⟨rest, trail, e⟩, misses⟩
  · exact .inl (by rw [Parser.optional, Parser.optional, same])
  · refine .inr ⟨⟨rest, trail, by rw [Parser.optional, e]⟩, ?_⟩
    rw [Parser.optional]
    generalize q input = reply at misses ⊢
    cases reply with
    | ok a left => exact fun found => misses (found a rfl)
    | soft trail => exact misses.elim
    | hard trail => trivial

/-- A hard failure of an alternative is one of the choice. -/
theorem Curtails.choice {ps qs : List (Parser α)}
    (h : List.Forall₂ (fun p q => p.Curtails q False good) ps qs) :
    (Parser.choice ps).Curtails (Parser.choice qs) False good := by
  -- The complaint of the last alternative is passed on, so that the induction holds for any.
  have from_any : ∀ last, (choiceFrom last ps).Curtails (choiceFrom last qs) False good := by
    induction h with
    | nil => exact fun last => .refl _
    | @cons p q ps qs here later ih =>
      intro last input
      rcases here input with same | ⟨⟨rest, trail, e⟩, misses⟩
      · rw [choiceFrom, choiceFrom, same]
        cases q input with
        | ok a rest => exact .inl rfl
        | soft trail => exact ih trail input
        | hard trail => exact .inl rfl
      · refine .inr ⟨⟨rest, trail, by rw [choiceFrom, e]⟩, ?_⟩
        rw [choiceFrom]
        generalize q input = reply at misses ⊢
        cases reply with
        | ok a left => exact misses
        | soft trail => exact misses.elim
        | hard trail => trivial
  exact from_any []

theorem Curtails.manyWithin (h : p.Curtails q False good) (fuel : Nat) :
    (p.manyWithin fuel).Curtails (q.manyWithin fuel) True fun found => ∀ a ∈ found, good a := by
  induction fuel with
  | zero => exact .refl _
  | succ fuel ih =>
    intro input
    -- Either the round is the same, or the limit stopped it, and what is found
    -- has an item that is too deep.
    rcases h input with same | ⟨⟨rest, trail, e⟩, misses⟩
    · simp only [Parser.manyWithin, same]
      cases q input with
      | ok a rest =>
        by_cases less : rest.length < input.length
        · simp only [if_pos less]
          exact ih.map (fun found all => (List.forall_mem_cons.1 all).2) rest
        · simp only [if_neg less, true_or]
      | soft trail => exact .inl rfl
      | hard trail => exact .inl rfl
    · refine .inr ⟨⟨rest, trail, by rw [Parser.manyWithin, e]⟩, ?_⟩
      rw [Parser.manyWithin]
      generalize q input = reply at misses ⊢
      cases reply with
      | ok a left =>
        by_cases less : left.length < input.length
        · simp only [if_pos less]
          exact Reply.misses_cons misses fun _ _ => trivial
        · simp only [if_neg less]
          trivial
      | soft trail => exact misses.elim
      | hard trail => trivial

theorem Curtails.many (h : p.Curtails q False good) :
    p.many.Curtails q.many True fun found => ∀ a ∈ found, good a := fun input =>
  h.manyWithin (input.length + 1) input

theorem Curtails.many1 (h : p.Curtails q False good) (settled : q.many.Settled loose) :
    p.many1.Curtails q.many1 loose fun found => ∀ a ∈ found, good a := by
  have more := h.many.firm settled
  intro input
  rcases h input with same | ⟨⟨rest, trail, e⟩, misses⟩
  · simp only [Parser.many1, same]
    cases q input with
    | ok a rest => exact more.map (fun found all => (List.forall_mem_cons.1 all).2) rest
    | soft trail => exact .inl rfl
    | hard trail => exact .inl rfl
  · refine .inr ⟨⟨rest, trail, by rw [Parser.many1, e]⟩, ?_⟩
    rw [Parser.many1]
    generalize q input = reply at misses ⊢
    cases reply with
    | ok a left => exact Reply.misses_cons misses (settled left)
    | soft trail => exact misses.elim
    | hard trail => trivial

theorem Curtails.group {reason : String} (h : p.Curtails q False good) (advances : q.Advances) :
    (group p reason).Curtails (group q reason) loose fun found => ∀ a ∈ found, good a := by
  have close : (Parser.expecting reason (Parser.commit (punct ')'))).Settled loose :=
    (settled_commit _).expecting
  exact (((h.many1 advances.settled_many).pair_left close).map fun _ => id).andThen

/-- What may stand one level down, if there is room for it. -/
def inside (within : Nat → Parser α) : Nat → Option (Parser α)
  | 0 => none
  | room + 1 => some (within room)

/-- What may stand in brackets is curtailed, and where there is no room for it
anything may stand there for the other parser. -/
def CurtailsInside (loose : Prop) (good : Nat → α → Prop) :
    Nat → Option (Parser α) → Option (Parser α) → Prop
  | 0, none, _ => True
  | room + 1, some p, some q => p.Curtails q loose (good room)
  | _, _, _ => False

/-- The bracket for which there is no room. -/
theorem Curtails.opened {bracket : Char} {before : Prop} {good : Nat → α → Prop} {room : Nat}
    {item item' : Option (Parser α)} {body body' : Parser α → Parser β}
    (inside : CurtailsInside before good room item item')
    (deeper : ∀ left p q, room = left + 1 → item' = some q → p.Curtails q before (good left) →
      (body p).Curtails (body' q) loose better)
    (beyond : ∀ q, room = 0 → item' = some q → ∀ input, (body' q input).Misses loose better) :
    (opened bracket (item.map body)).Curtails (opened bracket (item'.map body')) loose better := by
  intro input
  simp only [Document.opened]
  cases punct bracket input with
  | soft trail => exact .inl rfl
  | hard trail => exact .inl rfl
  | ok c inner =>
    -- Without room the inside is refused at once; with it both insides are one level less deep.
    cases room with
    | zero =>
      cases item with
      | none =>
        cases item' with
        | none => exact .inl rfl
        | some q => exact .inr ⟨⟨input, [], rfl⟩, beyond q rfl rfl inner⟩
      | some p => cases item' <;> exact inside.elim
    | succ left =>
      cases item with
      | none => cases item' <;> exact inside.elim
      | some p =>
        cases item' with
        | none => exact inside.elim
        | some q => exact deeper left p q rfl rfl inside inner

/-- Parsers that are recursive on the room that is left: where each curtails the
other if what may stand one level down does so, less room curtails more. -/
theorem Curtails.within {within within' : Nat → Parser α} (good : Nat → α → Prop)
    (step : ∀ room room', CurtailsInside loose good room (inside within room)
      (inside within' room') → (within room).Curtails (within' room') loose (good room))
    {room room' : Nat} (le : room ≤ room') :
    (within room).Curtails (within' room') loose (good room) := by
  induction room generalizing room' with
  | zero => exact step 0 room' trivial
  | succ room ih =>
    obtain ⟨more, rfl⟩ := Nat.exists_eq_add_of_le' (Nat.lt_of_lt_of_le room.succ_pos le)
    exact step (room + 1) (more + 1) (ih (Nat.le_of_succ_le_succ le))

/-- Of two alternatives the second one is not there if the first one nests too
deep. -/
theorem Curtails.either {second : Parser α} (h : p.Curtails q True good)
    (apart : ∀ input, (p input).TooDeep → ∃ trail, second input = .soft trail) :
    (Parser.choice [p, second]).Curtails (Parser.choice [q, second]) True good := by
  intro input
  simp only [Parser.choice, choiceFrom]
  rcases h input with same | ⟨deep, misses⟩
  · exact .inl (by rw [same])
  · obtain ⟨trail', none_there⟩ := apart input deep
    obtain ⟨rest, trail, e⟩ := deep
    refine .inr ⟨⟨rest, trail, by rw [e]⟩, ?_⟩
    generalize q input = reply at misses ⊢
    cases reply with
    | ok a left => exact misses
    | soft trail => simp only [none_there, Reply.Misses]
    | hard trail => trivial

theorem Yields.misses (h : q.Yields fun a => ¬good a) (settled : q.Settled loose)
    (input : List Char) : (q input).Misses loose good := by
  cases outcome : q input with
  | ok a rest => exact h input a rest outcome
  | soft trail => exact settled input trail outcome
  | hard trail => trivial

end Parser

/-! ### Values and types -/

open EntityQuery.Document.Parser (Curtails CurtailsInside inside)

variable {lower higher : Nat}

theorem curtails_entry {p q : Parser Value} {good : Value → Prop} (h : p.Curtails q False good) :
    (entry p).Curtails (entry q) False fun e => good e.2 :=
  h.commit.expecting.andThen.pair_right

theorem advances_entry {q : Parser Value} (h : q.Stays) : (entry q).Advances :=
  Parser.advances_name.token.pair
    ((stays_punct ':').commit.expecting.andThen h.commit.expecting)

theorem settled_objectBody {q : Parser Value} (h : q.Stays) : (objectBody q).Settled False :=
  ((advances_entry h).settled_many.pair (Parser.settled_commit _).expecting).map

theorem curtails_valueOver {item item' : Option (Parser Value)} {room : Nat}
    (inside : CurtailsInside False (fun left v => v.depth ≤ left) room item item')
    (stays : ∀ q, item' = some q → q.Stays) :
    (valueOver item).Curtails (valueOver item') False (·.depth ≤ room) := by
  have list : (opened '[' (item.map listBody)).Curtails (opened '[' (item'.map listBody)) False
      (·.depth ≤ room) := by
    refine Curtails.opened inside ?_ ?_
    · rintro left p q rfl hq h
      refine ((h.many.pair_left (Parser.settled_of_loose _)).map fun items le => ?_).expecting.commit
      exact Value.depthOf_le.1 (Nat.le_of_succ_le_succ le)
    · rintro q rfl hq
      refine Parser.Yields.misses ?_ (Parser.settled_commit _)
      exact ((yields_anything _).map fun _ _ => Nat.not_succ_le_zero _).expecting.commit
  have object : (opened '\x7b' (item.map objectBody)).Curtails
      (opened '\x7b' (item'.map objectBody)) False (·.depth ≤ room) := by
    refine Curtails.opened inside ?_ ?_
    · rintro left p q rfl hq h
      refine Curtails.firm ?_ (settled_objectBody (stays q hq))
      refine ((curtails_entry h).many.pair_left (Parser.settled_of_loose _)).map fun entries le => ?_
      exact Value.depthOfEntries_le.1 (Nat.le_of_succ_le_succ le)
    · rintro q rfl hq
      refine Parser.Yields.misses ?_ (settled_objectBody (stays q hq))
      exact (yields_anything _).map fun _ _ => Nat.not_succ_le_zero _
  -- Only lists and objects know of the limit.
  have each : List.Forall₂ (fun p q => Parser.Curtails p q False fun v => v.depth ≤ room)
      [Parser.map Value.variable variableName, Parser.map Value.string string, number,
        opened '[' (item.map listBody), opened '\x7b' (item.map objectBody),
        Parser.map wordValue name]
      [Parser.map Value.variable variableName, Parser.map Value.string string, number,
        opened '[' (item'.map listBody), opened '\x7b' (item'.map objectBody),
        Parser.map wordValue name] :=
    .cons (.refl _) (.cons (.refl _) (.cons (.refl _) (.cons list (.cons object
      (.cons (.refl _) .nil)))))
  exact (Curtails.choice each).token

/-- Values are curtailed to those of the lower depth. -/
theorem curtails_value (le : lower ≤ higher) :
    (valueWithin lower).Curtails (valueWithin higher) False (·.depth ≤ lower) := by
  refine Curtails.within (fun room (v : Value) => v.depth ≤ room) (fun room room' h => ?_) le
  have stays : ∀ q, inside valueWithin room' = some q → q.Stays := by
    intro q hq
    cases room' with
    | zero => cases hq
    | succ room' =>
      cases hq
      exact stays_value room'
  have whole := curtails_valueOver h stays
  cases room <;> cases room' <;> exact whole

/-- A text with a list type in it that nests too deep begins with a bracket. -/
theorem name_of_tooDeep {body : Option (Parser TypeRef)} {input : List Char}
    (h : (opened '[' body input).TooDeep) :
    ∃ trail, Parser.map TypeRef.named (token name) input = .soft trail := by
  obtain ⟨rest, trail, e⟩ := h
  simp only [opened, punct, token] at e
  simp only [Parser.map, token]
  cases skipped : skipIgnored input with
  | nil => exact ⟨_, rfl⟩
  | cons c after =>
    rw [skipped, char] at e
    by_cases bracket : c = '['
    · subst bracket
      exact ⟨_, rfl⟩
    · rw [if_neg bracket] at e
      cases e

/-- Behind its bracket a list type may lack its item softly, so a type is curtailed
only where a failure may be soft. -/
theorem curtails_typeOver {item item' : Option (Parser TypeRef)} {room : Nat}
    (inside : CurtailsInside True (fun left t => t.depth ≤ left) room item item') :
    (typeOver item).Curtails (typeOver item') True (·.depth ≤ room) := by
  have list : (opened '[' (item.map listTypeBody)).Curtails (opened '[' (item'.map listTypeBody))
      True (·.depth ≤ room) := by
    refine Curtails.opened inside ?_ ?_
    · rintro left p q rfl hq h
      exact (h.pair_left (Parser.settled_of_loose _)).map fun types le => Nat.le_of_succ_le_succ le
    · rintro q rfl hq
      refine Parser.Yields.misses ?_ (Parser.settled_of_loose _)
      exact (yields_anything _).map fun _ _ => Nat.not_succ_le_zero _
  have base := list.either fun input => name_of_tooDeep
  refine base.bind (fun _ => .refl _) ?_ fun _ => Parser.settled_of_loose _
  intro base rest t left read
  obtain ⟨mark, -, rfl⟩ := Reply.map_eq_ok.1 read
  split <;> exact id

theorem curtails_type (le : lower ≤ higher) :
    (typeWithin lower).Curtails (typeWithin higher) True (·.depth ≤ lower) := by
  refine Curtails.within (fun room (t : TypeRef) => t.depth ≤ room) (fun room room' h => ?_) le
  have whole := curtails_typeOver h
  cases room <;> cases room' <;> exact whole

/-! ### Selection sets -/

theorem curtails_arguments (le : lower ≤ higher) :
    (argumentsWithin lower).Curtails (argumentsWithin higher) False
      fun found => ∀ a ∈ found, a.2.depth ≤ lower := by
  have argument : (argumentWithin lower).Curtails (argumentWithin higher) False
      fun a => a.2.depth ≤ lower :=
    (curtails_value le).commit.expecting.andThen.pair_right
  have advances : (argumentWithin higher).Advances :=
    Parser.advances_name.token.pair
      ((stays_punct ':').commit.expecting.andThen (stays_value higher).commit.expecting)
  exact argument.group advances

/-- A field is curtailed in its arguments and in its selection. -/
theorem curtails_field (le : lower ≤ higher) {room : Nat}
    {selection selection' : Parser (List Field)}
    (h : selection.Curtails selection' False (Field.AllShallow lower room)) :
    (fieldWithin lower selection).Curtails (fieldWithin higher selection') False
      (Field.Shallow lower room) := by
  have settled {α : Type} (f : Option (List Field) → α) :
      Parser.Settled (fun rest => (Parser.optional selection' rest).bind
        fun fields rest => .ok (f fields) rest) False :=
    (Parser.settled_optional selection').bind fun _ _ _ e => nomatch e
  -- The names are read alike; the arguments and the selection set know of the limit.
  refine Curtails.after fun first => ?_
  refine Curtails.after fun second => ?_
  refine (curtails_arguments le).optional.bind (fun args => ?_) ?_ fun args => ?_
  · refine h.optional.bind (fun fields => .refl _) ?_ fun fields _ _ e => nomatch e
    rintro fields rest f left ⟨⟩ shallow fs rfl
    exact ⟨shallow.1.2, shallow.2⟩
  · intro args rest f left read shallow found e
    obtain ⟨fields, rest', -, read⟩ := Reply.bind_eq_ok.1 read
    subst e
    cases read
    exact shallow.1.1
  · exact settled _

/-- A selection set holds at least one field. -/
theorem yields_selectionBody_deep {field : Parser Field} {limit : Nat} :
    (selectionBody field).Yields fun fs => ¬Field.AllShallow limit 0 fs := by
  have some_field : field.many1.Yields (· ≠ []) := by
    intro input found rest read
    simp only [Parser.many1] at read
    split at read
    · obtain ⟨more, -, rfl⟩ := Reply.map_eq_ok.1 read
      exact List.cons_ne_nil _ _
    · cases read
    · cases read
  refine (some_field.expecting.pair_left.map fun fields some_there shallow => ?_).commit
  obtain ⟨f, fs, e⟩ := List.exists_cons_of_ne_nil some_there
  exact absurd (Field.depthOf_le.1 shallow.2 f (e ▸ List.mem_cons_self)) (Nat.not_lt_zero _)

theorem curtails_fields (le : lower ≤ higher) {room room' : Nat} (less : room ≤ room') :
    (fieldsWithin lower room).Curtails (fieldsWithin higher room') False
      (Field.AllShallow lower room) := by
  refine Curtails.within (Field.AllShallow lower) (fun room room' h => ?_) less
  have whole : (opened '\x7b' ((inside (fieldsWithin lower) room).map
        fun fs => selectionBody (fieldWithin lower fs))).Curtails
      (opened '\x7b' ((inside (fieldsWithin higher) room').map
        fun fs => selectionBody (fieldWithin higher fs))) False (Field.AllShallow lower room) := by
    refine Curtails.opened h ?_ ?_
    · rintro left p q rfl hq h
      have fields := (curtails_field le h).many1 (Parser.settled_of_loose _)
      refine ((fields.expecting.pair_left (Parser.settled_of_loose _)).map fun found shallow => ?_).commit
      exact Field.allShallow_succ.1 shallow
    · rintro q rfl hq
      exact yields_selectionBody_deep.misses (Parser.settled_commit _)
  cases room <;> cases room' <;> exact whole

/-! ### Operations -/

theorem advances_definition (limit : Nat) : (definitionWithin limit).Advances := by
  have default : (defaultWithin limit).Stays :=
    (stays_punct '=').andThen (stays_value limit).commit.expecting
  have variable_name : Parser.Advances variableName :=
    (Parser.advances_char '$').bind fun _ => stays_name.commit
  refine variable_name.token.bind fun named input => ?_
  refine ((stays_punct ':').commit.expecting input).bind fun _ rest => ?_
  refine ((stays_type limit).commit.expecting rest).bind fun type rest => ?_
  exact (default.optional rest).map

/-- A variable definition is curtailed in its type and in its default. -/
theorem curtails_definition (le : lower ≤ higher) :
    (definitionWithin lower).Curtails (definitionWithin higher) False
      (VariableDefinition.Shallow lower) := by
  have default : (defaultWithin lower).Curtails (defaultWithin higher) False (·.depth ≤ lower) :=
    (curtails_value le).commit.expecting.andThen
  refine Curtails.after fun named => ?_
  refine Curtails.after fun _ => ?_
  refine (curtails_type le).commit.expecting.bind (fun type => ?_) ?_ fun type => ?_
  · exact default.optional.map fun found shallow => shallow.default
  · intro type rest d left read shallow
    obtain ⟨found, -, rfl⟩ := Reply.map_eq_ok.1 read
    exact shallow.type
  · exact (Parser.settled_optional _).map

theorem curtails_head (le : lower ≤ higher) :
    (headWithin lower).Curtails (headWithin higher) True
      fun head => ∀ d ∈ head.2, d.Shallow lower := by
  intro input
  simp only [headWithin]
  cases keyword "query" input with
  | ok _ rest =>
    have definitions : (definitionsWithin lower).Curtails (definitionsWithin higher) False
        fun found => ∀ d ∈ found, d.Shallow lower :=
      (curtails_definition le).group (advances_definition higher)
    refine Curtails.after (fun operationName => ?_) rest
    refine definitions.optional.map ?_
    rintro found shallow ds rfl
    exact shallow
  | soft trail => exact .inl rfl
  | hard trail => exact .inl rfl

/-- Under a lower limit the same operation is read, or there is a failure because
of nesting and the operation does not keep to that limit. -/
theorem curtails_operation (le : lower ≤ higher) :
    (operationWithin lower).Curtails (operationWithin higher) True (Operation.Shallow lower) := by
  intro input
  simp only [operationWithin]
  split
  · exact .inl rfl
  · refine (curtails_head le).bind (fun head => ?_) ?_ (fun _ => Parser.settled_of_loose _) input
    · refine ((curtails_fields le le).commit.expecting).map fun selection shallow => ?_
      exact shallow.selection
    · intro head rest op left read shallow
      obtain ⟨selection, -, rfl⟩ := Reply.map_eq_ok.1 read
      exact shallow.definitions

/-! ### Documents -/

/-- An operation that is read is shallow.  One that would be read under a higher
limit is read if it is shallow; if it is not, the document fails for good because
of nesting, and that is what is reported. -/
theorem parse_shallow (document : String) :
    (∀ op, parse document = .ok op → op.Shallow maxNesting) ∧
      ∀ limit op, maxNesting ≤ limit → parseWithin limit document = .ok op →
        (op.Shallow maxNesting → parse document = .ok op) ∧
        (¬op.Shallow maxNesting →
          ∃ rest trail, operation document.toList = .hard (⟨rest, tooDeep⟩ :: trail) ∧
            parse document = .error (⟨rest, tooDeep⟩ :: trail) ∧
            Trail.reported? (⟨rest, tooDeep⟩ :: trail) = some ⟨rest, tooDeep⟩) := by
  have accepted : ∀ op, parse document = .ok op → op.Shallow maxNesting := by
    intro op h
    rw [← parseWithin_maxNesting] at h
    exact shallow_parseWithin h
  refine ⟨accepted, fun limit op le h => ?_⟩
  obtain ⟨left, read⟩ := parseWithin_eq_ok h
  -- Either both limits read the document alike, or the lower one stopped at a level too deep.
  rcases curtails_operation le document.toList with same | ⟨⟨rest, trail, hard⟩, misses⟩
  · have read_too : parse document = .ok op := by
      rw [← parseWithin_maxNesting, parseWithin, same]
      exact h
    exact ⟨fun _ => read_too, fun deep => absurd (accepted op read_too) deep⟩
  · rw [read] at misses
    refine ⟨fun shallow => absurd shallow misses, fun _ => ?_⟩
    rw [operationWithin_maxNesting] at hard
    refine ⟨rest, trail, hard, ?_, Trail.reported_cons (by decide) rest trail⟩
    rw [parse, parseChars, hard]

namespace Sample

/-- Selection sets of one field, inside each other. -/
def nestedChars : Nat → List Char
  | 0 => []
  | n + 1 => '\x7b' :: 'a' :: (nestedChars n ++ ['\x7d'])

/-- A document with selection sets inside each other. -/
def nestedText (n : Nat) : String := String.ofList (nestedChars n)

theorem exists_of_any {result : Except Trail Operation} {test : Operation → Bool}
    (h : result.toOption.any test = true) : ∃ op, result = .ok op ∧ test op = true := by
  cases result with
  | ok op => exact ⟨op, rfl, h⟩
  | error trail => cases h

theorem nestedText_accepted : ∃ op, parse (nestedText 64) = .ok op := by
  have accepted : (parse (nestedText 64)).toOption.any (fun _ => true) = true := by
    rw [parse, nestedText, String.toList_ofList]
    decide +kernel
  obtain ⟨op, read, -⟩ := exists_of_any accepted
  exact ⟨op, read⟩

/-- With one selection set more it would be read under a limit that is higher by
one. -/
theorem nestedText_deep :
    ∃ op, parseWithin 65 (nestedText 65) = .ok op ∧ ¬op.Shallow maxNesting := by
  have deep : (parseWithin 65 (nestedText 65)).toOption.any
      (fun op => decide (maxNesting < Field.depthOf op.selection)) = true := by
    rw [parseWithin, nestedText, String.toList_ofList]
    decide +kernel
  obtain ⟨op, read, deeper⟩ := exists_of_any deep
  refine ⟨op, read, fun shallow => ?_⟩
  exact absurd shallow.selection.2 (Nat.not_le_of_gt (of_decide_eq_true deeper))

/-- The last depth that is accepted, and the first that is not. -/
theorem nested_documents :
    (∃ op, parse (nestedText 64) = .ok op ∧ op.Shallow maxNesting) ∧
      ∃ rest trail, parse (nestedText 65) = .error (⟨rest, tooDeep⟩ :: trail) := by
  obtain ⟨op, read⟩ := nestedText_accepted
  obtain ⟨op', read', deep⟩ := nestedText_deep
  obtain ⟨-, refused⟩ := (parse_shallow (nestedText 65)).2 65 op' (by decide) read'
  obtain ⟨rest, trail, -, refused, -⟩ := refused deep
  exact ⟨⟨op, read, (parse_shallow (nestedText 64)).1 op read⟩, rest, trail, refused⟩

end Sample

end EntityQuery.Document
