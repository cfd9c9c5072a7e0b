/-
EntityQuery/Proofs/Position.lean

Complaints stand at places of the document.

A parser leaves an end of the text that it is given, and complains only about
ends of it (`Parser.Stays`); this passes from the parts of a parser to the whole,
one lemma for each combinator.  A document that is refused is therefore reported
at a place of it: what was left is what the document ends with, so the length in
bytes of what is before falls between two characters, and the line and the column
are counted up to there (`describe_parse`).

Only the complaint that is reported need be at such a place.  After tokens that
were not expected a second one quotes what is left without its blanks, which is
no end of the document.
-/
import EntityQuery.Document.Describe
import EntityQuery.Proofs.Numerals
import EntityQuery.Proofs.Printing
import EntityQuery.Proofs.Strings
import Mathlib.Data.List.DropRight

namespace EntityQuery.Document

/-! ### Staying within a text -/

/-- Complaints, at least one, about ends of a text. -/
def Trail.Within (input : List Char) (trail : Trail) : Prop :=
  trail ≠ [] ∧ ∀ c ∈ trail, c.rest <:+ input

/-- A complaint at an ending of the input is within it. -/
theorem Trail.within_singleton {input left : List Char} {reason : String} (h : left <:+ input) :
    Trail.Within input [⟨left, reason⟩] :=
  ⟨List.cons_ne_nil _ _, List.forall_mem_singleton.2 h⟩

theorem Trail.within_append {input left : List Char} {trail : Trail} {reason : String}
    (h : Trail.Within input trail) (e : left <:+ input) :
    Trail.Within input (trail ++ [⟨left, reason⟩]) :=
  ⟨List.append_ne_nil_of_left_ne_nil h.1 _,
    List.forall_mem_append.2 ⟨h.2, List.forall_mem_singleton.2 e⟩⟩

namespace Reply

variable {α β : Type} {r : Reply α} {input left : List Char}

/-- What is left is an end of the text, and so is all that is complained about. -/
def Stays (input : List Char) : Reply α → Prop
  | .ok _ rest => rest <:+ input
  | .soft trail => Trail.Within input trail
  | .hard trail => Trail.Within input trail

theorem Stays.mono (h : r.Stays left) (e : left <:+ input) : r.Stays input := by
  cases r with
  | ok value rest => exact h.trans e
  | soft trail => exact ⟨h.1, fun c hc => (h.2 c hc).trans e⟩
  | hard trail => exact ⟨h.1, fun c hc => (h.2 c hc).trans e⟩

/-- A reply stays within its input if both parts do. -/
theorem Stays.bind {next : α → List Char → Reply β} (h : r.Stays input)
    (later : ∀ value rest, (next value rest).Stays rest) : (r.bind next).Stays input := by
  cases r with
  | ok value rest => exact (later value rest).mono h
  | soft trail => exact h
  | hard trail => exact h

theorem Stays.map {f : α → β} (h : r.Stays input) : (r.map f).Stays input :=
  h.bind fun _ _ => List.suffix_rfl

theorem Stays.addComplaint {reason : String} (h : r.Stays input) :
    (r.addComplaint ⟨input, reason⟩).Stays input := by
  cases r with
  | ok value rest => exact h
  | soft trail => exact Trail.within_append h List.suffix_rfl
  | hard trail => exact Trail.within_append h List.suffix_rfl

end Reply

namespace Parser

variable {α β : Type} {p : Parser α} {q : Parser β}

/-- On every text the parser stays within it. -/
def Stays (p : Parser α) : Prop := ∀ input, (p input).Stays input

theorem Stays.andThen (hp : p.Stays) (hq : q.Stays) : (andThen p q).Stays := fun input =>
  (hp input).bind fun _ => hq

theorem Stays.pair (hp : p.Stays) (hq : q.Stays) : (pair p q).Stays := fun input =>
  (hp input).bind fun _ rest => (hq rest).map

theorem Stays.map {f : α → β} (hp : p.Stays) : (p.map f).Stays := fun input => (hp input).map

theorem Stays.commit (hp : p.Stays) : p.commit.Stays := by
  intro input
  have here := hp input
  rw [Parser.commit]
  generalize p input = reply at here ⊢
  cases reply <;> exact here

theorem Stays.expecting {reason : String} (hp : p.Stays) : (p.expecting reason).Stays :=
  fun input => (hp input).addComplaint

theorem Stays.optional (hp : p.Stays) : p.optional.Stays := by
  intro input
  have here := hp input
  rw [Parser.optional]
  generalize p input = reply at here ⊢
  cases reply with
  | ok value rest => exact here
  | soft trail => exact List.suffix_rfl
  | hard trail => exact here

/-- A choice stays within its input if each of its parsers does. -/
theorem Stays.choice {ps : List (Parser α)} (h : ∀ p ∈ ps, p.Stays) : (choice ps).Stays := by
  -- What the last alternative complained about may be nothing before the first one.
  have from_any : ∀ last input, (∀ c ∈ last, c.rest <:+ input) →
      (choiceFrom last ps input).Stays input := by
    induction ps with
    | nil =>
      intro last input ends
      refine ⟨List.append_ne_nil_of_right_ne_nil _ (List.cons_ne_nil _ _), ?_⟩
      exact List.forall_mem_append.2 ⟨ends, List.forall_mem_singleton.2 List.suffix_rfl⟩
    | cons p ps ih =>
      obtain ⟨hp, hps⟩ := List.forall_mem_cons.1 h
      intro last input ends
      have here := hp input
      rw [choiceFrom]
      generalize p input = reply at here ⊢
      cases reply with
      | ok value rest => exact here
      | soft trail => exact ih hps trail input here.2
      | hard trail => exact here
  exact fun input => from_any [] input fun c hc => absurd hc List.not_mem_nil

theorem Stays.manyWithin (hp : p.Stays) (fuel : Nat) : (p.manyWithin fuel).Stays := by
  induction fuel with
  | zero => exact fun input => List.suffix_rfl
  | succ fuel ih =>
    intro input
    have here := hp input
    rw [Parser.manyWithin]
    generalize p input = reply at here ⊢
    cases reply with
    | ok value rest =>
      by_cases less : rest.length < input.length
      · simp only [if_pos less]
        exact ((ih rest).mono here).map
      · simp only [if_neg less]
        exact Trail.within_singleton List.suffix_rfl
    | soft trail => exact List.suffix_rfl
    | hard trail => exact here

theorem Stays.many (hp : p.Stays) : p.many.Stays := fun input =>
  hp.manyWithin (input.length + 1) input

theorem Stays.many1 (hp : p.Stays) : p.many1.Stays := by
  intro input
  have here := hp input
  rw [Parser.many1]
  generalize p input = reply at here ⊢
  cases reply with
  | ok value rest => exact ((hp.many rest).mono here).map
  | soft trail => exact Trail.within_append here List.suffix_rfl
  | hard trail => exact here

end Parser

/-! ### Tokens -/

/-- What follows ignored text is an ending of it. -/
theorem skipIgnoredFrom_suffix (comment : Bool) (text : List Char) :
    skipIgnoredFrom comment text <:+ text := by
  induction text generalizing comment with
  | nil => exact List.suffix_rfl
  | cons c rest ih =>
    have later : ∀ comment, skipIgnoredFrom comment rest <:+ c :: rest := fun comment =>
      (ih comment).trans (List.suffix_cons c rest)
    rw [skipIgnoredFrom]
    split
    · split <;> exact later _
    · split
      · exact later _
      · split
        · exact later _
        · exact List.suffix_rfl

theorem Parser.Stays.token {α : Type} {p : Parser α} (hp : p.Stays) : (token p).Stays := by
  intro input
  have skipped : ∀ text, skipIgnored text <:+ text := skipIgnoredFrom_suffix false
  exact ((hp (skipIgnored input)).mono (skipped input)).bind fun _ rest => skipped rest

theorem stays_char (c : Char) : Parser.Stays (char c) := by
  intro input
  cases input with
  | nil => exact Trail.within_singleton List.suffix_rfl
  | cons d rest =>
    rw [char]
    split
    · exact List.suffix_cons d rest
    · exact Trail.within_singleton List.suffix_rfl

theorem stays_punct (c : Char) : Parser.Stays (punct c) := (stays_char c).token

theorem stays_name : Parser.Stays name := by
  intro input
  cases input with
  | nil => exact ⟨List.cons_ne_nil _ _, by simp⟩
  | cons c rest =>
    rw [name]
    split
    · exact (List.dropWhile_suffix _).trans (List.suffix_cons c rest)
    · exact ⟨List.cons_ne_nil _ _, by simp⟩

/-- A word is taken off where it stands. -/
theorem stripWord_eq_some {word text rest : List Char} :
    stripWord word text = some rest ↔ text = word ++ rest := by
  induction word generalizing text with
  | nil => simp [stripWord]
  | cons w ws ih =>
    cases text with
    | nil => simp [stripWord]
    | cons c text =>
      rw [stripWord, List.cons_append, List.cons.injEq]
      split
      · next same => rw [ih, eq_comm (a := c), and_iff_right same]
      · next other => simp [Ne.symm other]

theorem stays_keyword (word : String) : Parser.Stays (keyword word) := by
  refine Parser.Stays.token fun input => ?_
  split
  · next rest found =>
    have left : rest <:+ input := ⟨word.toList, (stripWord_eq_some.1 found).symm⟩
    split
    · exact Trail.within_singleton left
    · exact left
  · exact Trail.within_singleton List.suffix_rfl

/-! ### Values -/

/-- A string that was begun is wrong at its opening quote or at an escape. -/
theorem stays_stringFrom {opening read text whole : List Char} (quote : opening <:+ whole)
    (left : text <:+ whole) : (stringFrom opening read text).Stays whole := by
  fun_induction stringFrom opening read text with
  | case1 | case8 => exact Trail.within_singleton quote
  | case3 | case4 | case6 => exact Trail.within_singleton left
  | case2 read a b c d after decoded code ih =>
    exact ih ((List.suffix_append ['\\', 'u', a, b, c, d] after).trans left)
  | case5 read e after other decoded short ih =>
    exact ih ((List.suffix_append ['\\', e] after).trans left)
  | case7 read after => exact (List.suffix_cons '"' after).trans left
  | case9 read after no_code no_escape =>
    -- A backslash that no escape begins with is the last character.
    cases after with
    | nil => exact Trail.within_singleton left
    | cons e after => exact (no_escape e after rfl rfl).elim
  | case10 read c after no_code no_escape quote feed backslash ih =>
    exact ih ((List.suffix_cons c after).trans left)

theorem stays_string : Parser.Stays string := by
  intro input
  rw [string.eq_def]
  split
  · next body => exact stays_stringFrom List.suffix_rfl (List.suffix_cons '"' body)
  · exact Trail.within_singleton List.suffix_rfl

theorem stays_number : Parser.Stays number := by
  intro input
  cases readsNumber input with
  | none left read =>
    rw [read]
    exact Trail.within_singleton left
  | int longest spells range read =>
    rw [read]
    exact ⟨_, longest.split.symm⟩
  | large longest spells range read =>
    rw [read]
    exact Trail.within_singleton List.suffix_rfl
  | float longest spells read =>
    rw [read]
    exact ⟨_, longest.split.symm⟩

theorem Parser.Stays.opened {α : Type} {bracket : Char} {body : Option (Parser α)}
    (h : ∀ p, body = some p → p.Stays) : (opened bracket body).Stays := by
  intro input
  have here := stays_punct bracket input
  rw [Document.opened]
  generalize punct bracket input = reply at here ⊢
  cases reply with
  | ok c inner =>
    cases body with
    | none => exact Trail.within_singleton List.suffix_rfl
    | some p => exact (h p rfl inner).mono here
  | soft trail => exact here
  | hard trail => exact here

theorem stays_variableName : Parser.Stays variableName := (stays_char '$').andThen stays_name.commit

theorem stays_entry {item : Parser Value} (h : item.Stays) : (entry item).Stays :=
  stays_name.token.pair ((stays_punct ':').commit.expecting.andThen h.commit.expecting)

/-- A value stays within its input if the values in it do. -/
theorem stays_valueOver {item : Option (Parser Value)} (h : ∀ p, item = some p → p.Stays) :
    (valueOver item).Stays := by
  refine (Parser.Stays.choice ?_).token
  simp only [List.forall_mem_cons]
  refine ⟨stays_variableName.map, stays_string.map, stays_number, ?_, ?_, stays_name.map,
    fun p hp => absurd hp List.not_mem_nil⟩
  · refine Parser.Stays.opened fun body e => ?_
    obtain ⟨p, hp, rfl⟩ := Option.map_eq_some_iff.1 e
    exact ((h p hp).many.pair (stays_punct ']')).map.expecting.commit
  · refine Parser.Stays.opened fun body e => ?_
    obtain ⟨p, hp, rfl⟩ := Option.map_eq_some_iff.1 e
    exact ((stays_entry (h p hp)).many.pair (stays_punct '\x7d').commit.expecting).map

theorem stays_value (room : Nat) : (valueWithin room).Stays := by
  induction room with
  | zero => exact stays_valueOver nofun
  | succ room ih =>
    refine stays_valueOver fun p e => ?_
    cases e
    exact ih

/-! ### Operations -/

theorem Parser.Stays.group {α : Type} {p : Parser α} {reason : String} (hp : p.Stays) :
    (group p reason).Stays :=
  (stays_punct '(').andThen (hp.many1.pair (stays_punct ')').commit.expecting).map

theorem stays_arguments : Parser.Stays arguments := by
  have one : Parser.Stays argument :=
    stays_name.token.pair
      ((stays_punct ':').commit.expecting.andThen (stays_value maxNesting).commit.expecting)
  exact one.group

/-- A field stays within its input if its selection does. -/
theorem stays_fieldOver {selection : Parser (List Field)} (h : selection.Stays) :
    (fieldOver selection).Stays := by
  have second : Parser.Stays aliased := (stays_punct ':').andThen stays_name.token.commit
  intro input
  refine (stays_name.token input).bind fun first rest => ?_
  refine (second.optional rest).bind fun other rest => ?_
  refine (stays_arguments.optional rest).bind fun args rest => ?_
  exact (h.optional rest).bind fun fields rest => List.suffix_rfl

theorem stays_selection (room : Nat) : (selectionWithin room).Stays := by
  induction room with
  | zero => exact Parser.Stays.opened nofun
  | succ room ih =>
    refine Parser.Stays.opened fun body e => ?_
    cases e
    exact ((stays_fieldOver ih).many1.expecting.pair (stays_punct '\x7d').expecting).map.commit

theorem stays_typeOver {item : Option (Parser TypeRef)} (h : ∀ p, item = some p → p.Stays) :
    (typeOver item).Stays := by
  have base : (Parser.choice [opened '[' (item.map listTypeBody),
      Parser.map TypeRef.named (token name)]).Stays := by
    refine Parser.Stays.choice ?_
    simp only [List.forall_mem_cons]
    refine ⟨?_, stays_name.token.map, fun p hp => absurd hp List.not_mem_nil⟩
    refine Parser.Stays.opened fun body e => ?_
    obtain ⟨p, hp, rfl⟩ := Option.map_eq_some_iff.1 e
    exact ((h p hp).pair (stays_punct ']').commit.expecting).map
  intro input
  exact (base input).bind fun _ rest => ((stays_punct '!').optional rest).map

theorem stays_type (room : Nat) : (typeWithin room).Stays := by
  induction room with
  | zero => exact stays_typeOver nofun
  | succ room ih =>
    refine stays_typeOver fun p e => ?_
    cases e
    exact ih

theorem stays_definitions : Parser.Stays variableDefinitions := by
  have default : Parser.Stays defaultValue :=
    (stays_punct '=').andThen (stays_value maxNesting).commit.expecting
  have one : Parser.Stays variableDefinition := by
    intro input
    refine (stays_variableName.token input).bind fun named rest => ?_
    refine ((stays_punct ':').commit.expecting rest).bind fun _ rest => ?_
    refine ((stays_type maxNesting).commit.expecting rest).bind fun type rest => ?_
    exact (default.optional rest).map
  exact one.group

theorem stays_head : Parser.Stays operationHead := by
  intro input
  have here := stays_keyword "query" input
  rw [operationHead]
  generalize keyword "query" input = reply at here ⊢
  cases reply with
  | ok _ rest =>
    refine Reply.Stays.mono ?_ here
    exact (stays_name.token.optional rest).bind fun operationName rest =>
      (stays_definitions.optional rest).map
  | soft trail => exact List.suffix_rfl
  | hard trail => exact here

/-- Whatever is complained about is what the document ends with. -/
theorem stays_operation : Parser.Stays operation := by
  intro input
  rw [operation]
  split
  · exact Trail.within_singleton List.suffix_rfl
  · refine (stays_head input).bind fun head rest => ?_
    exact ((stays_selection maxNesting).commit.expecting rest).map

/-! ### The complaint that is reported -/

/-- The reason says no more than that something failed. -/
def Complaint.Vague (c : Complaint) : Prop := unknownReason.toList <+: c.reason.toList

/-- A complaint is specific if it is not vague. -/
theorem isSpecific_iff {c : Complaint} : c.isSpecific = true ↔ ¬c.Vague := by
  rw [Complaint.isSpecific, Option.isNone_iff_eq_none, Option.eq_none_iff_forall_ne_some]
  constructor
  · rintro none_left ⟨rest, e⟩
    exact none_left rest (stripWord_eq_some.2 e.symm)
  · intro specific rest found
    exact specific ⟨rest, (stripWord_eq_some.1 found).symm⟩

/-- The first complaint that is not vague, or the first one if all are. -/
def Trail.Speaks (trail : Trail) (c : Complaint) : Prop :=
  (∃ earlier later, trail = earlier ++ c :: later ∧ (∀ d ∈ earlier, d.Vague) ∧ ¬c.Vague) ∨
    (∀ d ∈ trail, d.Vague) ∧ trail.head? = some c

theorem Trail.speaks_of_reported {trail : Trail} {c : Complaint}
    (h : Trail.reported? trail = some c) : Trail.Speaks trail c := by
  rw [Trail.reported?] at h
  -- The first specific complaint is reported, or else the first of all.
  cases found : trail.find? Complaint.isSpecific with
  | some d =>
    rw [found] at h
    cases h
    obtain ⟨specific, earlier, later, e, vague⟩ := List.find?_eq_some_iff_append.1 found
    refine .inl ⟨earlier, later, e, fun d hd => ?_, isSpecific_iff.1 specific⟩
    by_contra other
    have none_before := vague d hd
    rw [isSpecific_iff.2 other] at none_before
    cases none_before
  | none =>
    rw [found, Option.none_or] at h
    refine .inr ⟨fun d hd => ?_, h⟩
    by_contra other
    exact List.find?_eq_none.1 found d hd (isSpecific_iff.2 other)

/-- Some complaint of a trail is reported, if there is one. -/
theorem Trail.exists_reported {trail : Trail} (h : trail ≠ []) :
    ∃ c ∈ trail, Trail.reported? trail = some c := by
  rw [Trail.reported?]
  cases found : trail.find? Complaint.isSpecific with
  | some c => exact ⟨c, List.mem_of_find?_eq_some found, rfl⟩
  | none =>
    obtain ⟨c, later, rfl⟩ := List.exists_cons_of_ne_nil h
    exact ⟨c, List.mem_cons_self, rfl⟩

/-- A first complaint with a reason of its own is reported. -/
theorem Trail.reported_cons {reason : String}
    (own : (stripWord unknownReason.toList reason.toList).isNone = true) (rest : List Char)
    (trail : Trail) : Trail.reported? (⟨rest, reason⟩ :: trail) = some ⟨rest, reason⟩ := by
  have specific : Complaint.isSpecific ⟨rest, reason⟩ = true := own
  rw [Trail.reported?, List.find?_cons_of_pos specific, Option.some_or]

/-- A rejected document has a complaint that is reported, at one of its
endings. -/
theorem reported_parse {document : String} {trail : Trail} (h : parse document = .error trail) :
    ∃ c, Trail.reported? trail = some c ∧ c.rest <:+ document.toList := by
  have reported : ∀ {trail}, Trail.Within document.toList trail →
      ∃ c, Trail.reported? trail = some c ∧ c.rest <:+ document.toList := by
    intro trail within
    obtain ⟨c, hc, reported⟩ := Trail.exists_reported within.1
    exact ⟨c, reported, within.2 c hc⟩
  have here := stays_operation document.toList
  simp only [parse, parseChars] at h
  split at h
  · next op rest read =>
    rw [read] at here
    split at h
    · cases h
    · cases h
      -- The first of the two complaints is reported, and only the second is trimmed.
      exact ⟨_, Trail.reported_cons (by decide) rest _, here⟩
  · next trail read =>
    rw [read] at here
    cases h
    exact reported here
  · next trail read =>
    rw [read] at here
    cases h
    exact reported here

/-! ### Places -/

/-- A place in a text: the lines above it, what stands before it on its line, and
what is left from there on. -/
structure Place (source : List Char) where
  above : List Char
  current : List Char
  rest : List Char
  split : source = above ++ current ++ rest
  ended : above = [] ∨ ∃ lines, above = lines ++ ['\n']
  unbroken : '\n' ∉ current

namespace Place

variable {source : List Char}

/-- The line of a place: one more than the line ends before it. -/
def line (p : Place source) : Nat := (p.above ++ p.current).count '\n' + 1

/-- The column of a place: one more than the characters before it on its line. -/
def column (p : Place source) : Nat := p.current.length + 1

/-- The beginning of what is left, without blanks at either end. -/
def excerpt (p : Place source) : String := String.ofList (Text.trim (p.rest.take 20))

/-- Every end of a text is left at a place. -/
theorem exists_of_suffix {rest : List Char} (h : rest <:+ source) :
    ∃ p : Place source, p.rest = rest := by
  obtain ⟨before, rfl⟩ := h
  let above := before.rdropWhile (· ≠ '\n')
  have ended : above = [] ∨ ∃ lines, above = lines ++ ['\n'] := by
    by_cases none_above : above = []
    · exact .inl none_above
    · have last : above.getLast none_above = '\n' := by
        have stop := List.rdropWhile_last_not _ before none_above
        rwa [decide_eq_true_eq, not_not] at stop
      refine .inr ⟨above.dropLast, ?_⟩
      rw [← last, List.dropLast_append_getLast]
  refine ⟨⟨above, before.rtakeWhile (· ≠ '\n'), rest, ?_, ended, fun feed => ?_⟩, rfl⟩
  · rw [List.rdropWhile_append_rtakeWhile]
  · have other := List.mem_rtakeWhile_imp feed
    exact absurd rfl (of_decide_eq_true other)

/-- The column of a place is that behind what stands before it. -/
theorem columnAfter_eq (p : Place source) : columnAfter (p.above ++ p.current) = p.column := by
  have here : ∀ c ∈ p.current.reverse, decide (c ≠ '\n') = true := fun c hc =>
    decide_eq_true fun feed => p.unbroken (feed ▸ List.mem_reverse.1 hc)
  have nothing_above : p.above.reverse.takeWhile (fun c => decide (c ≠ '\n')) = [] := by
    rcases p.ended with none_above | ⟨lines, e⟩
    · rw [none_above, List.reverse_nil, List.takeWhile_nil]
    · rw [e, List.reverse_append, List.reverse_singleton, List.singleton_append,
        List.takeWhile_cons_of_neg (by decide)]
  rw [columnAfter, List.reverse_append, List.takeWhile_append_of_pos here, nothing_above,
    List.append_nil, List.length_reverse, column]

end Place

/-! ### Bytes -/

/-- The length in bytes is that of the string. -/
theorem byteLength_eq (text : List Char) : byteLength text = (String.ofList text).utf8ByteSize := by
  have from_any : ∀ n, text.foldl (fun n c => n + c.utf8Size) n =
      n + (String.ofList text).utf8ByteSize := by
    induction text with
    | nil => exact fun n => rfl
    | cons c text ih =>
      intro n
      rw [List.foldl_cons, ih, String.ofList_cons, String.utf8ByteSize_append,
        String.utf8ByteSize_singleton, Nat.add_assoc]
  rw [byteLength, from_any, Nat.zero_add]

theorem byteLength_append (before rest : List Char) :
    byteLength (before ++ rest) = byteLength before + byteLength rest := by
  rw [byteLength_eq, String.ofList_append, String.utf8ByteSize_append, ← byteLength_eq,
    ← byteLength_eq]

theorem byteLength_cons (c : Char) (rest : List Char) :
    byteLength (c :: rest) = c.utf8Size + byteLength rest := by
  rw [byteLength_eq, String.ofList_cons, String.utf8ByteSize_append,
    String.utf8ByteSize_singleton, ← byteLength_eq]

/-- The bytes of the first characters of a text are those of no other ones. -/
theorem takeBytes_append (before rest : List Char) :
    takeBytes (byteLength before) (before ++ rest) = before := by
  induction before with
  | nil =>
    cases rest with
    | nil => rfl
    | cons c rest => exact if_neg (Nat.not_le_of_gt c.utf8Size_pos)
  | cons c before ih =>
    rw [List.cons_append, takeBytes, byteLength_cons, if_pos (Nat.le_add_right _ _),
      Nat.add_sub_cancel_left, ih]

/-- What was consumed is what stands before the rest. -/
theorem consumed_append (before rest : List Char) : consumed (before ++ rest) rest = before := by
  rw [consumed, byteLength_append, Nat.add_sub_cancel, takeBytes_append]

theorem Place.consumed_eq {source : List Char} (p : Place source) :
    consumed source p.rest = p.above ++ p.current := by
  have taken := consumed_append (p.above ++ p.current) p.rest
  rwa [← p.split] at taken

/-! ### The report -/

/-- The bytes before an end of a string end between two of its characters. -/
theorem isValid_of_suffix {document : String} {rest : List Char} (h : rest <:+ document.toList) :
    String.Pos.Raw.IsValid document
      ⟨document.utf8ByteSize - (String.ofList rest).utf8ByteSize⟩ := by
  obtain ⟨before, e⟩ := h
  have whole : document = String.ofList before ++ String.ofList rest := by
    rw [← String.ofList_append, e, String.ofList_toList]
  refine String.Pos.Raw.isValid_iff_exists_append.2 ⟨_, _, whole, ?_⟩
  rw [whole, String.utf8ByteSize_append, Nat.add_sub_cancel]
  rfl

/-- A document that is refused is reported where the complaint that speaks for the
trail stands: at a place of the document, between two of its characters, with the
line and the column of that place and the text that begins there. -/
theorem describe_parse {document : String} {trail : Trail} (h : parse document = .error trail) :
    ∃ (c : Complaint) (p : Place document.toList), Trail.Speaks trail c ∧ c.rest = p.rest ∧
      String.Pos.Raw.IsValid document
        ⟨document.utf8ByteSize - (String.ofList c.rest).utf8ByteSize⟩ ∧
      consumed document.toList c.rest = p.above ++ p.current ∧
      Trail.describe trail document = c.reason ++ " at line " ++ toString p.line ++ ", column " ++
        toString p.column ++
          (if p.excerpt.isEmpty then " (end of input)" else " near '" ++ p.excerpt ++ "'") := by
  obtain ⟨c, reported, left⟩ := reported_parse h
  -- A place is told by what is left of the document, which is an ending of it.
  obtain ⟨p, rest_eq⟩ := Place.exists_of_suffix left
  have before : consumed document.toList c.rest = p.above ++ p.current := by
    rw [← rest_eq, p.consumed_eq]
  refine ⟨c, p, Trail.speaks_of_reported reported, rest_eq.symm, isValid_of_suffix left, before, ?_⟩
  have line : lineAfter (p.above ++ p.current) = p.line := rfl
  simp only [Trail.describe, reported, Complaint.report, before, line, Place.columnAfter_eq]
  rw [← rest_eq, ← Place.excerpt]
  split
  · rfl
  · simp only [String.append_assoc]

namespace Sample

/-- A document of two lines, with a character of two bytes on the first and a value
missing on the second. -/
def unfinished : String := "\x7b # é\n  a(b: ?) \x7d"

theorem unfinished_refused : ∃ trail, parse unfinished = .error trail ∧
    Trail.describe trail unfinished =
      "Expected argument value at line 2, column 8 near '?) \x7d'" := by
  have refused : (match parse unfinished with
      | .ok _ => none
      | .error trail => some (Trail.describe trail unfinished)) =
      some "Expected argument value at line 2, column 8 near '?) \x7d'" := by decide +kernel
  cases h : parse unfinished with
  | ok op =>
    rw [h] at refused
    cases refused
  | error trail =>
    rw [h] at refused
    exact ⟨trail, rfl, Option.some_inj.1 refused⟩

theorem unfinished_place :
    ∃ (trail : Trail) (c : Complaint) (p : Place unfinished.toList),
      parse unfinished = .error trail ∧ Trail.Speaks trail c ∧ c.rest = p.rest ∧
        Trail.describe trail unfinished =
          "Expected argument value at line 2, column 8 near '?) \x7d'" := by
  obtain ⟨trail, refused, report⟩ := unfinished_refused
  obtain ⟨c, p, speaks, left, -⟩ := describe_parse refused
  exact ⟨trail, c, p, refused, speaks, left, report⟩

end Sample

end EntityQuery.Document
