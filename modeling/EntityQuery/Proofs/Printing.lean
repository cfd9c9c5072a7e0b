/-
EntityQuery/Proofs/Printing.lean

Parsing undoes printing.

An operation is a sequence of words (`Operation.lexemes`), and a text prints it
if these words are written in it, each followed by ignored text.  However this
is done, the text is parsed as the operation and nothing else
(`parse_of_prints`).

Not every operation can be written.  Integers have 64 bits, the words `true`,
`false` and `null` are no enum values, a type carries at most one non-null
mark, and values, types and selection sets nest up to `maxNesting`
(`Operation.Writable`).  The inductions follow how the parts nest, and what is
left of the room for nesting goes down with the parser's.
-/
import EntityQuery.Proofs.Reads

namespace EntityQuery.Document

/-! ### Values as words -/

mutual
/-- The words of a value. -/
def Value.lexemes : Value → List Lexeme
  | .variable name => [.dollar name]
  | .int i => [.int i]
  | .float x => [.float x]
  | .string s => [.string s]
  | .boolean b => [.name (if b then "true" else "false")]
  | .null => [.name "null"]
  | .enum name => [.name name]
  | .list items => .punct '[' :: (Value.itemLexemes items ++ [.punct ']'])
  | .object entries => .punct '\x7b' :: (Value.entryLexemes entries ++ [.punct '\x7d'])
/-- The words of the items of a list. -/
def Value.itemLexemes : List Value → List Lexeme
  | [] => []
  | v :: vs => v.lexemes ++ Value.itemLexemes vs
/-- The words of the entries of an object. -/
def Value.entryLexemes : List (String × Value) → List Lexeme
  | [] => []
  | (name, v) :: es => (.name name :: .punct ':' :: v.lexemes) ++ Value.entryLexemes es
end

/-- The words of a name and its value. -/
def namedLexemes (entry : String × Value) : List Lexeme :=
  .name entry.1 :: .punct ':' :: entry.2.lexemes

theorem Value.itemLexemes_eq (items : List Value) :
    Value.itemLexemes items = items.flatMap Value.lexemes := by
  induction items with
  | nil => rfl
  | cons v vs ih => rw [Value.itemLexemes, List.flatMap_cons, ih]

theorem Value.entryLexemes_eq (entries : List (String × Value)) :
    Value.entryLexemes entries = entries.flatMap namedLexemes := by
  induction entries with
  | nil => rfl
  | cons e es ih =>
    obtain ⟨name, v⟩ := e
    rw [Value.entryLexemes, List.flatMap_cons, ih]
    rfl

/-- Every value is printed as something. -/
theorem Value.lexemes_ne_nil (v : Value) : v.lexemes ≠ [] := by
  cases v <;> simp [Value.lexemes]

/-- A value that can be written with at most `room` lists and objects one in the
other. -/
inductive Value.Fits : Nat → Value → Prop
  | reference (room : Nat) (name : String) : Fits room (.variable name)
  | int (room : Nat) {i : Int} (range : IntegerRange.int64.has i = true) : Fits room (.int i)
  | float (room : Nat) (x : Binary64) : Fits room (.float x)
  | string (room : Nat) (s : String) : Fits room (.string s)
  | boolean (room : Nat) (b : Bool) : Fits room (.boolean b)
  | null (room : Nat) : Fits room .null
  | enum (room : Nat) {name : String} (free : name ∉ ["true", "false", "null"]) :
      Fits room (.enum name)
  | list {room : Nat} {items : List Value} (fits : ∀ v ∈ items, Fits room v) :
      Fits (room + 1) (.list items)
  | object {room : Nat} {entries : List (String × Value)} (fits : ∀ e ∈ entries, Fits room e.2) :
      Fits (room + 1) (.object entries)

/-! ### Reading values -/

/-- The values that containers may hold where `room` of them fit. -/
def itemsWithin : Nat → Option (Parser Value)
  | 0 => none
  | room + 1 => some (valueWithin room)

theorem valueWithin_eq (room : Nat) : valueWithin room = valueOver (itemsWithin room) := by
  cases room <;> rfl

/-- No name begins with a digit. -/
theorem isNameStart_not_digit {c : Char} (h : isNameStart c = true) : c.isDigit = false := by
  rw [Bool.eq_false_iff]
  intro digit
  have upper : c.val ≤ '9'.val := (isDigit_iff.1 digit).2
  rcases Bool.or_eq_true_iff.1 h with letter | mark
  · rcases Bool.or_eq_true_iff.1 letter with capital | small
    · have lower : 'A'.val ≤ c.val := (of_decide_eq_true capital).1
      exact absurd (UInt32.le_trans lower upper) (by decide)
    · have lower : 'a'.val ≤ c.val := of_decide_eq_true (Bool.and_eq_true_iff.1 small).1
      exact absurd (UInt32.le_trans lower upper) (by decide)
  · rw [of_decide_eq_true mark] at upper
    exact absurd upper (by decide)

/-- The first character of a name is none that other values begin with. -/
theorem isNameStart_apart {c : Char} (h : isNameStart c = true) :
    c ≠ '$' ∧ c ≠ '"' ∧ (c.isDigit || c = '-') = false ∧ c ≠ '[' ∧ c ≠ '\x7b' := by
  have digit := isNameStart_not_digit h
  refine ⟨?_, ?_, ?_, ?_, ?_⟩
  · rintro rfl
    cases h
  · rintro rfl
    cases h
  · rw [digit, Bool.false_or, decide_eq_false_iff_not]
    rintro rfl
    cases h
  · rintro rfl
    cases h
  · rintro rfl
    cases h

/-- A word is no value of another kind. -/
theorem declines_name {item : Option (Parser Value)} (s : String) :
    ∀ q ∈ [Parser.map Value.variable variableName, Parser.map Value.string string, number,
        opened '[' (item.map listBody), opened '\x7b' (item.map objectBody)],
      q.Declines (Parser.leads (.name s)) := by
  have apart := fun c (h : (Lexeme.name s).begins c = true) => isNameStart_apart h
  simp only [List.forall_mem_cons]
  refine ⟨?_, ?_, ?_, ?_, ?_, fun q hq => absurd hq List.not_mem_nil⟩
  · exact (Parser.starts_char '$').andThen.map.declines_leads fun c h => decide_eq_false (apart c h).1
  · exact Parser.starts_string.map.declines_leads fun c h => decide_eq_false (apart c h).2.1
  · exact Parser.starts_number.declines_leads fun c h => (apart c h).2.2.1
  · exact (Parser.starts_opened _ _).declines_leads fun c h => decide_eq_false (apart c h).2.2.2.1
  · exact (Parser.starts_opened _ _).declines_leads fun c h => decide_eq_false (apart c h).2.2.2.2

theorem reads_wordValue (item : Option (Parser Value)) (s : String) :
    (valueOver item).Reads [.name s] (wordValue s) Parser.anything := by
  refine Parser.Reads.token_choice (declines_name s) ?_
  refine Parser.reads_token ?_
  intro word spells
  cases spells with
  | name named =>
    have took := (takes_name named).map wordValue
    rwa [String.ofList_toList] at took

/-- A variable is read behind its dollar. -/
theorem reads_reference {item : Option (Parser Value)} (s : String) :
    (valueOver item).Reads [.dollar s] (.variable s) Parser.anything := by
  refine Parser.Reads.token_choice (List.forall_mem_nil _) ?_
  refine Parser.reads_token ?_
  intro word spells
  cases spells with
  | dollar named =>
    have took := (takes_variableName named).map Value.variable
    rwa [String.ofList_toList] at took

theorem reads_stringValue {item : Option (Parser Value)} (s : String) :
    (valueOver item).Reads [.string s] (.string s) Parser.anything := by
  have no_reference : (Parser.map Value.variable variableName).Declines
      (Parser.leads (.string s)) := by
    refine (Parser.starts_char '$').andThen.map.declines_leads fun c h => decide_eq_false ?_
    rintro rfl
    cases h
  refine Parser.Reads.token_choice (List.forall_mem_singleton.2 no_reference) ?_
  refine Parser.reads_token ?_
  intro word spells
  cases spells with
  | string quoted =>
    have took := (takes_string quoted).map Value.string
    rwa [String.ofList_toList] at took

/-- A number is no variable and no string. -/
theorem declines_number {l : Lexeme}
    (h : ∀ c, l.begins c = true → (c.isDigit || c = '-') = true) :
    ∀ q ∈ [Parser.map Value.variable variableName, Parser.map Value.string string],
      q.Declines (Parser.leads l) := by
  simp only [List.forall_mem_cons]
  refine ⟨?_, ?_, fun q hq => absurd hq List.not_mem_nil⟩
  · refine (Parser.starts_char '$').andThen.map.declines_leads fun c hc => decide_eq_false ?_
    rintro rfl
    cases h _ hc
  · refine Parser.starts_string.map.declines_leads fun c hc => decide_eq_false ?_
    rintro rfl
    cases h _ hc

theorem reads_int {item : Option (Parser Value)} {i : Int}
    (range : IntegerRange.int64.has i = true) :
    (valueOver item).Reads [.int i] (.int i) Parser.anything := by
  refine Parser.Reads.token_choice (declines_number (l := .int i) fun c h => h) ?_
  refine Parser.reads_token ?_
  intro word spells
  cases spells with
  | int negative digits => exact takes_int negative digits range

theorem reads_float {item : Option (Parser Value)} (x : Binary64) :
    (valueOver item).Reads [.float x] (.float x) Parser.anything := by
  refine Parser.Reads.token_choice (declines_number (l := .float x) fun c h => h) ?_
  refine Parser.reads_token ?_
  intro word spells
  cases spells with
  | float negative text => exact takes_float negative text

/-- A bracket begins no word. -/
theorem declines_bracket {c : Char} (h : c = '[' ∨ c = '\x7b') :
    ∀ q ∈ [Parser.map Value.variable variableName, Parser.map Value.string string, number],
      q.Declines (Parser.leads (.punct c)) := by
  simp only [List.forall_mem_cons]
  refine ⟨?_, ?_, ?_, fun q hq => absurd hq List.not_mem_nil⟩
  · refine (Parser.starts_char '$').andThen.map.declines_punct ?_
    rcases h with rfl | rfl <;> rfl
  · refine Parser.starts_string.map.declines_punct ?_
    rcases h with rfl | rfl <;> rfl
  · refine Parser.starts_number.declines_punct ?_
    rcases h with rfl | rfl <;> rfl

/-- The characters that a value begins with. -/
def beginsValue (c : Char) : Bool :=
  c = '$' || c = '"' || (c.isDigit || c = '-') || c = '[' || c = '\x7b' || isNameStart c

/-- Values start like values, within any depth. -/
theorem starts_valueWithin (room : Nat) : (valueWithin room).Starts beginsValue := by
  rw [valueWithin_eq]
  refine (Parser.Starts.choice ?_).token
  simp only [List.forall_mem_cons]
  refine ⟨?_, ?_, ?_, ?_, ?_, ?_, fun q hq => absurd hq List.not_mem_nil⟩
  · exact (Parser.starts_char '$').andThen.map.mono fun c h => by simp_all [beginsValue]
  · exact Parser.starts_string.map.mono fun c h => by simp_all [beginsValue]
  · exact Parser.starts_number.mono fun c h => by simp_all [beginsValue]
  · exact (Parser.starts_opened _ _).mono fun c h => by simp_all [beginsValue]
  · exact (Parser.starts_opened _ _).mono fun c h => by simp_all [beginsValue]
  · exact Parser.starts_name.map.mono fun c h => by simp_all [beginsValue]

/-- A list is read if its items are, one level less deep. -/
theorem reads_list {room : Nat} {items : List Value}
    (h : ∀ v ∈ items, (valueWithin room).Reads v.lexemes v Parser.anything) :
    (valueWithin (room + 1)).Reads (Value.list items).lexemes (.list items) Parser.anything := by
  have each : Parser.ReadsEach (valueWithin room) Value.lexemes Parser.anything items :=
    fun v hv => ⟨h v hv, v.lexemes_ne_nil, fun _ => trivial⟩
  have stop : (valueWithin room).Declines (Parser.leads (.punct ']')) :=
    (starts_valueWithin room).declines_punct rfl
  have body : (listBody (valueWithin room)).Reads
      (items.flatMap Value.lexemes ++ [.punct ']']) (.list items) Parser.anything :=
    ((each.many stop fun _ _ => trivial).pair (Parser.reads_punct ']')
      fun _ _ => rfl).map.expecting.commit
  rw [Value.lexemes, Value.itemLexemes_eq]
  exact Parser.Reads.token_choice (declines_bracket (.inl rfl)) (body.opened '[').token

/-- A name, a colon and a value. -/
theorem reads_named {item : Parser Value} {e : String × Value} {colon expected : String}
    (h : item.Reads e.2.lexemes e.2 Parser.anything) :
    (Parser.pair (token name) (Parser.andThen
      (Parser.expecting colon (Parser.commit (punct ':')))
      (Parser.expecting expected (Parser.commit item)))).Reads (namedLexemes e) e
        Parser.anything :=
  Parser.reads_name.pair
    ((Parser.reads_punct ':').commit.expecting.andThen h.commit.expecting fun _ _ => trivial)
    fun _ _ => trivial

theorem reads_object {room : Nat} {entries : List (String × Value)}
    (h : ∀ e ∈ entries, (valueWithin room).Reads e.2.lexemes e.2 Parser.anything) :
    (valueWithin (room + 1)).Reads (Value.object entries).lexemes (.object entries)
      Parser.anything := by
  have each : Parser.ReadsEach (entry (valueWithin room)) namedLexemes Parser.anything entries :=
    fun e he => ⟨reads_named (h e he), List.cons_ne_nil _ _, fun _ => trivial⟩
  have stop : (entry (valueWithin room)).Declines (Parser.leads (.punct '\x7d')) :=
    Parser.starts_name.token.pair.declines_punct rfl
  have body : (objectBody (valueWithin room)).Reads
      (entries.flatMap namedLexemes ++ [.punct '\x7d']) (.object entries) Parser.anything :=
    ((each.many stop fun _ _ => trivial).pair (Parser.reads_punct '\x7d').commit.expecting
      fun _ _ => rfl).map
  have no_list : (opened '[' ((some (valueWithin room)).map listBody)).Declines
      (Parser.leads (.punct '\x7b')) := (Parser.starts_opened '[' _).declines_punct rfl
  rw [Value.lexemes, Value.entryLexemes_eq]
  exact Parser.Reads.token_choice
    (List.forall_mem_append.2 ⟨declines_bracket (.inr rfl), List.forall_mem_singleton.2 no_list⟩)
    (body.opened '\x7b').token

/-- Every value that fits is read from its words, however they are written. -/
theorem reads_value {room : Nat} {v : Value} (h : v.Fits room) :
    (valueWithin room).Reads v.lexemes v Parser.anything := by
  induction h with
  | reference room name =>
    rw [valueWithin_eq]
    exact reads_reference name
  | int room range =>
    rw [valueWithin_eq]
    exact reads_int range
  | float room x =>
    rw [valueWithin_eq]
    exact reads_float x
  | string room s =>
    rw [valueWithin_eq]
    exact reads_stringValue s
  | boolean room b =>
    rw [valueWithin_eq]
    cases b
    · exact reads_wordValue _ "false"
    · exact reads_wordValue _ "true"
  | null room =>
    rw [valueWithin_eq]
    exact reads_wordValue _ "null"
  | @enum room name free =>
    simp only [List.mem_cons, List.not_mem_nil, or_false, not_or] at free
    obtain ⟨yes, no, null⟩ := free
    -- A word of its own meaning cannot be an enumeration value.
    have word : wordValue name = .enum name := by
      rw [wordValue, if_neg yes, if_neg no, if_neg null]
    have reads := reads_wordValue (itemsWithin room) name
    rw [word] at reads
    rw [valueWithin_eq]
    exact reads
  | list fits ih => exact reads_list ih
  | object fits ih => exact reads_object ih

/-! ### Types -/

/-- The words of a type. -/
def TypeRef.lexemes : TypeRef → List Lexeme
  | .named name => [.name name]
  | .list item => .punct '[' :: (item.lexemes ++ [.punct ']'])
  | .nonNull inner => inner.lexemes ++ [.punct '!']

/-- A type that can be written with at most `room` lists one in the other.  It
does not exclude null twice. -/
inductive TypeRef.Fits : Nat → TypeRef → Prop
  | named (room : Nat) (name : String) : Fits room (.named name)
  | list {room : Nat} {item : TypeRef} (fits : Fits room item) : Fits (room + 1) (.list item)
  | nonNull {room : Nat} {inner : TypeRef} (once : inner.isNonNull = false)
      (fits : Fits room inner) : Fits room (.nonNull inner)

/-- The types that lists may hold where `room` of them fit. -/
def itemTypesWithin : Nat → Option (Parser TypeRef)
  | 0 => none
  | room + 1 => some (typeWithin room)

/-- A type before its mark. -/
def baseType (room : Nat) : Parser TypeRef :=
  Parser.choice [opened '[' ((itemTypesWithin room).map listTypeBody),
    Parser.map .named (token name)]

theorem typeWithin_eq (room : Nat) : typeWithin room = fun input =>
    (baseType room input).bind fun base rest =>
      (Parser.optional (punct '!') rest).map fun mark =>
        if mark.isSome then .nonNull base else base := by
  cases room <;> rfl

/-- Where a type carries no mark, none must follow. -/
theorem reads_unmarked {room : Nat} {ls : List Lexeme} {t : TypeRef}
    (h : (baseType room).Reads ls t Parser.anything) :
    (typeWithin room).Reads ls t (Parser.clear ['!']) := by
  have none_follows : (punct '!').Declines (Parser.clear ['!']) :=
    (Parser.starts_punct '!').declines_clear (by decide) (by decide)
  have whole := h.bind (f := fun base => (Parser.optional (punct '!')).map fun mark =>
    if mark.isSome then TypeRef.nonNull base else base) none_follows.optional.map fun _ _ => trivial
  rw [typeWithin_eq]
  rwa [List.append_nil] at whole

/-- A type is read with the mark behind it. -/
theorem reads_marked {room : Nat} {ls : List Lexeme} {t : TypeRef}
    (h : (baseType room).Reads ls t Parser.anything) :
    (typeWithin room).Reads (ls ++ [.punct '!']) (.nonNull t) (Parser.clear ['!']) := by
  have whole := h.bind (f := fun base => (Parser.optional (punct '!')).map fun mark =>
    if mark.isSome then TypeRef.nonNull base else base) (Parser.reads_punct '!').optional.map
    fun _ _ => trivial
  rw [typeWithin_eq]
  exact whole.mono fun _ _ => trivial

/-- Behind another word there is none of the marks. -/
theorem clear_of_leads {l : Lexeme} {marks : List Char} (h : ∀ c ∈ marks, l ≠ .punct c)
    {us : List Lexeme} (hus : Parser.leads l us) : Parser.clear marks us := by
  intro c hc e
  exact h c hc (Option.some.inj (hus.symm.trans e))

theorem clear_punct {d : Char} {marks : List Char} (h : d ∉ marks) {us : List Lexeme}
    (hus : Parser.leads (.punct d) us) : Parser.clear marks us := by
  refine clear_of_leads (l := .punct d) ?_ hus
  rintro c hc ⟨⟩
  exact h hc

/-- The item of a list type has its mark inside the brackets. -/
theorem reads_listType {room : Nat} {item : TypeRef}
    (h : (typeWithin room).Reads item.lexemes item (Parser.clear ['!'])) :
    (baseType (room + 1)).Reads (TypeRef.list item).lexemes (.list item) Parser.anything := by
  have body : (listTypeBody (typeWithin room)).Reads (item.lexemes ++ [.punct ']'])
      (.list item) Parser.anything :=
    (h.pair (Parser.reads_punct ']').commit.expecting
      fun us _ => clear_punct (d := ']') (by decide) rfl).map
  exact Parser.Reads.choice (List.forall_mem_nil _) (body.opened '[')

/-- A named type is read as its name. -/
theorem reads_namedType (room : Nat) (name : String) :
    (baseType room).Reads [.name name] (.named name) Parser.anything := by
  have no_list : (opened '[' ((itemTypesWithin room).map listTypeBody)).Declines
      (Parser.leads (.name name)) :=
    (Parser.starts_opened '[' _).declines_leads
      fun c h => decide_eq_false (isNameStart_apart h).2.2.2.1
  exact Parser.Reads.choice (List.forall_mem_singleton.2 no_list) Parser.reads_name.map

/-- Every type that fits is read from its words if no mark follows; if it has no
mark itself, so is its base whatever follows. -/
theorem reads_type {room : Nat} {t : TypeRef} (h : t.Fits room) :
    (typeWithin room).Reads t.lexemes t (Parser.clear ['!']) ∧
      (t.isNonNull = false → (baseType room).Reads t.lexemes t Parser.anything) := by
  induction h with
  | named room name =>
    have base := reads_namedType room name
    exact ⟨reads_unmarked base, fun _ => base⟩
  | list fits ih =>
    have base := reads_listType ih.1
    exact ⟨reads_unmarked base, fun _ => base⟩
  | nonNull once fits ih => exact ⟨reads_marked (ih.2 once), nofun⟩

/-- Where there is none of some marks, there is none of fewer. -/
theorem clear_subset {marks fewer : List Char} (h : fewer ⊆ marks) {us : List Lexeme}
    (hus : Parser.clear marks us) : Parser.clear fewer us := fun c hc => hus c (h hc)

/-! ### Groups in parentheses -/

/-- The words of things in parentheses; where there is none there are no
parentheses either. -/
def groupLexemes {α : Type} (print : α → List Lexeme) : List α → List Lexeme
  | [] => []
  | a :: as => .punct '(' :: ((a :: as).flatMap print ++ [.punct ')'])

/-- Things in parentheses, at least one. -/
def group {α : Type} (p : Parser α) (reason : String) : Parser (List α) :=
  Parser.andThen (punct '(') <| Parser.map Prod.fst <|
    Parser.pair (Parser.many1 p) (Parser.expecting reason (Parser.commit (punct ')')))

theorem reads_group {α : Type} {p : Parser α} {print : α → List Lexeme}
    {next : List Lexeme → Prop} {items : List α} {good : Char → Bool} (reason : String)
    (each : p.ReadsEach print next items) (begins : p.Starts good) (other : good ')' = false)
    (close : ∀ us, Parser.leads (.punct ')') us → next us) :
    ∃ found, found.getD [] = items ∧
      (Parser.optional (group p reason)).Reads (groupLexemes print items) found
        (Parser.clear ['(']) := by
  -- An empty group is not printed, and so must not be taken for one.
  cases items with
  | nil =>
    refine ⟨none, rfl, ?_⟩
    exact ((Parser.starts_punct '(').andThen.declines_clear (by decide) (by decide)).optional
  | cons a as =>
    refine ⟨some (a :: as), rfl, ?_⟩
    have inside := each.many1 (begins.declines_punct other) close (List.cons_ne_nil a as)
    have whole : (group p reason).Reads (groupLexemes print (a :: as)) (a :: as)
        Parser.anything :=
      (Parser.reads_punct '(').andThen
        (inside.pair (Parser.reads_punct ')').commit.expecting fun _ _ => rfl).map
        fun _ _ => trivial
    exact whole.optional.mono fun _ _ => trivial

/-! ### Fields -/

/-- The words of the name of a field, after the label that it is answered under. -/
def labelLexemes : Option String → String → List Lexeme
  | none, name => [.name name]
  | some label, name => [.name label, .punct ':', .name name]

mutual
/-- The words of a field. -/
def Field.lexemes : Field → List Lexeme
  | .mk label name args fields =>
    labelLexemes label name ++ (groupLexemes namedLexemes args ++ Field.selectionLexemes fields)
/-- The words of a selection set; where there is no field there are no braces
either. -/
def Field.selectionLexemes : List Field → List Lexeme
  | [] => []
  | f :: fs => .punct '\x7b' :: ((f.lexemes ++ Field.allLexemes fs) ++ [.punct '\x7d'])
/-- The words of fields one after the other. -/
def Field.allLexemes : List Field → List Lexeme
  | [] => []
  | f :: fs => f.lexemes ++ Field.allLexemes fs
end

theorem Field.allLexemes_eq (fields : List Field) :
    Field.allLexemes fields = fields.flatMap Field.lexemes := by
  induction fields with
  | nil => rfl
  | cons f fs ih => rw [Field.allLexemes, List.flatMap_cons, ih]

theorem Field.selectionLexemes_eq {fields : List Field} (h : fields ≠ []) :
    Field.selectionLexemes fields =
      .punct '\x7b' :: (fields.flatMap Field.lexemes ++ [.punct '\x7d']) := by
  obtain ⟨f, fs, rfl⟩ := List.exists_cons_of_ne_nil h
  rw [Field.selectionLexemes, Field.allLexemes_eq, List.flatMap_cons]

/-- A field that can be written with at most `room` selection sets below it, one
in the other. -/
inductive Field.Fits : Nat → Field → Prop
  | leaf {room : Nat} {label : Option String} {name : String} {args : List (String × Value)}
      (values : ∀ e ∈ args, e.2.Fits maxNesting) : Fits room (.mk label name args [])
  | node {room : Nat} {label : Option String} {name : String} {args : List (String × Value)}
      {fields : List Field} (values : ∀ e ∈ args, e.2.Fits maxNesting) (some_field : fields ≠ [])
      (fits : ∀ f ∈ fields, Fits room f) : Fits (room + 1) (.mk label name args fields)

/-- What follows is no part of the field. -/
def afterField : List Lexeme → Prop := Parser.clear [':', '(', '\x7b']

/-- The words after the first name of a field, up to its arguments. -/
theorem reads_label (label : Option String) (name : String) :
    ∃ first second words, labelLexemes label name = .name first :: words ∧
      (match second with
        | some other => (some first, other)
        | none => (none, first)) = (label, name) ∧
      (Parser.optional aliased).Reads words second (Parser.clear [':']) := by
  cases label with
  | none =>
    refine ⟨name, none, [], rfl, rfl, ?_⟩
    exact ((Parser.starts_punct ':').andThen.declines_clear (by decide) (by decide)).optional
  | some label =>
    refine ⟨label, some name, [.punct ':', .name name], rfl, rfl, ?_⟩
    have both : aliased.Reads [.punct ':', .name name] name Parser.anything :=
      (Parser.reads_punct ':').andThen Parser.reads_name.commit fun _ _ => trivial
    exact both.optional.mono fun _ _ => trivial

/-- Arguments are read if their values fit. -/
theorem reads_arguments {args : List (String × Value)} (h : ∀ e ∈ args, e.2.Fits maxNesting) :
    ∃ found, found.getD [] = args ∧
      (Parser.optional arguments).Reads (groupLexemes namedLexemes args) found
        (Parser.clear ['(']) := by
  have each : argument.ReadsEach namedLexemes Parser.anything args :=
    fun e he => ⟨reads_named (reads_value (h e he)), List.cons_ne_nil _ _, fun _ => trivial⟩
  exact reads_group _ each Parser.starts_name.token.pair rfl fun _ _ => trivial

/-- No alias stands before arguments, a selection set or what follows a field. -/
theorem clear_group {α : Type} {print : α → List Lexeme} {items : List α} {marks : List Char}
    (bracket : '(' ∉ marks) {us : List Lexeme} (h : Parser.clear marks us) :
    Parser.clear marks (groupLexemes print items ++ us) := by
  cases items with
  | nil => exact h
  | cons a as => exact clear_punct bracket rfl

/-- No selection begins with another mark. -/
theorem clear_selection {fields : List Field} {marks : List Char} (brace : '\x7b' ∉ marks)
    {us : List Lexeme} (h : Parser.clear marks us) :
    Parser.clear marks (Field.selectionLexemes fields ++ us) := by
  cases fields with
  | nil => exact h
  | cons f fs =>
    refine clear_punct brace ?_
    rw [Field.selectionLexemes]
    rfl

/-- A field is read if its arguments fit and its selection is read. -/
theorem reads_fieldOver {selection : Parser (List Field)} {label : Option String} {name : String}
    {args : List (String × Value)} {fields : List Field}
    (values : ∀ e ∈ args, e.2.Fits maxNesting)
    (below : ∃ found, found.getD [] = fields ∧
      (Parser.optional selection).Reads (Field.selectionLexemes fields) found
        (Parser.clear ['\x7b'])) :
    (fieldOver selection).Reads (Field.mk label name args fields).lexemes
      (.mk label name args fields) afterField := by
  obtain ⟨first, second, words, spelled, chosen, labelled⟩ := reads_label label name
  obtain ⟨some_args, same_args, argued⟩ := reads_arguments values
  obtain ⟨some_fields, same_fields, selected⟩ := below
  -- Label and name, arguments, selection: each part has to end where the next begins.
  have stages : (Field.mk label name args fields).lexemes =
      [.name first] ++ (words ++ (groupLexemes namedLexemes args ++
        (Field.selectionLexemes fields ++ []))) := by
    rw [Field.lexemes, spelled, List.append_nil]
    rfl
  rw [stages]
  refine Parser.Reads.bind Parser.reads_name ?_ fun _ _ => trivial
  refine Parser.Reads.bind labelled ?_ fun us hus => ?_
  · refine Parser.Reads.bind argued ?_ fun us hus => ?_
    · refine Parser.Reads.bind selected ?_ fun us hus => ?_
      · intro us text hus written
        refine ⟨text, written, Nat.le_refl _, ?_⟩
        simp only [same_args, same_fields]
        exact congrArg (fun named : Option String × String =>
          Reply.ok (Field.mk named.1 named.2 args fields) text) chosen
      · exact clear_subset (by decide) hus
    · rw [List.append_nil]
      exact clear_selection (by decide) (clear_subset (by decide) hus)
  · rw [List.append_nil, List.append_assoc]
    exact clear_group (by decide) (clear_selection (by decide) (clear_subset (by decide) hus))

/-- The words of a field begin with a name. -/
theorem Field.lexemes_eq_cons (f : Field) : ∃ first words, f.lexemes = .name first :: words := by
  cases f with
  | mk label name args fields =>
    cases label with
    | none => exact ⟨_, _, rfl⟩
    | some label => exact ⟨_, _, rfl⟩

/-- A selection is read if its fields are, one level less deep. -/
theorem reads_selection {room : Nat} {fields : List Field} (some_field : fields ≠ [])
    (h : ∀ f ∈ fields, (fieldOver (selectionWithin room)).Reads f.lexemes f afterField) :
    (selectionWithin (room + 1)).Reads (Field.selectionLexemes fields) fields Parser.anything := by
  -- Fields follow each other without a separator, so that no field may go on into the next.
  have each : (fieldOver (selectionWithin room)).ReadsEach Field.lexemes afterField fields := by
    intro f hf
    obtain ⟨first, words, e⟩ := f.lexemes_eq_cons
    refine ⟨h f hf, ?_, fun us => ?_⟩
    · rw [e]
      exact List.cons_ne_nil _ _
    · rw [e]
      exact clear_of_leads (l := .name first) (fun c hc => nofun) rfl
  have stop : (fieldOver (selectionWithin room)).Declines (Parser.leads (.punct '\x7d')) :=
    Parser.starts_name.token.bind.declines_punct rfl
  have body : (selectionBody (fieldOver (selectionWithin room))).Reads
      (fields.flatMap Field.lexemes ++ [.punct '\x7d']) fields Parser.anything :=
    ((each.many1 stop (fun us hus => clear_punct (by decide) hus) some_field).expecting.pair
      (Parser.reads_punct '\x7d').expecting fun _ _ => rfl).map.commit
  rw [Field.selectionLexemes_eq some_field]
  exact body.opened '\x7b'

theorem starts_selection (room : Nat) : (selectionWithin room).Starts (· = '\x7b') := by
  cases room <;> exact Parser.starts_opened _ _

/-- Every field that fits is read from its words, however they are written, if
what follows is no part of it. -/
theorem reads_field {room : Nat} {f : Field} (h : f.Fits room) :
    (fieldOver (selectionWithin room)).Reads f.lexemes f afterField := by
  induction h with
  | @leaf room label name args values =>
    refine reads_fieldOver values ⟨none, rfl, ?_⟩
    exact ((starts_selection room).declines_clear (by decide) (by decide)).optional
  | @node room label name args fields values some_field fits ih =>
    refine reads_fieldOver values ⟨some fields, rfl, ?_⟩
    exact (reads_selection some_field ih).optional.mono fun _ _ => trivial

/-! ### Operations -/

/-- The words of the default of a variable. -/
def defaultLexemes : Option Value → List Lexeme
  | none => []
  | some v => .punct '=' :: v.lexemes

/-- The words of a variable definition. -/
def VariableDefinition.lexemes (d : VariableDefinition) : List Lexeme :=
  .dollar d.name :: .punct ':' :: (d.type.lexemes ++ defaultLexemes d.default)

/-- The words of an operation that begins with its keyword. -/
def Operation.lexemes (op : Operation) : List Lexeme :=
  .name "query" :: (op.name.toList.map Lexeme.name ++
    (groupLexemes VariableDefinition.lexemes op.definitions ++
      Field.selectionLexemes op.selection))

/-- The text prints the operation: ignored text or none, and then the words of
the operation, each followed by ignored text. -/
def Operation.Prints (op : Operation) (text : List Char) : Prop :=
  ∃ gap rest, text = gap ++ rest ∧ Ignored gap ∧ Written op.lexemes rest

/-- The operation can be written. -/
structure Operation.Writable (op : Operation) : Prop where
  types : ∀ d ∈ op.definitions, d.type.Fits maxNesting
  defaults : ∀ d ∈ op.definitions, ∀ v, d.default = some v → v.Fits maxNesting
  selects : op.selection ≠ []
  /-- The selection set of the operation is itself one level. -/
  selection : ∀ f ∈ op.selection, f.Fits (maxNesting - 1)

/-- What follows is no part of the variable definition. -/
def afterDefinition : List Lexeme → Prop := Parser.clear ['!', '=']

theorem reads_default {default : Option Value} (h : ∀ v, default = some v → v.Fits maxNesting) :
    (Parser.optional defaultValue).Reads (defaultLexemes default) default (Parser.clear ['=']) := by
  cases default with
  | none => exact ((Parser.starts_punct '=').andThen.declines_clear (by decide) (by decide)).optional
  | some v =>
    have value : value.Reads v.lexemes v Parser.anything := reads_value (h v rfl)
    have whole : defaultValue.Reads (.punct '=' :: v.lexemes) v Parser.anything :=
      (Parser.reads_punct '=').andThen value.commit.expecting fun _ _ => trivial
    exact whole.optional.mono fun _ _ => trivial

/-- A variable definition is read if its type and its default fit. -/
theorem reads_definition {d : VariableDefinition} (type : d.type.Fits maxNesting)
    (default : ∀ v, d.default = some v → v.Fits maxNesting) :
    variableDefinition.Reads d.lexemes d afterDefinition := by
  have named : (token variableName).Reads [.dollar d.name] d.name Parser.anything := by
    refine Parser.reads_token ?_
    intro word spells
    cases spells with
    | dollar named =>
      have took := takes_variableName named
      rwa [String.ofList_toList] at took
  refine Parser.Reads.bind named ?_ fun _ _ => trivial
  refine Parser.Reads.bind (Parser.reads_punct ':').commit.expecting ?_ fun _ _ => trivial
  refine Parser.Reads.bind (reads_type type).1.commit.expecting ?_ fun us hus => ?_
  · exact ((reads_default default).map).mono fun us hus => clear_subset (by decide) hus
  · cases found : d.default with
    | none => exact clear_subset (by decide) hus
    | some v => exact clear_punct (d := '=') (by decide) rfl

theorem stripWord_append (word text : List Char) : stripWord word (word ++ text) = some text := by
  induction word with
  | nil => rw [stripWord, List.nil_append]
  | cons c cs ih => rw [List.cons_append, stripWord, if_pos rfl, ih]

theorem reads_query : (keyword "query").Reads [.name "query"] () Parser.anything := by
  refine Parser.reads_token ?_
  intro word spells c rest hc
  have stop : continuesWord (c :: rest) = false := by
    show (Text.isAlphanumeric c || c = '_') = false
    revert c
    exact forall_mem_of_all (by decide)
  cases spells with
  | name named => simp only [stripWord_append, stop, if_neg Bool.false_ne_true]

theorem starts_keyword {word : String} {c : Char} {cs : List Char} (h : word.toList = c :: cs) :
    (keyword word).Starts (· = c) := by
  refine Parser.Starts.token ?_
  intro text _ other
  cases text with
  | nil => exact ⟨_, by rw [h]; rfl⟩
  | cons d rest =>
    have different : c ≠ d := fun same => of_decide_eq_false (other d rfl) same.symm
    exact ⟨_, by rw [h]; simp only [stripWord, if_neg different]; rfl⟩

/-- Ignored text before a keyword makes no difference. -/
theorem keyword_append (word : String) {gap : List Char} (h : Ignored gap) (text : List Char) :
    keyword word (gap ++ text) = keyword word text := by
  simp only [keyword, token, h.skip]

/-- What begins with the keyword `query` begins with no other one. -/
theorem not_beginsWithKeyword (word : String) {c : Char} {cs : List Char}
    (h : word.toList = c :: cs) (other : c ≠ 'q') {gap text : List Char} {us : List Lexeme}
    (ignored : Ignored gap) (written : Written (.name "query" :: us) text) :
    beginsWithKeyword word (gap ++ text) = false := by
  have solid := written.solid
  cases written with
  | cons spells between written =>
    cases spells with
    | name named =>
      obtain ⟨trail, e⟩ := starts_keyword h _ solid fun d hd => by
        cases hd
        exact decide_eq_false other.symm
      rw [beginsWithKeyword, keyword_append word ignored, e]

theorem reads_definitions {definitions : List VariableDefinition}
    (types : ∀ d ∈ definitions, d.type.Fits maxNesting)
    (defaults : ∀ d ∈ definitions, ∀ v, d.default = some v → v.Fits maxNesting) :
    ∃ found, found.getD [] = definitions ∧
      (Parser.optional variableDefinitions).Reads
        (groupLexemes VariableDefinition.lexemes definitions) found (Parser.clear ['(']) := by
  have each : variableDefinition.ReadsEach VariableDefinition.lexemes afterDefinition
      definitions := by
    intro d hd
    refine ⟨reads_definition (types d hd) (defaults d hd), List.cons_ne_nil _ _, fun us => ?_⟩
    exact clear_of_leads (l := .dollar d.name) (fun c hc => nofun) rfl
  exact reads_group _ each (Parser.starts_char '$').andThen.token.bind rfl
    fun us hus => clear_punct (by decide) hus

/-- Punctuation comes next. -/
def beforePunct (us : List Lexeme) : Prop := ∃ c ∈ punctuation, Parser.leads (.punct c) us

theorem reads_operationName (name : Option String) :
    (Parser.optional (token Document.name)).Reads (name.toList.map Lexeme.name) name
      beforePunct := by
  cases name with
  | some s => exact Parser.reads_name.optional.mono fun _ _ => trivial
  | none =>
    refine Parser.Declines.optional ?_
    rintro us text ⟨c, mark, hus⟩ written
    have other : isNameStart c = false := by
      clear hus
      revert c
      exact forall_mem_of_all (by decide)
    exact Parser.starts_name.token.declines_punct other us text hus written

/-- The name and the variable definitions after the keyword. -/
theorem reads_head {op : Operation} (writable : op.Writable) :
    Parser.Reads (fun rest => (Parser.optional (token name) rest).bind fun operationName rest =>
        (Parser.optional variableDefinitions rest).map fun definitions =>
          (operationName, definitions.getD []))
      (op.name.toList.map Lexeme.name ++ groupLexemes VariableDefinition.lexemes op.definitions)
      (op.name, op.definitions) (Parser.leads (.punct '\x7b')) := by
  obtain ⟨found, same, defined⟩ := reads_definitions writable.types writable.defaults
  -- Definitions that are absent and definitions that are none are the same operation.
  have rest : Parser.Reads (fun rest => (Parser.optional variableDefinitions rest).map
      fun definitions => (op.name, definitions.getD []))
      (groupLexemes VariableDefinition.lexemes op.definitions) (op.name, op.definitions)
      (Parser.leads (.punct '\x7b')) := by
    rw [← congrArg (Prod.mk op.name) same]
    exact defined.map.mono fun us hus => clear_punct (d := '\x7b') (by decide) hus
  refine Parser.Reads.bind (reads_operationName op.name) rest fun us hus => ?_
  cases op.definitions with
  | nil => exact ⟨'\x7b', by decide, hus⟩
  | cons d ds => exact ⟨'(', by decide, rfl⟩

/-- An operation that can be written is parsed back, with ignored text in
front. -/
theorem parsed_operation {op : Operation} (writable : op.Writable) {gap text : List Char}
    (ignored : Ignored gap) (written : Written op.lexemes text) :
    operation (gap ++ text) = .ok op [] := by
  have mutation := not_beginsWithKeyword "mutation" rfl (by decide) ignored written
  have subscription := not_beginsWithKeyword "subscription" rfl (by decide) ignored written
  have opens : Parser.leads (.punct '\x7b') (Field.selectionLexemes op.selection) := by
    rw [Field.selectionLexemes_eq writable.selects]
    rfl
  -- First the keyword, with what stands before it, then the rest of the head.
  obtain ⟨rest₁, written₁, -, e₁⟩ := reads_query (_ ++ (_ ++ _)) text trivial written
  rw [← List.append_assoc] at written₁
  obtain ⟨rest₂, written₂, -, e₂⟩ := reads_head writable _ rest₁ opens written₁
  have head : operationHead (gap ++ text) = .ok (op.name, op.definitions) rest₂ := by
    rw [operationHead, keyword_append _ ignored, e₁]
    exact e₂
  -- Then the selection set, with nothing after it.
  have fits : ∀ f ∈ op.selection, (fieldOver (selectionWithin (maxNesting - 1))).Reads f.lexemes
      f afterField := fun f hf => reads_field (writable.selection f hf)
  have selects : (Parser.expecting "Expected selection set" (Parser.commit selectionSet)).Reads
      (Field.selectionLexemes op.selection) op.selection Parser.anything :=
    (reads_selection writable.selects fits).commit.expecting
  rw [← List.append_nil (Field.selectionLexemes op.selection)] at written₂
  obtain ⟨rest₃, written₃, -, e₃⟩ := selects [] rest₂ trivial written₂
  cases written₃
  rw [operation, mutation, subscription, head, Bool.or_self, if_neg Bool.false_ne_true]
  simp only [Reply.bind, e₃]
  rfl

/-- **Whatever text prints an operation is parsed as that operation.** -/
theorem parse_of_prints {op : Operation} {document : String} (writable : op.Writable)
    (prints : op.Prints document.toList) : parse document = .ok op := by
  obtain ⟨gap, text, e, ignored, written⟩ := prints
  rw [parse, parseChars, e, parsed_operation writable ignored written]
  rfl

/-! ### A layout -/

theorem gap_space : Gap [' '] := ⟨.blank (by decide) .nil, List.cons_ne_nil _ _⟩

/-- Words with their spellings and the gaps after them. -/
theorem written_of_pieces {pieces : List (Lexeme × List Char × List Char)}
    (h : ∀ piece ∈ pieces, piece.1.Spells piece.2.1 ∧ Gap piece.2.2) :
    Written (pieces.map Prod.fst) (pieces.flatMap fun piece => piece.2.1 ++ piece.2.2) := by
  induction pieces with
  | nil => exact .nil
  | cons piece pieces ih =>
    obtain ⟨⟨spells, gap⟩, later⟩ := List.forall_mem_cons.1 h
    rw [List.flatMap_cons, List.append_assoc]
    exact .cons spells gap (ih later)

namespace Sample

/-- An operation with a variable, a label, an argument and two levels. -/
def bookQuery : Operation where
  name := none
  definitions := [⟨"n", .nonNull (.named "Int"), some (.int 7)⟩]
  selection := [.mk (some "b") "books" [("title", .string "ab")] [.mk none "id" [] []]]

/-- Its words, some of them spelled in an unusual way and with a comment between
them. -/
def bookPieces : List (Lexeme × List Char × List Char) :=
  [(.name "query", "query".toList, [',']), (.punct '(', ['('], [' ']),
    (.dollar "n", "$n".toList, [' ']), (.punct ':', [':'], [' ']),
    (.name "Int", "Int".toList, [' ']), (.punct '!', ['!'], [' ']), (.punct '=', ['='], [' ']),
    (.int 7, "07".toList, [' ']), (.punct ')', [')'], [' ']),
    (.punct '\x7b', ['\x7b'], "#b)\n".toList), (.name "b", ['b'], [' ']),
    (.punct ':', [':'], [' ']), (.name "books", "books".toList, [' ']),
    (.punct '(', ['('], [' ']), (.name "title", "title".toList, [' ']),
    (.punct ':', [':'], [' ']), (.string "ab", "\"a\\u0062\"".toList, [' ']),
    (.punct ')', [')'], [' ']), (.punct '\x7b', ['\x7b'], [' ']),
    (.name "id", "id".toList, [' ']), (.punct '\x7d', ['\x7d'], [' ']),
    (.punct '\x7d', ['\x7d'], [' '])]

theorem spells_bookPieces : ∀ piece ∈ bookPieces, piece.1.Spells piece.2.1 ∧ Gap piece.2.2 := by
  have word : ∀ {s : String} {c : Char} {rest : List Char}, s.toList = c :: rest →
      isNameStart c = true → rest.all isNamePart = true → IsName s.toList :=
    fun e start parts => ⟨_, _, e, start, List.all_eq_true.1 parts⟩
  have seven : Sql.Digits ['0', '7'] := ⟨by decide, forall_mem_of_all (by decide)⟩
  have code : CodeText ['0', '0', '6', '2'] 'b'.toNat :=
    .digits (i := 0) (j := 0) (k := 6) (l := 2) (by decide) (by decide) (by decide) (by decide)
  have comma : Gap [','] := ⟨.blank (by decide) .nil, List.cons_ne_nil _ _⟩
  have quoted : Quoted ['a', '\\', 'u', '0', '0', '6', '2'] "ab".toList :=
    .raw (by decide) (.code code .nil)
  have comment : Gap ('#' :: (['b', ')'] ++ '\n' :: [])) :=
    ⟨.comment (by decide) .nil, List.cons_ne_nil _ _⟩
  have space := gap_space
  simp only [bookPieces, List.forall_mem_cons]
  refine ⟨⟨.name (word rfl (by decide) (by decide)), comma⟩, ⟨.punct (by decide), space⟩,
    ⟨.dollar (word rfl (by decide) (by decide)), space⟩, ⟨.punct (by decide), space⟩,
    ⟨.name (word rfl (by decide) (by decide)), space⟩, ⟨.punct (by decide), space⟩,
    ⟨.punct (by decide), space⟩, ⟨.int false seven, space⟩, ⟨.punct (by decide), space⟩,
    ⟨.punct (by decide), comment⟩, ⟨.name (word rfl (by decide) (by decide)), space⟩,
    ⟨.punct (by decide), space⟩, ⟨.name (word rfl (by decide) (by decide)), space⟩,
    ⟨.punct (by decide), space⟩, ⟨.name (word rfl (by decide) (by decide)), space⟩,
    ⟨.punct (by decide), space⟩, ⟨.string quoted, space⟩,
    ⟨.punct (by decide), space⟩, ⟨.punct (by decide), space⟩,
    ⟨.name (word rfl (by decide) (by decide)), space⟩, ⟨.punct (by decide), space⟩,
    ⟨.punct (by decide), space⟩, fun _ h => absurd h List.not_mem_nil⟩

theorem writable_bookQuery : bookQuery.Writable where
  types := List.forall_mem_singleton.2 (.nonNull rfl (.named _ _))
  defaults := List.forall_mem_singleton.2 fun v hv => by
    cases hv
    exact .int _ (by decide)
  selects := List.cons_ne_nil _ _
  selection := List.forall_mem_singleton.2 (.node
    (List.forall_mem_singleton.2 (.string _ _)) (List.cons_ne_nil _ _)
    (List.forall_mem_singleton.2 (.leaf (List.forall_mem_nil _))))

theorem parse_bookQuery :
    let document :=
      "query,( $n : Int ! = 07 ) \x7b#b)\nb : books ( title : \"a\\u0062\" ) \x7b id \x7d \x7d "
    bookQuery.Writable ∧ bookQuery.Prints document.toList ∧ parse document = .ok bookQuery := by
  intro document
  have prints : bookQuery.Prints document.toList :=
    ⟨[], _, by decide, .nil, written_of_pieces spells_bookPieces⟩
  exact ⟨writable_bookQuery, prints, parse_of_prints writable_bookQuery prints⟩

end Sample

end EntityQuery.Document
