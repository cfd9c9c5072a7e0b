/-
EntityQuery/Proofs/Reads.lean

Parsers that read what is written.

A parser reads words as a value if it does so however they are written, and
leaves what is written after them (`Parser.Reads`); where something optional may
follow, it matters which words come next.  A parser declines words if it fails
softly on them (`Parser.Declines`), so that another alternative is tried.  What
a parser begins with decides which words it declines (`Parser.Starts`).

Each combinator reads what its parts read, one lemma for each.
-/
import EntityQuery.Document.Request
import EntityQuery.Proofs.Lexeme

namespace EntityQuery.Document

/-! ### How words begin -/

/-- Whether a word may begin with a character. -/
def Lexeme.begins : Lexeme → Char → Bool
  | .punct c, d => d = c
  | .name _, d => isNameStart d
  | .dollar _, d => d = '$'
  | .string _, d => d = '"'
  | .int _, d => d.isDigit || d = '-'
  | .float _, d => d.isDigit || d = '-'

/-- A numeral begins with a digit or a minus. -/
theorem begins_digits (negative : Bool) {ds : List Char} (h : Sql.Digits ds) (more : List Char) :
    ∃ c rest, sign negative ++ (ds ++ more) = c :: rest ∧ (c.isDigit || c = '-') = true := by
  obtain ⟨d, rest, rfl⟩ := List.exists_cons_of_ne_nil h.1
  cases negative with
  | true => exact ⟨'-', _, rfl, rfl⟩
  | false => exact ⟨d, _, rfl, by rw [h.2 d List.mem_cons_self, Bool.true_or]⟩

/-- Every spelling of a lexeme begins as the lexeme does. -/
theorem Lexeme.Spells.begins {l : Lexeme} {word : List Char} (h : l.Spells word) :
    ∃ c rest, word = c :: rest ∧ l.begins c = true := by
  cases h with
  | punct h => exact ⟨_, _, rfl, decide_eq_true rfl⟩
  | name h =>
    obtain ⟨c, rest, e, start, -⟩ := h
    exact ⟨c, rest, e, start⟩
  | dollar h => exact ⟨_, _, rfl, rfl⟩
  | string h => exact ⟨_, _, rfl, rfl⟩
  | @int negative ds digits =>
    have found := begins_digits negative digits []
    rwa [List.append_nil] at found
  | @float negative text n e h =>
    -- Every shape of number begins with its sign or with its first digit.
    cases h with
    | fraction whole part => exact begins_digits negative whole _
    | power whole power => exact begins_digits negative whole _
    | both whole part power => exact begins_digits negative whole _

/-- The characters that words other than punctuation begin with. -/
def beginsWord (c : Char) : Bool :=
  isNameStart c || c = '$' || c = '"' || c.isDigit || c = '-'

/-- A lexeme begins with its mark, or like a word. -/
theorem Lexeme.begins_cases {l : Lexeme} {c : Char} (h : l.begins c = true) :
    l = .punct c ∨ beginsWord c = true := by
  have numeric : (c.isDigit || c = '-') = true → beginsWord c = true := by
    intro h
    rw [beginsWord, Bool.or_assoc, h, Bool.or_true]
  cases l with
  | punct d => exact .inl (congrArg _ (of_decide_eq_true h).symm)
  | name s => exact .inr (by simp_all [Lexeme.begins, beginsWord])
  | dollar s => exact .inr (by simp_all [Lexeme.begins, beginsWord])
  | string s => exact .inr (by simp_all [Lexeme.begins, beginsWord])
  | int i => exact .inr (numeric h)
  | float x => exact .inr (numeric h)

/-- No word begins with a mark or with what is ignored. -/
theorem beginsWord_apart : ∀ c ∈ breaks ++ punctuation, beginsWord c = false :=
  forall_mem_of_all (by decide)

theorem punctuation_not_break : ∀ c ∈ breaks, c ∉ punctuation :=
  forall_mem_of_all (by decide)

/-- Words do not begin like ignored text. -/
theorem Lexeme.Spells.not_break {l : Lexeme} {word : List Char} (h : l.Spells word) {c : Char}
    (hc : l.begins c = true) : c ∉ breaks := by
  intro broken
  rcases l.begins_cases hc with rfl | other
  · cases h with
    | punct mark => exact punctuation_not_break c broken mark
  · rw [beginsWord_apart c (List.mem_append_left _ broken)] at other
    cases other

/-- A punctuation character begins no word but itself. -/
theorem Lexeme.begins_other {l : Lexeme} {c d : Char} (hc : c ∈ punctuation)
    (hl : l ≠ .punct c) (hd : l.begins d = true) : d ≠ c := by
  rintro rfl
  rcases l.begins_cases hd with rfl | other
  · exact hl rfl
  · rw [beginsWord_apart d (List.mem_append_right _ hc)] at other
    cases other

/-- What is written begins with its first word. -/
theorem Written.begins {l : Lexeme} {ls : List Lexeme} {text : List Char}
    (h : Written (l :: ls) text) : ∃ c rest, text = c :: rest ∧ l.begins c = true := by
  cases h with
  | cons spells between written =>
    obtain ⟨c, rest, rfl, hc⟩ := spells.begins
    exact ⟨c, _, rfl, hc⟩

/-- Written lexemes begin with nothing that is ignored. -/
theorem Written.solid {ls : List Lexeme} {text : List Char} (h : Written ls text) : Solid text := by
  cases h with
  | nil => exact fun c e => nomatch e
  | cons spells between written =>
    obtain ⟨c, rest, rfl, hc⟩ := spells.begins
    rintro d ⟨⟩
    exact spells.not_break hc

/-! ### What a parser begins with -/

namespace Parser

variable {α β : Type} {p : Parser α} {q : Parser β} {good : Char → Bool}
variable {ls ms : List Lexeme} {a : α} {b : β} {next after : List Lexeme → Prop}

/-- The parser fails softly on a text that begins with none of the good
characters. -/
def Starts (p : Parser α) (good : Char → Bool) : Prop :=
  ∀ text, Solid text → (∀ c, text.head? = some c → good c = false) → ∃ trail, p text = .soft trail

theorem starts_char (c : Char) : Starts (char c) (· = c) := by
  intro text _ other
  cases text with
  | nil => exact ⟨_, rfl⟩
  | cons d rest =>
    have different : d ≠ c := of_decide_eq_false (other d rfl)
    exact ⟨_, if_neg different⟩

theorem starts_name : Starts name isNameStart := by
  intro text _ other
  cases text with
  | nil => exact ⟨_, rfl⟩
  | cons d rest => exact ⟨_, if_neg (ne_true_of_eq_false (other d rfl))⟩

theorem starts_string : Starts string (· = '"') := by
  intro text _ other
  cases text with
  | nil => exact ⟨_, rfl⟩
  | cons d rest =>
    have different : d ≠ '"' := of_decide_eq_false (other d rfl)
    exact ⟨_, by rw [string]; simp [different]⟩

theorem starts_number : Starts number fun c => c.isDigit || c = '-' := by
  intro text _ other
  have nothing : digits1 text = none := by
    have span : spanDigits text = ([], text) := spanDigits_append (List.forall_mem_nil _)
      fun c hc => (Bool.or_eq_false_iff.1 (other c hc)).1
    rw [digits1, span]
  cases text with
  | nil => exact ⟨_, rfl⟩
  | cons d rest =>
    have different : d ≠ '-' := of_decide_eq_false (Bool.or_eq_false_iff.1 (other d rfl)).2
    exact ⟨_, by simp [number, different, nothing, Parser.fail]; rfl⟩

theorem Starts.map {f : α → β} (h : p.Starts good) : (p.map f).Starts good := by
  intro text solid other
  obtain ⟨trail, e⟩ := h text solid other
  exact ⟨trail, by rw [Parser.map, e]; rfl⟩

theorem Starts.pair (h : p.Starts good) : (pair p q).Starts good := by
  intro text solid other
  obtain ⟨trail, e⟩ := h text solid other
  exact ⟨trail, by rw [Parser.pair, e]; rfl⟩

theorem Starts.andThen (h : p.Starts good) : (andThen p q).Starts good := by
  intro text solid other
  obtain ⟨trail, e⟩ := h text solid other
  exact ⟨trail, by rw [Parser.andThen, e]; rfl⟩

/-- A sequence starts as its first part does. -/
theorem Starts.bind {rest : α → Parser β} (h : p.Starts good) :
    Starts (fun input => (p input).bind rest) good := by
  intro text solid other
  obtain ⟨trail, e⟩ := h text solid other
  exact ⟨trail, by simp only [e]; rfl⟩

theorem Starts.token (h : p.Starts good) : (token p).Starts good := by
  intro text solid other
  obtain ⟨trail, e⟩ := h text solid other
  exact ⟨trail, by rw [Document.token, skipIgnored_of_solid solid, e]; rfl⟩

theorem starts_punct (c : Char) : Starts (punct c) (· = c) := (starts_char c).token

theorem starts_opened (c : Char) (body : Option (Parser α)) : Starts (opened c body) (· = c) := by
  intro text solid other
  obtain ⟨trail, e⟩ := starts_punct c text solid other
  exact ⟨trail, by rw [opened, e]; rfl⟩

/-- A parser that starts in few ways starts in more. -/
theorem Starts.mono {better : Char → Bool} (h : p.Starts good)
    (le : ∀ c, good c = true → better c = true) : p.Starts better := by
  intro text solid other
  refine h text solid fun c hc => ?_
  exact Bool.eq_false_iff.2 fun g => Bool.eq_false_iff.1 (other c hc) (le c g)

/-- A choice starts as its parsers do. -/
theorem Starts.choice {ps : List (Parser α)} (h : ∀ p ∈ ps, p.Starts good) :
    (choice ps).Starts good := by
  intro text solid other
  have from_any : ∀ last, ∃ trail, choiceFrom last ps text = .soft trail := by
    induction ps with
    | nil => exact fun last => ⟨_, rfl⟩
    | cons p ps ih =>
      intro last
      obtain ⟨here, later⟩ := List.forall_mem_cons.1 h
      obtain ⟨trail, e⟩ := here text solid other
      rw [choiceFrom, e]
      exact ih later trail
  exact from_any []

/-! ### Parsers that read what is written -/

/-- The parser reads the words as the value, however they are written, and leaves
the words after them, if these are as `next` says. -/
def Reads (p : Parser α) (ls : List Lexeme) (a : α) (next : List Lexeme → Prop) : Prop :=
  ∀ us text, next us → Written (ls ++ us) text →
    ∃ rest, Written us rest ∧ rest.length + ls.length ≤ text.length ∧ p text = .ok a rest

/-- The parser fails softly on the words. -/
def Declines (p : Parser α) (next : List Lexeme → Prop) : Prop :=
  ∀ us text, next us → Written us text → ∃ trail, p text = .soft trail

/-- Any words. -/
def anything (_ : List Lexeme) : Prop := True

/-- Words of which the first is none of the punctuation characters. -/
def clear (marks : List Char) (us : List Lexeme) : Prop :=
  ∀ c ∈ marks, us.head? ≠ some (.punct c)

/-- Words of which the first is a given one. -/
def leads (l : Lexeme) (us : List Lexeme) : Prop := us.head? = some l

/-- A parser declines what begins otherwise than it starts. -/
theorem Starts.declines (h : p.Starts good)
    (apart : ∀ l us, next (l :: us) → ∀ c, l.begins c = true → good c = false) :
    p.Declines next := by
  intro us text hus written
  refine h text written.solid ?_
  cases us with
  | nil =>
    cases written
    exact fun c e => nomatch e
  | cons l us =>
    obtain ⟨c, rest, rfl, hc⟩ := written.begins
    rintro d ⟨⟩
    exact apart l us hus c hc

theorem Starts.declines_leads {l : Lexeme} (h : p.Starts good)
    (apart : ∀ c, l.begins c = true → good c = false) : p.Declines (leads l) := by
  refine h.declines ?_
  rintro _ us ⟨⟩
  exact apart

theorem Starts.declines_punct {c : Char} (h : p.Starts good) (other : good c = false) :
    p.Declines (leads (.punct c)) := by
  refine h.declines_leads ?_
  intro d hd
  rw [show d = c from of_decide_eq_true hd]
  exact other

/-- A parser that starts with a mark declines text that is clear of it. -/
theorem Starts.declines_clear {marks : List Char} {c : Char} (h : p.Starts (· = c))
    (mark : c ∈ punctuation) (hc : c ∈ marks) : p.Declines (clear marks) := by
  refine h.declines ?_
  intro l us hus d hd
  refine decide_eq_false (l.begins_other mark ?_ hd)
  rintro rfl
  exact hus c hc rfl

/-! ### Words and combinators -/

/-- A single word is read where the parser takes it, and ignored text after it. -/
theorem reads_token {l : Lexeme} (h : ∀ word, l.Spells word → p.Takes word a) :
    (token p).Reads [l] a anything := by
  intro us text _ written
  have solid := written.solid
  cases written with
  | @cons _ _ word gap rest spells between written =>
    obtain ⟨c, more, rfl, hc⟩ := between.break
    have took := h word spells c (more ++ rest) hc
    refine ⟨rest, written, ?_, ?_⟩
    · simp only [List.length_append, List.length_cons, List.length_nil]
      omega
    · rw [token, skipIgnored_of_solid solid]
      rw [List.cons_append, took, Reply.bind, ← List.cons_append, between.ignored.skip,
        skipIgnored_of_solid written.solid]

/-- Ignored text around what is read otherwise is none. -/
theorem Reads.token (h : p.Reads ls a next) : (token p).Reads ls a next := by
  intro us text hus written
  obtain ⟨rest, left, shorter, e⟩ := h us text hus written
  refine ⟨rest, left, shorter, ?_⟩
  rw [Document.token, skipIgnored_of_solid written.solid, e, Reply.bind,
    skipIgnored_of_solid left.solid]

theorem Reads.mono (h : p.Reads ls a next) (le : ∀ us, after us → next us) :
    p.Reads ls a after := fun us text hus => h us text (le us hus)

theorem Reads.map {f : α → β} (h : p.Reads ls a next) : (p.map f).Reads ls (f a) next := by
  intro us text hus written
  obtain ⟨rest, left, shorter, e⟩ := h us text hus written
  exact ⟨rest, left, shorter, by rw [Parser.map, e]; rfl⟩

theorem Reads.commit (h : p.Reads ls a next) : p.commit.Reads ls a next := by
  intro us text hus written
  obtain ⟨rest, left, shorter, e⟩ := h us text hus written
  exact ⟨rest, left, shorter, by rw [Parser.commit, e]⟩

theorem Reads.expecting {reason : String} (h : p.Reads ls a next) :
    (p.expecting reason).Reads ls a next := by
  intro us text hus written
  obtain ⟨rest, left, shorter, e⟩ := h us text hus written
  exact ⟨rest, left, shorter, by rw [Parser.expecting, e]; rfl⟩

/-- A parser and what is read after it. -/
theorem Reads.bind {f : α → Parser β} (hp : p.Reads ls a next) (hq : (f a).Reads ms b after)
    (follow : ∀ us, after us → next (ms ++ us)) :
    Reads (fun input => (p input).bind f) (ls ++ ms) b after := by
  intro us text hus written
  rw [List.append_assoc] at written
  obtain ⟨mid, first, shorter, e⟩ := hp (ms ++ us) text (follow us hus) written
  obtain ⟨rest, left, less, e'⟩ := hq us mid hus first
  refine ⟨rest, left, ?_, by simp only [e, Reply.bind, e']⟩
  rw [List.length_append]
  omega

theorem Reads.pair (hp : p.Reads ls a next) (hq : q.Reads ms b after)
    (follow : ∀ us, after us → next (ms ++ us)) : (pair p q).Reads (ls ++ ms) (a, b) after :=
  hp.bind (f := fun a => q.map fun b => (a, b)) hq.map follow

theorem Reads.andThen (hp : p.Reads ls a next) (hq : q.Reads ms b after)
    (follow : ∀ us, after us → next (ms ++ us)) : (andThen p q).Reads (ls ++ ms) b after :=
  hp.bind (f := fun _ => q) hq follow

theorem Reads.optional (h : p.Reads ls a next) : p.optional.Reads ls (some a) next := by
  intro us text hus written
  obtain ⟨rest, left, shorter, e⟩ := h us text hus written
  exact ⟨rest, left, shorter, by rw [Parser.optional, e]⟩

/-- What is optional and not there is read as such. -/
theorem Declines.optional (h : p.Declines next) : p.optional.Reads [] none next := by
  intro us text hus written
  obtain ⟨trail, e⟩ := h us text hus written
  exact ⟨text, written, Nat.le_refl _, by rw [Parser.optional, e]⟩

theorem reads_punct (c : Char) : (punct c).Reads [.punct c] c anything := by
  refine reads_token ?_
  rintro _ ⟨⟩ d rest hd
  exact if_pos rfl

theorem reads_name {s : String} : (Document.token name).Reads [.name s] s anything := by
  refine reads_token ?_
  rintro word spells
  cases spells with
  | name named =>
    have took := takes_name named
    rwa [String.ofList_toList] at took

/-- After an opening bracket, its body is read. -/
theorem Reads.opened (bracket : Char) (h : p.Reads ls a next) :
    (opened bracket (some p)).Reads (.punct bracket :: ls) a next := by
  intro us text hus written
  exact (reads_punct bracket).bind (f := fun _ => p) h (fun _ _ => trivial) us text hus written

/-! ### Repetition -/

/-- Each of the items is read, also where another one follows. -/
def ReadsEach (p : Parser α) (print : α → List Lexeme) (next : List Lexeme → Prop)
    (items : List α) : Prop :=
  ∀ a ∈ items, p.Reads (print a) a next ∧ print a ≠ [] ∧ ∀ us, next (print a ++ us)

/-- What follows an item is another one, or what comes after all of them. -/
theorem ReadsEach.follows {print : α → List Lexeme} {items : List α}
    (each : ReadsEach p print next items) {us : List Lexeme} (hus : next us) :
    next (items.flatMap print ++ us) := by
  cases items with
  | nil => exact hus
  | cons a items =>
    rw [List.flatMap_cons, List.append_assoc]
    exact (each a List.mem_cons_self).2.2 _

theorem ReadsEach.manyWithin {print : α → List Lexeme} {items : List α}
    (each : ReadsEach p print next items) (stop : p.Declines after)
    (le : ∀ us, after us → next us) {us : List Lexeme} (hus : after us) (fuel : Nat)
    {text : List Char} (written : Written (items.flatMap print ++ us) text)
    (enough : text.length < fuel) :
    ∃ rest, Written us rest ∧ rest.length + (items.flatMap print).length ≤ text.length ∧
      p.manyWithin fuel text = .ok items rest := by
  induction fuel generalizing items text with
  | zero => exact absurd enough (Nat.not_lt_zero _)
  | succ fuel ih =>
    cases items with
    | nil =>
      obtain ⟨trail, e⟩ := stop us text hus written
      exact ⟨text, written, Nat.le_refl _, by rw [Parser.manyWithin, e]⟩
    | cons a items =>
      obtain ⟨⟨reads, some_word, -⟩, later⟩ := List.forall_mem_cons.1 each
      rw [List.flatMap_cons, List.append_assoc] at written
      have follows : ReadsEach p print next items := later
      -- An item is at least one lexeme, so that reading it uses up text and the fuel lasts.
      obtain ⟨mid, first, shorter, e⟩ := reads _ text (follows.follows (le us hus)) written
      have word := List.length_pos_of_ne_nil some_word
      obtain ⟨rest, left, less, e'⟩ := ih later first (by omega)
      refine ⟨rest, left, ?_, ?_⟩
      · rw [List.flatMap_cons, List.length_append]
        omega
      · rw [Parser.manyWithin, e]
        simp only [e']
        exact if_pos (by omega)

theorem ReadsEach.many {print : α → List Lexeme} {items : List α}
    (each : ReadsEach p print next items) (stop : p.Declines after)
    (le : ∀ us, after us → next us) : (many p).Reads (items.flatMap print) items after := by
  intro us text hus written
  exact each.manyWithin stop le hus _ written (Nat.lt_succ_self _)

theorem ReadsEach.many1 {print : α → List Lexeme} {items : List α}
    (each : ReadsEach p print next items) (stop : p.Declines after)
    (le : ∀ us, after us → next us) (some_item : items ≠ []) :
    (many1 p).Reads (items.flatMap print) items after := by
  obtain ⟨a, items, rfl⟩ := List.exists_cons_of_ne_nil some_item
  obtain ⟨⟨reads, -, -⟩, later⟩ := List.forall_mem_cons.1 each
  have more : ReadsEach p print next items := later
  intro us text hus written
  rw [List.flatMap_cons, List.append_assoc] at written
  obtain ⟨mid, first, shorter, e⟩ := reads _ text (more.follows (le us hus)) written
  obtain ⟨rest, left, less, e'⟩ := more.many stop le us mid hus first
  refine ⟨rest, left, ?_, ?_⟩
  · rw [List.flatMap_cons, List.length_append]
    omega
  · rw [Parser.many1, e]
    simp only [e']
    rfl

/-! ### Alternatives -/

/-- The first alternative that does not fail softly decides. -/
theorem choiceFrom_eq_ok {before after : List (Parser α)} {text rest : List Char} (last : Trail)
    (refused : ∀ q ∈ before, ∃ trail, q text = .soft trail) (h : p text = .ok a rest) :
    choiceFrom last (before ++ p :: after) text = .ok a rest := by
  induction before generalizing last with
  | nil => rw [List.nil_append, choiceFrom, h]
  | cons q before ih =>
    obtain ⟨⟨trail, e⟩, later⟩ := List.forall_mem_cons.1 refused
    rw [List.cons_append, choiceFrom, e]
    exact ih trail later

/-- Alternatives that decline the first word are passed over. -/
theorem Reads.choice {before others : List (Parser α)} {l : Lexeme}
    (declined : ∀ q ∈ before, q.Declines (leads l)) (h : p.Reads (l :: ls) a next) :
    (choice (before ++ p :: others)).Reads (l :: ls) a next := by
  intro us text hus written
  obtain ⟨rest, left, shorter, e⟩ := h us text hus written
  refine ⟨rest, left, shorter, choiceFrom_eq_ok _ (fun q hq => ?_) e⟩
  exact declined q hq (l :: (ls ++ us)) text rfl written

/-- Alternatives that decline the first word are passed over, where ignored text
is taken care of outside. -/
theorem Reads.token_choice {before others : List (Parser α)} {l : Lexeme}
    (declined : ∀ q ∈ before, q.Declines (leads l))
    (h : (Document.token p).Reads (l :: ls) a next) :
    (Document.token (Parser.choice (before ++ p :: others))).Reads (l :: ls) a next := by
  intro us text hus written
  obtain ⟨rest, left, shorter, e⟩ := h us text hus written
  refine ⟨rest, left, shorter, ?_⟩
  rw [Document.token, skipIgnored_of_solid written.solid] at e ⊢
  -- The alternatives before decline the lexeme, so that the choice falls on this one.
  cases taken : p text with
  | ok b mid =>
    rw [taken] at e
    have chosen : Parser.choice (before ++ p :: others) text = .ok b mid :=
      choiceFrom_eq_ok _ (fun q hq => declined q hq (l :: (ls ++ us)) text rfl written) taken
    rw [chosen]
    exact e
  | soft trail =>
    rw [taken] at e
    cases e
  | hard trail =>
    rw [taken] at e
    cases e

end Parser

end EntityQuery.Document
