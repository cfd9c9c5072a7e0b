/-
EntityQuery/Proofs/Reading.lean

What parsers read.

Whatever holds of everything that a parser reads (`Parser.Yields`) passes from
the parts of a parser to the whole, one lemma for each combinator.  A name is
made of letters, digits and underscores, so it has no dot in it; hence no field
of a document does, at any depth (`named_parse`).
-/
import EntityQuery.Document.Request
import EntityQuery.Proofs.Columns

namespace EntityQuery.Document

/-! ### Replies -/

namespace Reply

variable {α β : Type}

theorem bind_eq_ok {r : Reply α} {next : α → List Char → Reply β} {value : β}
    {rest : List Char} :
    r.bind next = .ok value rest ↔ ∃ a left, r = .ok a left ∧ next a left = .ok value rest := by
  cases r with
  | ok a left =>
    constructor
    · intro h
      exact ⟨a, left, rfl, h⟩
    · rintro ⟨_, _, e, h⟩
      cases e
      exact h
  | soft trail => simp [bind]
  | hard trail => simp [bind]

theorem map_eq_ok {r : Reply α} {f : α → β} {value : β} {rest : List Char} :
    r.map f = .ok value rest ↔ ∃ a, r = .ok a rest ∧ f a = value := by
  simp only [map]
  rw [bind_eq_ok]
  constructor
  · rintro ⟨a, left, h, e⟩
    cases e
    exact ⟨a, h, rfl⟩
  · rintro ⟨a, h, rfl⟩
    exact ⟨a, rest, h, rfl⟩

end Reply

/-! ### What a parser yields -/

namespace Parser

variable {α β : Type} {p : Parser α} {q : Parser β} {good : α → Prop} {better : β → Prop}

/-- Whatever the parser reads is good. -/
def Yields (p : Parser α) (good : α → Prop) : Prop :=
  ∀ input value rest, p input = .ok value rest → good value

/-- What a sequence yields is what its last part yields. -/
theorem Yields.andThen (hq : q.Yields better) : (andThen p q).Yields better := by
  intro input value rest h
  obtain ⟨_, left, -, h⟩ := Reply.bind_eq_ok.1 h
  exact hq left value rest h

theorem Yields.pair_left (hp : p.Yields good) : (pair p q).Yields fun ab => good ab.1 := by
  intro input ab rest h
  obtain ⟨a, left, first, h⟩ := Reply.bind_eq_ok.1 h
  obtain ⟨b, -, rfl⟩ := Reply.map_eq_ok.1 h
  exact hp input a left first

theorem Yields.map {f : α → β} (hp : p.Yields good) (h : ∀ a, good a → better (f a)) :
    (p.map f).Yields better := by
  intro input value rest mapped
  obtain ⟨a, read, rfl⟩ := Reply.map_eq_ok.1 mapped
  exact h a (hp input a rest read)

theorem Yields.commit (hp : p.Yields good) : p.commit.Yields good := by
  intro input value rest h
  simp only [Parser.commit] at h
  split at h
  · cases h
  · exact hp input value rest h

theorem Yields.expecting {reason : String} (hp : p.Yields good) :
    (p.expecting reason).Yields good := by
  intro input value rest h
  simp only [Parser.expecting] at h
  cases read : p input with
  | ok a left =>
    rw [read] at h
    cases h
    exact hp input value rest read
  | soft trail =>
    rw [read] at h
    cases h
  | hard trail =>
    rw [read] at h
    cases h

theorem Yields.optional (hp : p.Yields good) :
    p.optional.Yields fun found => ∀ a, found = some a → good a := by
  intro input found rest h a e
  subst e
  simp only [Parser.optional] at h
  split at h
  · next value left read =>
    cases h
    exact hp input a rest read
  · cases h
  · cases h

/-- A repetition yields what its parser does, item by item. -/
theorem Yields.manyWithin (hp : p.Yields good) (fuel : Nat) :
    (p.manyWithin fuel).Yields fun found => ∀ a ∈ found, good a := by
  induction fuel with
  | zero =>
    intro input found rest h
    cases h
    exact fun a ha => absurd ha List.not_mem_nil
  | succ fuel ih =>
    intro input found rest h
    simp only [Parser.manyWithin] at h
    split at h
    · next value left read =>
      split at h
      · obtain ⟨values, more, rfl⟩ := Reply.map_eq_ok.1 h
        exact List.forall_mem_cons.2 ⟨hp input value left read, ih left values rest more⟩
      · cases h
    · cases h
      exact fun a ha => absurd ha List.not_mem_nil
    · cases h

theorem Yields.many1 (hp : p.Yields good) :
    p.many1.Yields fun found => ∀ a ∈ found, good a := by
  intro input found rest h
  simp only [Parser.many1] at h
  split at h
  · next value left read =>
    obtain ⟨values, more, rfl⟩ := Reply.map_eq_ok.1 h
    exact List.forall_mem_cons.2
      ⟨hp input value left read, hp.manyWithin (left.length + 1) left values rest more⟩
  · cases h
  · cases h

theorem Yields.token (hp : p.Yields good) : (token p).Yields good := by
  intro input value rest h
  obtain ⟨a, left, read, h⟩ := Reply.bind_eq_ok.1 h
  cases h
  exact hp _ value left read

theorem Yields.opened {bracket : Char} {body : Option (Parser α)}
    (hp : ∀ p, body = some p → p.Yields good) : (opened bracket body).Yields good := by
  intro input value rest h
  obtain ⟨_, inner, -, h⟩ := Reply.bind_eq_ok.1 h
  cases body with
  | none => cases h
  | some p => exact hp p rfl inner value rest h

end Parser

/-! ### Names -/

/-- No character of a name is a dot. -/
theorem not_isNamePart_dot : isNameStart '.' = false ∧ isNamePart '.' = false := by decide

/-- A name has no dot in it. -/
theorem yields_name : Parser.Yields name Dotless := by
  intro input value rest h
  simp only [name] at h
  split at h
  case h_2 => cases h
  next c letters =>
  split at h
  case isFalse => cases h
  next start =>
  cases h
  simp only [Dotless]
  rw [String.toList_ofList, List.mem_cons, not_or]
  constructor
  · rintro rfl
    rw [not_isNamePart_dot.1] at start
    cases start
  · intro dot
    have part := List.all_eq_true.1 List.all_takeWhile _ dot
    rw [not_isNamePart_dot.2] at part
    cases part

/-! ### Fields -/

/-- Fields are named without dots if those below them are. -/
theorem yields_fieldOver {selection : Parser (List Field)}
    (hs : selection.Yields (Field.AllThroughout (·.Named Dotless))) :
    (fieldOver selection).Yields (Field.Throughout (·.Named Dotless)) := by
  intro input value rest h
  simp only [fieldOver] at h
  obtain ⟨first, left₁, read₁, h⟩ := Reply.bind_eq_ok.1 h
  obtain ⟨second, left₂, read₂, h⟩ := Reply.bind_eq_ok.1 h
  obtain ⟨args, left₃, -, h⟩ := Reply.bind_eq_ok.1 h
  obtain ⟨fields, left₄, read₄, h⟩ := Reply.bind_eq_ok.1 h
  -- Either name may be that of the field, so both have to be good.
  have first_ok := yields_name.token _ _ _ read₁
  have second_ok := (yields_name.token.commit.andThen (p := punct ':')).optional _ _ _ read₂
  have fields_ok : Field.AllThroughout (·.Named Dotless) (fields.getD []) := by
    cases fields with
    | none => trivial
    | some fs => exact hs.optional _ _ _ read₄ fs rfl
  -- The name is the second one where there are two, and the first one is the label.
  cases second with
  | none =>
    cases h
    exact ⟨first_ok, fields_ok⟩
  | some other =>
    cases h
    exact ⟨second_ok other rfl, fields_ok⟩

theorem yields_selectionBody {field : Parser Field}
    (hf : field.Yields (Field.Throughout (·.Named Dotless))) :
    (selectionBody field).Yields (Field.AllThroughout (·.Named Dotless)) := by
  apply Parser.Yields.commit
  refine Parser.Yields.map hf.many1.expecting.pair_left ?_
  intro fields named
  exact Field.allThroughout_iff.2 named

theorem yields_selectionWithin (room : Nat) :
    (selectionWithin room).Yields (Field.AllThroughout (·.Named Dotless)) := by
  induction room with
  | zero => exact Parser.Yields.opened fun p h => nomatch h
  | succ room ih =>
    refine Parser.Yields.opened fun p h => ?_
    cases h
    exact yields_selectionBody (yields_fieldOver ih)

/-- The fields of a document, at any depth, have names without dots. -/
theorem named_parse {text : String} {op : Operation} (h : parse text = .ok op) :
    Field.AllThroughout (·.Named Dotless) op.selection := by
  simp only [parse, parseChars] at h
  split at h
  case h_2 => cases h
  case h_3 => cases h
  next op' rest read =>
  split at h
  case isFalse => cases h
  cases h
  simp only [operation] at read
  split at read
  · cases read
  · obtain ⟨head, left, -, read⟩ := Reply.bind_eq_ok.1 read
    obtain ⟨selection, inner, rfl⟩ := Reply.map_eq_ok.1 read
    exact (yields_selectionWithin maxNesting).commit.expecting left selection rest inner

end EntityQuery.Document
