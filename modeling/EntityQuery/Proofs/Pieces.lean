/-
EntityQuery/Proofs/Pieces.lean

The placeholders of a text.

Cutting a text into pieces loses nothing (`text_pieces`), and a placeholder
takes as many characters as it can (`munched_pieces`), so `$p1` is never read
where `$p10` stands.

Which placeholders a text has can be seen from its parts.  A text that
mentions certain names (`Mentions`) may have a placeholder at its very end,
whose name would go on with what follows; one that does not is complete
(`Completes`).  Texts without a dollar sign are complete, and what follows a
placeholder in SQL begins with a blank, a comma or a bracket.
-/
import EntityQuery.Sql.Substitute

namespace EntityQuery.Sql

/-! ### Pieces as text -/

/-- The text of a piece. -/
def Piece.text : Piece → List Char
  | .character c => [c]
  | .placeholder name => '$' :: name

/-- What has been read of a placeholder. -/
def readText : Option (List Char) → List Char
  | none => []
  | some name => '$' :: name

/-- The pieces of a text make it up again. -/
theorem text_piecesFrom (reading : Option (List Char)) (text : List Char) :
    (piecesFrom reading text).flatMap Piece.text = readText reading ++ text := by
  induction text generalizing reading with
  | nil =>
    rcases reading with - | - | ⟨c, name⟩ <;> simp [piecesFrom, readText, Piece.text]
  | cons c rest ih =>
    cases reading with
    | none =>
      rw [piecesFrom]
      split
      · next dollar =>
        subst dollar
        exact ih (some [])
      · rw [List.flatMap_cons, ih]
        rfl
    | some name =>
      rw [piecesFrom]
      split
      · rw [ih]
        simp [readText]
      · -- The name ends here; without a name, the dollar sign stands for itself.
        have done : Piece.text (if name.isEmpty then .character '$' else .placeholder name) =
            '$' :: name := by
          cases name <;> rfl
        rw [List.flatMap_cons, done]
        refine congrArg (('$' :: name) ++ ·) ?_
        split
        · next dollar =>
          subst dollar
          exact ih (some [])
        · rw [List.flatMap_cons, ih]
          rfl

/-- The pieces of a text, one after the other, are the text. -/
theorem text_pieces (text : List Char) : (pieces text).flatMap Piece.text = text :=
  text_piecesFrom none text

/-! ### Maximal munch -/

/-- Nothing at the beginning of the text would go on with a name. -/
def Stops (text : List Char) : Prop := ∀ c, text.head? = some c → isPlaceholderPart c = false

/-- Every placeholder has a name, and the name goes on as far as it can. -/
def Munched : List Piece → Prop
  | [] => True
  | .character _ :: rest => Munched rest
  | .placeholder name :: rest =>
    name ≠ [] ∧ (∀ c ∈ name, isPlaceholderPart c = true) ∧ Stops (rest.flatMap Piece.text) ∧
      Munched rest

/-- Placeholders are read as far as they go. -/
theorem munched_piecesFrom (reading : Option (List Char)) (text : List Char)
    (parts : ∀ name, reading = some name → ∀ c ∈ name, isPlaceholderPart c = true) :
    Munched (piecesFrom reading text) := by
  induction text generalizing reading with
  | nil =>
    rcases reading with - | - | ⟨c, name⟩
    · trivial
    · trivial
    · refine ⟨List.cons_ne_nil _ _, parts _ rfl, ?_, trivial⟩
      rintro d ⟨⟩
  | cons c rest ih =>
    -- After a placeholder, or without one, reading starts anew.
    have anew : Munched (if c = '$' then piecesFrom (some []) rest
        else .character c :: piecesFrom none rest) := by
      split
      · refine ih (some []) ?_
        rintro name ⟨⟩ d hd
        exact absurd hd List.not_mem_nil
      · refine ih none ?_
        rintro name ⟨⟩
    cases reading with
    | none => exact anew
    | some name =>
      rw [piecesFrom]
      split
      · -- The name goes on.
        next part =>
        refine ih _ ?_
        rintro longer ⟨⟩ d hd
        rcases List.mem_append.1 hd with hd | hd
        · exact parts name rfl d hd
        · rw [List.mem_singleton.1 hd]
          exact part
      · -- The name ends at a character that is no part of it.
        next other =>
        cases name with
        | nil => exact anew
        | cons d name =>
          refine ⟨List.cons_ne_nil _ _, parts _ rfl, ?_, anew⟩
          have text : (if c = '$' then piecesFrom (some []) rest
              else .character c :: piecesFrom none rest).flatMap Piece.text = c :: rest :=
            text_piecesFrom none (c :: rest)
          rw [text]
          rintro _ ⟨⟩
          simpa using other

/-- Placeholders are read by maximal munch. -/
theorem munched_pieces (text : List Char) : Munched (pieces text) := by
  refine munched_piecesFrom none text ?_
  rintro name ⟨⟩

/-! ### Names that a text mentions -/

/-- A character other than a dollar sign, or a placeholder of one of the
names. -/
def Piece.Among (names : List String) : Piece → Prop
  | .character c => c ≠ '$'
  | .placeholder name => String.ofList name ∈ names

/-- The text has placeholders of these names only, and no other dollar sign,
if what follows does not go on with a name. -/
def Mentions (names : List String) (text : List Char) : Prop :=
  ∃ ps : List Piece, (∀ p ∈ ps, p.Among names) ∧
    ∀ after, Stops after → pieces (text ++ after) = ps ++ pieces after

/-- The text has placeholders of these names only, and no other dollar sign,
whatever follows. -/
def Completes (names : List String) (text : List Char) : Prop :=
  ∃ ps : List Piece, (∀ p ∈ ps, p.Among names) ∧
    ∀ after, pieces (text ++ after) = ps ++ pieces after

variable {names : List String} {t u : List Char}

theorem Completes.mentions (h : Completes names t) : Mentions names t := by
  obtain ⟨ps, among, cut⟩ := h
  exact ⟨ps, among, fun after _ => cut after⟩

/-- Plain text, without a dollar sign, mentions nothing. -/
theorem completes_of_not_mem (h : '$' ∉ t) : Completes names t := by
  refine ⟨t.map .character, fun p hp => ?_, fun after => ?_⟩
  · obtain ⟨c, hc, rfl⟩ := List.mem_map.1 hp
    rintro rfl
    exact h hc
  · induction t with
    | nil => rfl
    | cons c t ih =>
      rw [List.mem_cons, not_or] at h
      show piecesFrom none (c :: (t ++ after)) = _
      rw [piecesFrom, if_neg (Ne.symm h.1)]
      exact congrArg (Piece.character c :: ·) (ih h.2)

/-- A name that ends is a placeholder of its own. -/
theorem piecesFrom_name {read name after : List Char} (nonempty : read ++ name ≠ [])
    (parts : ∀ c ∈ name, isPlaceholderPart c = true) (stops : Stops after) :
    piecesFrom (some read) (name ++ after) =
      .placeholder (read ++ name) :: piecesFrom none after := by
  -- Along the name, which is taken into the placeholder one character after the other.
  induction name generalizing read with
  | nil =>
    rw [List.append_nil] at nonempty ⊢
    have named : read.isEmpty = false := by simpa using nonempty
    cases after with
    | nil =>
      rw [List.append_nil, piecesFrom]
      cases read with
      | nil => exact absurd rfl nonempty
      | cons c read => rfl
    | cons c after =>
      have other : ¬ isPlaceholderPart c = true := by
        rw [stops c rfl]
        exact Bool.false_ne_true
      show (if isPlaceholderPart c = true then _ else _) = _
      rw [if_neg other, named]
      rfl
  | cons c name ih =>
    rw [List.cons_append, piecesFrom, if_pos (parts c List.mem_cons_self),
      ih (by simp) fun d hd => parts d (List.mem_cons_of_mem _ hd), List.append_assoc]
    rfl

/-- A placeholder mentions its name. -/
theorem mentions_placeholder {name : String} (hn : name ∈ names) (nonempty : name.toList ≠ [])
    (parts : ∀ c ∈ name.toList, isPlaceholderPart c = true) :
    Mentions names ('$' :: name.toList) := by
  refine ⟨[.placeholder name.toList], fun p hp => ?_, fun after stops => ?_⟩
  · rw [List.mem_singleton.1 hp]
    show String.ofList name.toList ∈ names
    rwa [String.ofList_toList]
  · show piecesFrom (some []) (name.toList ++ after) = .placeholder ([] ++ name.toList) :: _
    exact piecesFrom_name nonempty parts stops

/-- Texts that complete their placeholders can stand one after the other. -/
theorem Completes.append (ht : Completes names t) (hu : Completes names u) :
    Completes names (t ++ u) := by
  obtain ⟨ps, amongP, cutP⟩ := ht
  obtain ⟨qs, amongQ, cutQ⟩ := hu
  refine ⟨ps ++ qs, List.forall_mem_append.2 ⟨amongP, amongQ⟩, fun after => ?_⟩
  rw [List.append_assoc, List.append_assoc, cutP, cutQ]

/-- Behind a text that completes its placeholders those of the next stay its
own. -/
theorem Completes.append_mentions (ht : Completes names t) (hu : Mentions names u) :
    Mentions names (t ++ u) := by
  obtain ⟨ps, amongP, cutP⟩ := ht
  obtain ⟨qs, amongQ, cutQ⟩ := hu
  refine ⟨ps ++ qs, List.forall_mem_append.2 ⟨amongP, amongQ⟩, fun after stops => ?_⟩
  rw [List.append_assoc, List.append_assoc, cutP, cutQ after stops]

/-- The text begins with something that no name goes on with. -/
def breaks : List Char → Bool
  | [] => false
  | c :: _ => !isPlaceholderPart c

/-- What breaks off a name completes a text. -/
theorem Mentions.append (ht : Mentions names t) (hu : Completes names u) (off : breaks u = true) :
    Completes names (t ++ u) := by
  obtain ⟨ps, amongP, cutP⟩ := ht
  obtain ⟨qs, amongQ, cutQ⟩ := hu
  refine ⟨ps ++ qs, List.forall_mem_append.2 ⟨amongP, amongQ⟩, fun after => ?_⟩
  have stops : Stops (u ++ after) := by
    cases u with
    | nil => cases off
    | cons c u =>
      rintro _ ⟨⟩
      simpa [breaks] using off
  rw [List.append_assoc, List.append_assoc, cutP _ stops, cutQ]

/-- A text between plain texts, the second of which breaks off a name. -/
theorem Mentions.between (ht : Mentions names t) (before after : String)
    (plain : '$' ∉ before.toList) (plain' : '$' ∉ after.toList)
    (off : breaks after.toList = true) :
    Completes names (before.toList ++ t ++ after.toList) :=
  ((completes_of_not_mem plain).append_mentions ht).append (completes_of_not_mem plain') off

/-- Texts with a separator that breaks off a name. -/
theorem mentions_intercalate {separator : List Char} {ts : List (List Char)}
    (h : ∀ t ∈ ts, Mentions names t) (plain : '$' ∉ separator)
    (off : breaks separator = true) : Mentions names (separator.intercalate ts) := by
  induction ts with
  | nil => exact (completes_of_not_mem (t := []) List.not_mem_nil).mentions
  | cons t ts ih =>
    obtain ⟨first, others⟩ := List.forall_mem_cons.1 h
    cases ts with
    | nil => simpa using first
    | cons t' ts =>
      rw [List.intercalate_cons_cons]
      exact (first.append (completes_of_not_mem plain) off).append_mentions (ih others)

/-- The pieces of a text that mentions certain names. -/
theorem Mentions.among (h : Mentions names t) : ∀ p ∈ pieces t, p.Among names := by
  obtain ⟨ps, among, cut⟩ := h
  have all := cut [] (by rintro c ⟨⟩)
  rw [List.append_nil] at all
  rw [all]
  exact List.forall_mem_append.2 ⟨among, fun p hp => absurd hp List.not_mem_nil⟩

end EntityQuery.Sql
