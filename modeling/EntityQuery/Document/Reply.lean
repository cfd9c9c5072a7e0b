/-
EntityQuery/Document/Reply.lean

Parsers of a text and what they answer.

A parser either succeeds with a value and the rest of the text, or fails.
A failure is soft when another alternative may still be tried, and hard when
the text is committed to be wrong.  It carries a trail of complaints, the
innermost first: what was wrong, and the text that was left there.

`choice` keeps the complaint of its last alternative, `many1` and `choice`
add one of their own at the place where they started, and `expecting` adds a
stated expectation to whatever went wrong inside.
-/

namespace EntityQuery.Document

/-- What was wrong at a place, given by the text that was left there. -/
structure Complaint where
  rest : List Char
  reason : String
deriving DecidableEq

/-- Complaints, the innermost first. -/
abbrev Trail := List Complaint

/-- What a parser answers. -/
inductive Reply (α : Type) where
  | ok (value : α) (rest : List Char)
  | soft (trail : Trail)
  | hard (trail : Trail)

/-- A parser. -/
abbrev Parser (α : Type) := List Char → Reply α

/-- The reason of a failure that has no better description. -/
def unknownReason : String := "unknown error"

/-- The reason added where a group of alternatives or a repetition failed. -/
def appendedReason : String := "unknown error (appended)"

namespace Reply

variable {α β : Type}

/-- Go on with the value and the rest. -/
def bind (r : Reply α) (next : α → List Char → Reply β) : Reply β :=
  match r with
  | .ok value rest => next value rest
  | .soft trail => .soft trail
  | .hard trail => .hard trail

/-- Change the value. -/
def map (f : α → β) (r : Reply α) : Reply β := r.bind fun value rest => .ok (f value) rest

/-- Add a complaint to a failure. -/
def addComplaint (c : Complaint) : Reply α → Reply α
  | .ok value rest => .ok value rest
  | .soft trail => .soft (trail ++ [c])
  | .hard trail => .hard (trail ++ [c])

end Reply

namespace Parser

variable {α β : Type}

/-- Fail where no alternative is left to describe. -/
def fail : Parser α := fun input => .soft [⟨input, unknownReason⟩]

/-- Fail for good with a reason. -/
def abort (reason : String) : Parser α := fun input => .hard [⟨input, reason⟩]

/-- Two parsers in a row, keeping the second value. -/
def andThen (first : Parser α) (second : Parser β) : Parser β := fun input =>
  (first input).bind fun _ rest => second rest

/-- Two parsers in a row, keeping both values. -/
def pair (first : Parser α) (second : Parser β) : Parser (α × β) := fun input =>
  (first input).bind fun a rest => (second rest).map fun b => (a, b)

/-- Apply a function to the value. -/
def map (f : α → β) (p : Parser α) : Parser β := fun input => (p input).map f

/-- Commit: what is missing now is wrong. -/
def commit (p : Parser α) : Parser α := fun input =>
  match p input with
  | .soft trail => .hard trail
  | reply => reply

/-- State what is expected here. -/
def expecting (reason : String) (p : Parser α) : Parser α := fun input =>
  (p input).addComplaint ⟨input, reason⟩

/-- The value if it is there. -/
def optional (p : Parser α) : Parser (Option α) := fun input =>
  match p input with
  | .ok value rest => .ok (some value) rest
  | .soft _ => .ok none input
  | .hard trail => .hard trail

/-- The first alternative that does not fail softly; `last` is the complaint
of the alternative before. -/
def choiceFrom (last : Trail) : List (Parser α) → Parser α
  | [], input => .soft (last ++ [⟨input, appendedReason⟩])
  | p :: ps, input =>
    match p input with
    | .soft trail => choiceFrom trail ps input
    | reply => reply

/-- The first alternative that does not fail softly. -/
def choice (ps : List (Parser α)) : Parser α := choiceFrom [] ps

/-- As many in a row as there are.  Each takes at least one character, so
`fuel` is the length of the text; one that takes nothing fails. -/
def manyWithin (p : Parser α) : Nat → Parser (List α)
  | 0, input => .ok [] input
  | fuel + 1, input =>
    match p input with
    | .ok value rest =>
      if rest.length < input.length then (manyWithin p fuel rest).map (value :: ·)
      else .soft [⟨input, unknownReason⟩]
    | .soft _ => .ok [] input
    | .hard trail => .hard trail

/-- As many in a row as there are, none included. -/
def many (p : Parser α) : Parser (List α) := fun input =>
  manyWithin p (input.length + 1) input

/-- As many in a row as there are, at least one. -/
def many1 (p : Parser α) : Parser (List α) := fun input =>
  match p input with
  | .ok value rest => (many p rest).map (value :: ·)
  | .soft trail => .soft (trail ++ [⟨input, appendedReason⟩])
  | .hard trail => .hard trail

end Parser

end EntityQuery.Document
