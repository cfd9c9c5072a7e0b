/-
EntityQuery/Yaml/Token.lean

The tokens of a YAML text.

Indentation becomes brackets here: where a line begins a deeper sequence or
mapping a token opens it, and where a later line is indented less a token
closes it.  That a scalar or a collection is the key of a mapping is only
known at the colon behind it; until then its place is remembered
(`PendingKey`), and at the colon the key token, and if need be the opening
token of the mapping, are put in at that place.

Inside brackets indentation means nothing.  Anchors, tags, directives and
block scalars are not taken.
-/
import EntityQuery.Yaml.Basic
import EntityQuery.Yaml.Scalar

namespace EntityQuery.Yaml

/-- A token.  An entry is the dash before an item of a block sequence. -/
inductive Token where
  | documentStart
  | documentEnd
  | blockSequence
  | blockMapping
  | blockEnd
  | openSequence
  | closeSequence
  | openMapping
  | closeMapping
  | comma
  | entry
  | key
  | value
  | scalar (value : Yaml)

/-- A place that may turn out to be that of a key.  A required one begins a
line of a block mapping and has to be a key. -/
structure PendingKey where
  required : Bool
  tokensBefore : Nat
  line : Nat
  column : Nat
  offset : Nat

/-- The state of reading tokens.  `indents` holds the columns of the open
blocks, innermost first; `outer` the pending keys outside each open bracket;
`tokens` what has been read. -/
structure Layout where
  here : Cursor
  indents : List Nat
  keyAllowed : Bool
  key : Option PendingKey
  outer : List (Option PendingKey)
  tokens : Array Token

namespace Layout

/-- Nothing read yet. -/
def start (text : List Char) : Layout := ⟨.start text, [], true, none, [], #[]⟩

/-- Whether the place is inside brackets. -/
def inFlow (s : Layout) : Bool := !s.outer.isEmpty

/-- One more token. -/
def emit (token : Token) (s : Layout) : Layout := { s with tokens := s.tokens.push token }

/-- Go on by some characters of the line. -/
def advance (n : Nat) (s : Layout) : Layout := { s with here := s.here.advance n }

/-- Allow or forbid a key at the next place. -/
def allowKey (allowed : Bool) (s : Layout) : Layout := { s with keyAllowed := allowed }

/-! ### Indentation -/

/-- Whether a column is deeper than the innermost block. -/
def isDeeper (s : Layout) (column : Nat) : Bool :=
  match s.indents with
  | [] => true
  | indent :: _ => indent < column

/-- The least column at which a scalar of the innermost block may go on. -/
def scalarIndent (s : Layout) : Nat :=
  match s.indents with
  | [] => 0
  | indent :: _ => indent + 1

/-- Put a token in behind the first `n` of those that have been read. -/
def insertAfter (n : Nat) (token : Token) (s : Layout) : Layout :=
  { s with tokens := s.tokens.insertIdxIfInBounds n token }

/-- Open a block at a column, behind the first `n` tokens, if the column is
deeper than the innermost block. -/
def openBlock (column n : Nat) (token : Token) (s : Layout) : Layout :=
  if s.inFlow || !s.isDeeper column then s
  else { s.insertAfter n token with indents := column :: s.indents }

/-- Close blocks while their column is refused; the refused ones and one end
token for each. -/
def closeWhile (refused : Nat → Bool) : List Nat → List Nat × List Token
  | [] => ([], [])
  | indent :: rest =>
    if refused indent then
      let (kept, ends) := closeWhile refused rest
      (kept, .blockEnd :: ends)
    else (indent :: rest, [])

/-- Close the blocks whose column is refused, outside brackets. -/
def closeBlocks (refused : Nat → Bool) (s : Layout) : Layout :=
  if s.inFlow then s
  else
    let (kept, ends) := closeWhile refused s.indents
    { s with indents := kept, tokens := s.tokens ++ ends }

/-! ### Pending keys -/

/-- The greatest number of bytes from the beginning of a key to its colon. -/
def keyReach : Nat := 1024

/-- Give up a pending key; one that is required cannot be given up. -/
def giveUp : Option PendingKey → Option (Option PendingKey)
  | some k => if k.required then none else some none
  | none => some none

/-- Give up a pending key if its colon can no longer follow: a key does not
go over the end of a line. -/
def expire (here : Cursor) (key : Option PendingKey) : Option (Option PendingKey) :=
  match key with
  | some k =>
    if k.line < here.line || k.offset + keyReach < here.offset then giveUp key else some key
  | none => some none

/-- Give up the pending keys whose colons can no longer follow. -/
def expireKeys (s : Layout) : Option Layout := do
  let key ← expire s.here s.key
  let outer ← s.outer.mapM (expire s.here)
  return { s with key := key, outer := outer }

/-- Give up the pending key of this level. -/
def dropKey (s : Layout) : Option Layout := do
  let key ← giveUp s.key
  return { s with key := key }

/-- Remember this place as that of a possible key. -/
def rememberKey (s : Layout) : Option Layout :=
  if s.keyAllowed then do
    let s ← s.dropKey
    let required := !s.inFlow && s.indents.head? = some s.here.column
    return { s with
      key := some ⟨required, s.tokens.size, s.here.line, s.here.column, s.here.offset⟩ }
  else some s

/-! ### Tokens -/

/-- The start or the end of a document. -/
def documentMark (token : Token) (s : Layout) : Option Layout := do
  let s ← (s.closeBlocks fun _ => true).dropKey
  return ((s.allowKey false).emit token).advance 3

/-- An opening bracket. -/
def openBracket (token : Token) (s : Layout) : Option Layout := do
  let s ← s.rememberKey
  return (({ s with key := none, outer := s.key :: s.outer }.allowKey true).emit token).advance 1

/-- A closing bracket. -/
def closeBracket (token : Token) (s : Layout) : Option Layout := do
  let s ← s.dropKey
  let s :=
    match s.outer with
    | key :: outer => { s with key := key, outer := outer }
    | [] => s
  return ((s.allowKey false).emit token).advance 1

/-- A comma. -/
def comma (s : Layout) : Option Layout := do
  let s ← s.dropKey
  return ((s.allowKey true).emit .comma).advance 1

/-- The dash of an item. -/
def entry (s : Layout) : Option Layout := do
  if !s.inFlow && !s.keyAllowed then none
  let s ← (s.openBlock s.here.column s.tokens.size .blockSequence).dropKey
  return ((s.allowKey true).emit .entry).advance 1

/-- The question mark of a key. -/
def explicitKey (s : Layout) : Option Layout := do
  if !s.inFlow && !s.keyAllowed then none
  let s ← (s.openBlock s.here.column s.tokens.size .blockMapping).dropKey
  return ((s.allowKey (!s.inFlow)).emit .key).advance 1

/-- The colon before a value. -/
def value (s : Layout) : Option Layout :=
  match s.key with
  | some k =>
    let s := { s with key := none }.insertAfter k.tokensBefore .key
    let s := s.openBlock k.column k.tokensBefore .blockMapping
    some (((s.allowKey false).emit .value).advance 1)
  | none => do
    if !s.inFlow && !s.keyAllowed then none
    let s := s.openBlock s.here.column s.tokens.size .blockMapping
    return ((s.allowKey (!s.inFlow)).emit .value).advance 1

/-- A scalar, given how to read it. -/
def scalar (read : Layout → Option ScalarText) (make : String → Yaml) (s : Layout) :
    Option Layout := do
  let s ← s.rememberKey
  let found ← read s
  let s := (s.allowKey found.brokenAfter).emit (.scalar (make found.text))
  return { s with here := found.after }

/-- The characters that have a meaning of their own at the start of a
token. -/
def indicators : List Char :=
  ['-', '?', ':', ',', '[', ']', '{', '}', '#', '&', '*', '!', '|', '>', '\'', '"', '%', '@',
   '\x60']

/-- Whether a plain scalar may begin with a character. -/
def beginsPlain (flow : Bool) (c : Char) (rest : List Char) : Bool :=
  !(isBlank c || indicators.contains c) ||
    (c = '-' && !(rest.head?.any isBlank)) ||
    (!flow && (c = '?' || c = ':') && !atGap rest)

/-- One token that begins with a given character, outside document marks. -/
def tokenOf (s : Layout) (c : Char) (rest : List Char) : Option Layout :=
  if c = '[' then s.openBracket .openSequence
  else if c = '{' then s.openBracket .openMapping
  else if c = ']' then s.closeBracket .closeSequence
  else if c = '}' then s.closeBracket .closeMapping
  else if c = ',' then s.comma
  else if c = '-' && atGap rest then s.entry
  else if c = '?' && (s.inFlow || atGap rest) then s.explicitKey
  else if c = ':' && (s.inFlow || atGap rest) then s.value
  else if c = '\'' then s.scalar (fun s => readQuoted true s.here) .quoted
  else if c = '"' then s.scalar (fun s => readQuoted false s.here) .quoted
  else if beginsPlain s.inFlow c rest then
    s.scalar (fun s => readPlain s.inFlow s.scalarIndent s.here) .plain
  else none

/-- One token. -/
def step (s : Layout) : Option Layout :=
  match s.here.rest with
  | [] => none
  | c :: rest =>
    if s.here.column = 0 && c = '%' then none
    else if s.here.atMark then
      s.documentMark (if c = '-' then .documentStart else .documentEnd)
    else s.tokenOf c rest

/-! ### Whole texts -/

/-- The byte order mark.  At the beginning of a line it is passed over, but
it takes a column. -/
def orderMark : Char := '\ufeff'

/-- Go on to the next token, over blanks, comments and the ends of lines.
Where a block may begin a tab is no blank. -/
def skipGap : Nat → Layout → Layout
  | 0, s => s
  | fuel + 1, s =>
    match s.here.rest, breakAt? s.here.rest with
    | [], _ => s
    | _, some (_, n) =>
      skipGap fuel { s with here := s.here.nextLine n, keyAllowed := !s.inFlow || s.keyAllowed }
    | c :: rest, none =>
      if c = ' ' || (c = '\t' && (s.inFlow || !s.keyAllowed)) ||
          (c = orderMark && s.here.column = 0) then
        skipGap fuel (s.advance 1)
      else if c = '#' then
        skipGap fuel (s.advance ((rest.takeWhile fun d => !isBreak d).length + 1))
      else s

/-- The tokens up to the end of the text. -/
def finish (s : Layout) : Option (List Token) := do
  let s ← (s.closeBlocks fun _ => true).dropKey
  return s.tokens.toList

/-- The tokens of the text from here on. -/
def run : Nat → Layout → Option (List Token)
  | 0, _ => none
  | fuel + 1, s => do
    let s ← (s.skipGap s.here.size).expireKeys
    let s := s.closeBlocks fun indent => s.here.column < indent
    if s.here.rest.isEmpty then s.finish
    else
      let s ← s.step
      s.run fuel

end Layout

/-- The tokens of a text. -/
def tokens? (text : List Char) : Option (List Token) :=
  (Layout.start text).run (text.length + 1)

end EntityQuery.Yaml
