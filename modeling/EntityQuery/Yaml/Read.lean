/-
EntityQuery/Yaml/Read.lean

Reading YAML text: the one document that it holds.

Every place at which a value may stand but none does holds nothing
(`Yaml.nothing`).  The items of a sequence that is the value of a mapping may
be indented as far as the mapping itself; such a sequence has no token of its
own and ends where no further item follows.
-/
import EntityQuery.Yaml.Token

namespace EntityQuery.Yaml

/-- A reader of one value at the beginning of some tokens. -/
abbrev TokenReader (α : Type) := List Token → Option (α × List Token)

/-- Where a value stands: in brackets, as an item of a block, or as a key or
value of a block mapping. -/
inductive Place where
  | bracket
  | block
  | member
deriving DecidableEq, Repr

/-! ### Tokens that end a value -/

/-- Whether an item of a block sequence cannot begin with a token. -/
def endsItem : Token → Bool
  | .entry => true
  | .blockEnd => true
  | _ => false

/-- Whether a key or value of a block mapping cannot begin with a token. -/
def endsMember : Token → Bool
  | .key => true
  | .value => true
  | .blockEnd => true
  | _ => false

/-- Whether an item of a sequence without a token of its own cannot begin
with a token. -/
def endsLooseItem (token : Token) : Bool := endsItem token || endsMember token

/-- Whether a key or value in brackets cannot begin with a token. -/
def endsBracketed : Token → Bool
  | .value => true
  | .comma => true
  | .closeSequence => true
  | .closeMapping => true
  | _ => false

/-- A value, or nothing where one cannot begin. -/
def orNothing (ends : Token → Bool) (read : TokenReader Yaml) : TokenReader Yaml
  | [] => none
  | token :: rest => if ends token then some (nothing, token :: rest) else read (token :: rest)

/-! ### Blocks -/

/-- The items of a block sequence. -/
def blockItems (read : TokenReader Yaml) : Nat → TokenReader (List Yaml)
  | 0, _ => none
  | fuel + 1, .entry :: rest => do
    let (x, rest) ← orNothing endsItem read rest
    let (xs, rest) ← blockItems read fuel rest
    return (x :: xs, rest)
  | _, .blockEnd :: rest => some ([], rest)
  | _, _ => none

/-- The items of a sequence without a token of its own. -/
def looseItems (read : TokenReader Yaml) : Nat → TokenReader (List Yaml)
  | 0, _ => none
  | fuel + 1, .entry :: rest => do
    let (x, rest) ← orNothing endsLooseItem read rest
    let (xs, rest) ← looseItems read fuel rest
    return (x :: xs, rest)
  | _, rest => some ([], rest)

/-- The value of an entry of a block mapping. -/
def memberValue (read : TokenReader Yaml) : TokenReader Yaml
  | .value :: rest => orNothing endsMember read rest
  | rest => some (nothing, rest)

/-- The entries of a block mapping. -/
def blockEntries (read : TokenReader Yaml) : Nat → TokenReader (List (Yaml × Yaml))
  | 0, _ => none
  | fuel + 1, .key :: rest => do
    let (k, rest) ← orNothing endsMember read rest
    let (v, rest) ← memberValue read rest
    let (es, rest) ← blockEntries read fuel rest
    return ((k, v) :: es, rest)
  | _, .blockEnd :: rest => some ([], rest)
  | _, _ => none

/-! ### Brackets -/

/-- The value of an entry in brackets. -/
def bracketedValue (read : TokenReader Yaml) : TokenReader Yaml
  | .value :: rest =>
    orNothing (fun token => endsBracketed token && !(token matches .value)) read rest
  | rest => some (nothing, rest)

/-- Whether a key that is left out in a sequence in brackets takes a token
with it. -/
def fillsKey : Token → Bool
  | .value => true
  | .comma => true
  | .closeSequence => true
  | _ => false

/-- The key of an item of a sequence in brackets.  One that is left out takes
the token behind it along, be it the colon before its value, the comma or the
closing bracket. -/
def itemKey (read : TokenReader Yaml) : TokenReader Yaml
  | [] => none
  | token :: rest => if fillsKey token then some (nothing, rest) else read (token :: rest)

/-- An item of a sequence in brackets; an item with a key is a mapping of one
entry. -/
def bracketedItem (read : TokenReader Yaml) : TokenReader Yaml
  | .key :: rest => do
    let (k, rest) ← itemKey read rest
    let (v, rest) ← bracketedValue read rest
    return (.mapping [(k, v)], rest)
  | rest => read rest

/-- An entry of a mapping in brackets; a key may stand without a value. -/
def bracketedEntry (read : TokenReader Yaml) : TokenReader (Yaml × Yaml)
  | .key :: rest => do
    let (k, rest) ← orNothing endsBracketed read rest
    let (v, rest) ← bracketedValue read rest
    return ((k, v), rest)
  | rest => (read rest).map fun (k, rest) => ((k, nothing), rest)

/-- What stands in brackets up to the closing one, with commas between; a
comma may also stand before the closing bracket. -/
def bracketed {α : Type} (closes : Token → Bool) (read : TokenReader α) :
    Nat → TokenReader (List α)
  | 0, _ => none
  | _, [] => none
  | fuel + 1, token :: rest =>
    if closes token then some ([], rest)
    else do
      let (x, rest) ← read (token :: rest)
      match rest with
      | .comma :: rest => do
        let (xs, rest) ← bracketed closes read fuel rest
        return (x :: xs, rest)
      | token :: rest => if closes token then some ([x], rest) else none
      | [] => none

/-! ### Values -/

/-- A value, with at most `depth` collections one inside the other. -/
def value? (size : Nat) : Nat → Place → TokenReader Yaml
  | _, _, .scalar value :: rest => some (value, rest)
  | depth + 1, _, .openSequence :: rest => do
    let closes (token : Token) : Bool := token matches .closeSequence
    let (xs, rest) ← bracketed closes (bracketedItem (value? size depth .bracket)) size rest
    return (.sequence xs, rest)
  | depth + 1, _, .openMapping :: rest => do
    let closes (token : Token) : Bool := token matches .closeMapping
    let (es, rest) ← bracketed closes (bracketedEntry (value? size depth .bracket)) size rest
    return (.mapping es, rest)
  | depth + 1, place, .blockSequence :: rest => do
    if place = .bracket then none
    let (xs, rest) ← blockItems (value? size depth .block) size rest
    return (.sequence xs, rest)
  | depth + 1, place, .blockMapping :: rest => do
    if place = .bracket then none
    let (es, rest) ← blockEntries (value? size depth .member) size rest
    return (.mapping es, rest)
  | depth + 1, .member, .entry :: rest => do
    let (xs, rest) ← looseItems (value? size depth .block) size (.entry :: rest)
    return (.sequence xs, rest)
  | _, _, _ => none

/-! ### Documents -/

/-- Whether a token ends an empty document. -/
def endsDocument : Token → Bool
  | .documentStart => true
  | .documentEnd => true
  | _ => false

/-- The value of a document after its mark. -/
def markedValue (read : TokenReader Yaml) : TokenReader Yaml
  | [] => some (nothing, [])
  | tokens => orNothing endsDocument read tokens

/-- The value of the one document that some tokens make up. -/
def document? (tokens : List Token) : Option Yaml := do
  let read : TokenReader Yaml := value? tokens.length tokens.length .block
  let (value, rest) ← match tokens with
    | [] => some (void, [])
    | .documentStart :: rest => markedValue read rest
    | tokens => read tokens
  if (rest.dropWhile fun token => token matches .documentEnd).isEmpty then some value else none

/-- A character that may stand in a text. -/
def isPrintable (c : Char) : Bool :=
  c = '\t' || c = '\n' || c = '\r' || c = '\x85' || (' ' ≤ c && c ≤ '~') ||
    ('\xa0' ≤ c && c ≤ '\ufffd') || 0x10000 ≤ c.toNat

/-- The document of a text. -/
def read? (text : String) : Option Yaml :=
  let chars := text.toList
  if chars.all isPrintable then (tokens? chars).bind document? else none

end EntityQuery.Yaml
