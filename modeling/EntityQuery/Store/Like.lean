/-
EntityQuery/Store/Like.lean

Matching of text: patterns with wildcards, and the place of one text in
another.

In a pattern `%` stands for any text, `_` for one character, and a backslash
takes the meaning from the character after it; a backslash at the end stands
for itself.
-/

namespace EntityQuery.Store

/-- Whether some ending of the text, the text itself included, is
accepted. -/
def anyEnding (accept : List Char → Bool) : List Char → Bool
  | [] => accept []
  | c :: rest => accept (c :: rest) || anyEnding accept rest

/-- Whether a pattern matches a whole text. -/
def likeChars : List Char → List Char → Bool
  | [], text => text.isEmpty
  | '%' :: pattern, text => anyEnding (likeChars pattern) text
  | '_' :: pattern, text =>
    match text with
    | [] => false
    | _ :: rest => likeChars pattern rest
  | '\\' :: d :: pattern, text =>
    match text with
    | [] => false
    | c :: rest => c = d && likeChars pattern rest
  | p :: pattern, text =>
    match text with
    | [] => false
    | c :: rest => c = p && likeChars pattern rest

/-- Whether a text is like a pattern. -/
def like (text pattern : String) : Bool := likeChars pattern.toList text.toList

/-- The number of bytes before the first place where `needle` begins. -/
def bytesBefore? (needle : List Char) : List Char → Option Nat
  | [] => if needle.isEmpty then some 0 else none
  | c :: rest =>
    if needle.isPrefixOf (c :: rest) then some 0
    else (bytesBefore? needle rest).map (· + c.utf8Size)

/-- The place of `needle` in `haystack`, counted in bytes from one; zero
where it does not occur. -/
def locate (needle haystack : String) : Nat :=
  match bytesBefore? needle.toList haystack.toList with
  | some n => n + 1
  | none => 0

end EntityQuery.Store
