import AvroSchema.Text.Hex
import AvroSchema.Text.Utf16

/-!
# Escaped Names

Avro names use only `A` to `Z`, `a` to `z`, `0` to `9` and `_`. A logical name may be any text; in
its escaped form every UTF-16 unit of another character is the token `_xhhhh` with four lower-case
hexadecimal digits. A literal `_x` is written as two tokens, so no token of an escaped name was
there before escaping.

Unescaping works on any text: adjacent tokens are read together as UTF-16, so the two tokens of a
surrogate pair give one character, and everything that is no token is kept as it is.
-/

namespace AvroSchema.Name

/-- A character that Avro names admit. -/
def isNameChar (c : Char) : Bool := c.isAlphanum || c == '_'

/-- The token of a UTF-16 unit. -/
def token (unit : Nat) : List Char := '_' :: 'x' :: Hex.padded 4 unit

/-- The escaped form of a single character. -/
def escapeChar (c : Char) : List Char :=
  if isNameChar c then [c] else (Utf16.units c).flatMap token

/-- The escaped form of a text. -/
def escapeChars : List Char → List Char
  | [] => []
  -- what looks like a token is escaped itself, so every token is one that was written
  | '_' :: 'x' :: rest => token '_'.toNat ++ token 'x'.toNat ++ escapeChars rest
  | c :: rest => escapeChar c ++ escapeChars rest

/-- A piece of an escaped text: the unit of a token, or a character outside all tokens. -/
inductive Piece where
  | unit (value : Nat)
  | char (value : Char)
deriving DecidableEq, Repr

/-- The value of four lower-case hexadecimal digits. -/
def tokenValue? (a b c d : Char) : Option Nat := do
  let a ← Hex.lowerValue? a
  let b ← Hex.lowerValue? b
  let c ← Hex.lowerValue? c
  let d ← Hex.lowerValue? d
  return 4096 * a + 256 * b + 16 * c + d

/-- The pieces of a text, from left to right. -/
def pieces : List Char → List Piece
  | [] => []
  | '_' :: 'x' :: a :: b :: c :: d :: rest =>
    match tokenValue? a b c d with
    | some unit => .unit unit :: pieces rest
    | none => .char '_' :: pieces ('x' :: a :: b :: c :: d :: rest)
  | c :: rest => .char c :: pieces rest

/-- The text of some pieces; `pending` holds the units of the tokens just before them. -/
def joinAfter (pending : List Nat) : List Piece → List Char
  | [] => Utf16.decode pending
  -- a surrogate pair is two tokens, so units are gathered before they are decoded
  | .unit unit :: rest => joinAfter (pending ++ [unit]) rest
  | .char c :: rest => Utf16.decode pending ++ c :: joinAfter [] rest

/-- The text that an escaped text stands for. -/
def unescapeChars (cs : List Char) : List Char := joinAfter [] (pieces cs)

/-- The escaped form of a name. -/
def escape (name : String) : String := String.ofList (escapeChars name.toList)

/-- The name that an escaped form stands for. -/
def unescape (name : String) : String := String.ofList (unescapeChars name.toList)

end AvroSchema.Name
