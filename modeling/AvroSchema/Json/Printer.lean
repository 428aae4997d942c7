import AvroSchema.Json.Value
import AvroSchema.Json.Shortest
import AvroSchema.Text.Hex

/-!
# Printing JSON Text

The compact text of a value, without any blanks, and the indented text, with two spaces for each
level. Members appear in the order of their keys, so equal objects print alike.
-/

namespace AvroSchema.Json

/-- The characters that stand for a character inside a quoted text. Only the quote, the
backslash and control characters below U+0020 are escaped. -/
def escapeChar (c : Char) : List Char :=
  if c = '"' then ['\\', '"']
  else if c = '\\' then ['\\', '\\']
  else if c = '\n' then ['\\', 'n']
  else if c = '\r' then ['\\', 'r']
  else if c = '\t' then ['\\', 't']
  else if c = '\x08' then ['\\', 'b']
  else if c = '\x0c' then ['\\', 'f']
  else if c.toNat < 0x20 then ['\\', 'u'] ++ Hex.padded 4 c.toNat
  else [c]

/-- A text in quotes. -/
def quote (s : String) : List Char := '"' :: s.toList.flatMap escapeChar ++ ['"']

/-- The digits of an integer, with a sign if it is negative. -/
def intText (n : Int) : List Char :=
  if n < 0 then '-' :: Nat.toDigits 10 n.natAbs else Nat.toDigits 10 n.natAbs

/-- The text of a value that is neither an array nor an object. -/
def scalarText : Json → List Char
  | .null => ['n', 'u', 'l', 'l']
  | .bool true => ['t', 'r', 'u', 'e']
  | .bool false => ['f', 'a', 'l', 's', 'e']
  | .int n => intText n
  | .float x => x.text
  | .string s => quote s
  | .array _ | .object _ => []

mutual

/-- The compact text. -/
def chars : Json → List Char
  | .array items => '[' :: charsItems items ++ [']']
  | .object members => '{' :: charsMembers members ++ ['}']
  | scalar => scalarText scalar

/-- The compact texts of items, with commas between them. -/
def charsItems : List Json → List Char
  | [] => []
  | [j] => chars j
  | j :: rest => chars j ++ ',' :: charsItems rest

/-- The compact texts of members, with commas between them. -/
def charsMembers : List (String × Json) → List Char
  | [] => []
  | [(key, j)] => quote key ++ ':' :: chars j
  | (key, j) :: rest => quote key ++ ':' :: chars j ++ ',' :: charsMembers rest

end

/-- The compact text of a value. -/
def compact (j : Json) : String := String.ofList j.chars

/-- A line break and the indentation of a level. -/
def lineBreak (level : Nat) : List Char := '\n' :: List.replicate (2 * level) ' '

mutual

/-- The indented text of a value that stands at a level. -/
def prettyChars (level : Nat) : Json → List Char
  | .array [] => ['[', ']']
  | .array items => '[' :: prettyItems level items ++ lineBreak level ++ [']']
  | .object [] => ['{', '}']
  | .object members => '{' :: prettyMembers level members ++ lineBreak level ++ ['}']
  | scalar => scalarText scalar

/-- The indented texts of items, each on its own line. -/
def prettyItems (level : Nat) : List Json → List Char
  | [] => []
  | [j] => lineBreak (level + 1) ++ prettyChars (level + 1) j
  | j :: rest => lineBreak (level + 1) ++ prettyChars (level + 1) j ++ ',' :: prettyItems level rest

/-- The indented texts of members, each on its own line. -/
def prettyMembers (level : Nat) : List (String × Json) → List Char
  | [] => []
  | [(key, j)] => lineBreak (level + 1) ++ quote key ++ ':' :: ' ' :: prettyChars (level + 1) j
  | (key, j) :: rest =>
    lineBreak (level + 1) ++ quote key ++ ':' :: ' ' :: prettyChars (level + 1) j ++
      ',' :: prettyMembers level rest

end

/-- The indented text of a value. -/
def pretty (j : Json) : String := String.ofList (j.prettyChars 0)

end AvroSchema.Json
