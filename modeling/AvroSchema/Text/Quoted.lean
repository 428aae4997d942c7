import AvroSchema.Json.Printer
import AvroSchema.Text.Invisible

/-!
# Quoted Text in Messages

How messages show a text or a JSON value that they refuse. A text stands in double quotes with
its invisible characters escaped; a value is shown with the name of its kind around it.
-/

namespace AvroSchema.Quoted

/-- The characters that show a character of a quoted text. -/
def charText (c : Char) : List Char :=
  if c = '"' then ['\\', '"']
  else if c = '\\' then ['\\', '\\']
  else if c = '\t' then ['\\', 't']
  else if c = '\n' then ['\\', 'n']
  else if c = '\r' then ['\\', 'r']
  else if c.toNat = 0 then ['\\', '0']
  else if Invisible.isInvisible c then ['\\', 'u', '{'] ++ Nat.toDigits 16 c.toNat ++ ['}']
  else [c]

/-- A text in quotes. -/
def text (s : String) : String :=
  String.ofList ('"' :: s.toList.flatMap charText ++ ['"'])

/-- A text that may be absent. -/
def optionalText : Option String → String
  | none => "None"
  | some s => "Some(" ++ text s ++ ")"

mutual

/-- A JSON value with the names of its kinds. -/
def value : Json → String
  | .null => "Null"
  | .bool true => "Bool(true)"
  | .bool false => "Bool(false)"
  | .int n => "Number(" ++ String.ofList (Json.intText n) ++ ")"
  | .float x => "Number(" ++ String.ofList x.text ++ ")"
  | .string s => "String(" ++ text s ++ ")"
  | .array items => "Array [" ++ values items ++ "]"
  | .object members => "Object \x7b" ++ entries members ++ "\x7d"

/-- The items of an array, with commas between them. -/
def values : List Json → String
  | [] => ""
  | [j] => value j
  | j :: rest => value j ++ ", " ++ values rest

/-- The members of an object, with commas between them. -/
def entries : List (String × Json) → String
  | [] => ""
  | [(key, j)] => text key ++ ": " ++ value j
  | (key, j) :: rest => text key ++ ": " ++ value j ++ ", " ++ entries rest

end

/-- A JSON value that may be absent. -/
def optionalValue : Option Json → String
  | none => "None"
  | some j => "Some(" ++ value j ++ ")"

end AvroSchema.Quoted
