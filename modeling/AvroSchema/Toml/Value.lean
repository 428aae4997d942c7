/-!
# TOML Values

The values of a TOML document. Floating numbers and points in time are checked when they are read,
but nothing needs their value, so it is not kept. A table remembers how it came to be, because that
decides whether it may be extended.
-/

namespace AvroSchema

/-- How a table came to be. -/
inductive Toml.Origin where
  /-- Opened by a header of its own. -/
  | header
  /-- Implied by the header of a table inside it. -/
  | implied
  /-- Made by a dotted key. -/
  | dotted
  /-- Written in braces, and complete. -/
  | inline
deriving DecidableEq, Repr

/-- A TOML value. -/
inductive Toml where
  | string (text : String)
  | integer (value : Int)
  | float
  | boolean (value : Bool)
  | time
  | array (items : List Toml)
  | table (origin : Toml.Origin) (entries : List (String × Toml))
  /-- The tables of an array that double-bracketed headers open one by one. -/
  | tables (items : List (List (String × Toml)))

namespace Toml

/-- The entries of a table. -/
abbrev Entries := List (String × Toml)

/-- The text of a string. -/
def string? : Toml → Option String
  | .string text => some text
  | _ => none

/-- The value of an integer. -/
def integer? : Toml → Option Int
  | .integer n => some n
  | _ => none

/-- The entries with another value for a key that they have. -/
def replace (key : String) (value : Toml) (entries : Entries) : Entries :=
  entries.map fun e => if e.1 = key then (key, value) else e

end Toml

end AvroSchema
