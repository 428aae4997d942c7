/-!
# UTF-16 Code Units

The code units of a character, and the characters of a list of code units. A surrogate without
its partner reads as the replacement character.
-/

namespace AvroSchema.Utf16

/-- The code units of a character: one, or a high and a low surrogate. -/
def units (c : Char) : List Nat :=
  if c.toNat < 0x10000 then [c.toNat]
  else [0xD800 + (c.toNat - 0x10000) / 0x400, 0xDC00 + (c.toNat - 0x10000) % 0x400]

/-- A unit that opens a surrogate pair. -/
def isHigh (unit : Nat) : Bool := 0xD800 ≤ unit && unit < 0xDC00

/-- A unit that closes a surrogate pair. -/
def isLow (unit : Nat) : Bool := 0xDC00 ≤ unit && unit < 0xE000

/-- The character of a surrogate pair. -/
def pair (high low : Nat) : Char :=
  Char.ofNat (0x10000 + (high - 0xD800) * 0x400 + (low - 0xDC00))

/-- The replacement character U+FFFD. -/
def replacement : Char := Char.ofNat 0xFFFD

/-- The character of a unit that stands alone. -/
def single (unit : Nat) : Char :=
  if isHigh unit || isLow unit then replacement else Char.ofNat unit

/-- The characters of a list of code units. -/
def decode : List Nat → List Char
  | [] => []
  | [unit] => [single unit]
  | high :: low :: rest =>
    if isHigh high && isLow low then pair high low :: decode rest
    else single high :: decode (low :: rest)

end AvroSchema.Utf16
