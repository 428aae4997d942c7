import AvroSchema.Json.Value
import AvroSchema.Text.Hex
import AvroSchema.Text.Utf16

/-!
# Reading JSON Text

A strict reader of JSON text. A refusal says whether the text ended too early or is malformed at
some place; the first fault in reading order decides. Arrays and objects may be nested 127 levels
deep. Surrogate escapes have to come in pairs, and a number that is no 64-bit integer is read as
a double, which must be finite.
-/

namespace AvroSchema.Json

/-- Why a text was refused. -/
inductive Fault where
  /-- The text ended inside a value. -/
  | truncated
  /-- The text is no JSON for another reason. -/
  | malformed
deriving DecidableEq, Repr

namespace Reader

/-- The characters that may stand between tokens. -/
def isBlank (c : Char) : Bool := c == ' ' || c == '\n' || c == '\t' || c == '\r'

/-- The text after its leading blanks. -/
def skipBlanks (cs : List Char) : List Char := cs.dropWhile isBlank

/-- Reads the given characters and yields a value for them. -/
def literal (value : Json) : (expected cs : List Char) → Except Fault (Json × List Char)
  | [], cs => .ok (value, cs)
  | _ :: _, [] => .error .truncated
  | e :: es, c :: cs => if e = c then literal value es cs else .error .malformed

/-- Reads four hexadecimal digits. Fewer than four bytes before the end are a truncation. -/
def codeUnit : List Char → Except Fault (Nat × List Char)
  | a :: b :: c :: d :: rest =>
    match Hex.number? [a, b, c, d] with
    | some unit => .ok (unit, rest)
    | none => .error .malformed
  | few =>
    if few.foldl (fun size c => size + c.utf8Size) 0 < 4 then .error .truncated
    else .error .malformed

theorem length_codeUnit {cs rest : List Char} {unit : Nat} (h : codeUnit cs = .ok (unit, rest)) :
    rest.length < cs.length := by
  unfold codeUnit at h
  split at h
  · split at h
    · cases h; simp only [List.length_cons]; omega
    · cases h
  · split at h <;> cases h

/-- Reads the low surrogate that has to follow a high one, with its escape. -/
def lowSurrogate : List Char → Except Fault (Nat × List Char)
  | [] => .error .truncated
  | '\\' :: [] => .error .truncated
  | '\\' :: 'u' :: rest =>
    match codeUnit rest with
    | .ok (unit, rest) => if Utf16.isLow unit then .ok (unit, rest) else .error .malformed
    | .error fault => .error fault
  | _ => .error .malformed

theorem length_lowSurrogate {cs rest : List Char} {unit : Nat}
    (h : lowSurrogate cs = .ok (unit, rest)) : rest.length < cs.length := by
  unfold lowSurrogate at h
  split at h
  · cases h
  · cases h
  · split at h
    · next h' =>
      split at h
      · cases h
        have := length_codeUnit h'
        simp only [List.length_cons]; omega
      · cases h
    · cases h
  · cases h

/-- Reads what follows the `u` of an escape: one code unit, or a surrogate pair. -/
def unicodeEscape (cs : List Char) : Except Fault (Char × List Char) :=
  match codeUnit cs with
  | .error fault => .error fault
  | .ok (unit, rest) =>
    if Utf16.isLow unit then .error .malformed
    else if Utf16.isHigh unit then
      match lowSurrogate rest with
      | .error fault => .error fault
      | .ok (low, rest) => .ok (Utf16.pair unit low, rest)
    else .ok (Utf16.single unit, rest)

theorem length_unicodeEscape {cs rest : List Char} {c : Char}
    (h : unicodeEscape cs = .ok (c, rest)) : rest.length < cs.length := by
  unfold unicodeEscape at h
  split at h
  · simp at h
  · next h' =>
    have := length_codeUnit h'
    split at h
    · simp at h
    · split at h
      · split at h
        · simp at h
        · next h'' =>
          have := length_lowSurrogate h''
          obtain ⟨_, rfl⟩ := Prod.mk.injEq .. ▸ Except.ok.injEq .. ▸ h
          omega
      · obtain ⟨_, rfl⟩ := Prod.mk.injEq .. ▸ Except.ok.injEq .. ▸ h
        exact this

/-- The character of a one-letter escape. -/
def shortEscape? : Char → Option Char
  | '"' => some '"'
  | '\\' => some '\\'
  | '/' => some '/'
  | 'b' => some '\x08'
  | 'f' => some '\x0c'
  | 'n' => some '\n'
  | 'r' => some '\r'
  | 't' => some '\t'
  | _ => none

/-- Reads the rest of a string, after its opening quote. -/
def characters (cs : List Char) : Except Fault ((List Char) × List Char) :=
  match cs with
  | [] => .error .truncated
  | '"' :: rest => .ok ([], rest)
  | '\\' :: [] => .error .truncated
  | '\\' :: 'u' :: rest =>
    match h : unicodeEscape rest with
    | .error fault => .error fault
    | .ok (c, rest') => do
      have := length_unicodeEscape h
      let (text, rest) ← characters rest'
      return (c :: text, rest)
  | '\\' :: e :: rest =>
    match shortEscape? e with
    | none => .error .malformed
    | some c => do
      let (text, rest) ← characters rest
      return (c :: text, rest)
  | c :: rest =>
    if c.toNat < 0x20 then .error .malformed
    else do
      let (text, rest) ← characters rest
      return (c :: text, rest)
termination_by cs.length

/-- A decimal digit. -/
def isDigit (c : Char) : Bool := '0' ≤ c && c ≤ '9'

/-- Appends decimal digits to a number while it stays below `2 ^ 64`; also counts the digits
that were appended. -/
def absorb (n : Nat) : List Char → Nat × Nat
  | [] => (n, 0)
  | d :: ds =>
    let next := 10 * n + (d.toNat - '0'.toNat)
    if next < 0x10000000000000000 then
      let (n, count) := absorb next ds
      (n, count + 1)
    else (n, 0)

/-- The number with the given digits and exponent; it must be finite. -/
def decimal (negative : Bool) (significand : Nat) (exponent : Int) (rest : List Char) :
    Except Fault (Json × List Char) :=
  match Binary64.ofDecimal? negative significand exponent with
  | some x => .ok (.float x, rest)
  | none => .error .malformed

/-- Reads what follows the `e` of a number: a sign and at least one digit. -/
def exponent (cs : List Char) : Except Fault (Int × List Char) :=
  let (negative, cs) := match cs with
    | '+' :: rest => (false, rest)
    | '-' :: rest => (true, rest)
    | _ => (false, cs)
  match cs with
  | [] => .error .truncated
  | c :: _ =>
    if isDigit c then
      let n : Nat := (cs.takeWhile isDigit).foldl (fun n d => 10 * n + (d.toNat - '0'.toNat)) 0
      .ok (if negative then -n else n, cs.dropWhile isDigit)
    else .error .malformed

/-- Reads the exponent of a number, if there is one. -/
def scaled (negative : Bool) (significand : Nat) (shift : Int) (cs : List Char) :
    Except Fault (Json × List Char) :=
  match cs with
  | 'e' :: rest | 'E' :: rest => do
    let (e, rest) ← exponent rest
    decimal negative significand (shift + e) rest
  | _ => decimal negative significand shift cs

/-- An integer below `2 ^ 64` with its sign. Minus zero and integers below `-2 ^ 63` are doubles. -/
def integer (negative : Bool) (n : Nat) (rest : List Char) : Except Fault (Json × List Char) :=
  if negative then
    if 0 < n ∧ n ≤ 0x8000000000000000 then .ok (.int (-n), rest) else decimal true n 0 rest
  else .ok (.int n, rest)

/-- Reads a number after its sign. Digits beyond 64 bits only count as powers of ten. -/
def number (negative : Bool) (cs : List Char) : Except Fault (Json × List Char) :=
  match cs with
  | [] => .error .truncated
  | c :: _ =>
    let digits := cs.takeWhile isDigit
    if !isDigit c || (c == '0' && 1 < digits.length) then .error .malformed
    else
      -- digits that do not fit are dropped, and count as powers of ten
      let (significand, count) := absorb 0 digits
      let dropped := digits.length - count
      match cs.dropWhile isDigit with
      | '.' :: rest =>
        match rest with
        | [] => .error .truncated
        | d :: _ =>
          if isDigit d then
            -- places that do not fit are dropped without a trace
            let (significand, places) := absorb significand (rest.takeWhile isDigit)
            scaled negative significand (dropped - places) (rest.dropWhile isDigit)
          else .error .malformed
      | rest@('e' :: _) | rest@('E' :: _) => scaled negative significand dropped rest
      | rest =>
        -- neither point nor exponent
        if dropped = 0 then integer negative significand rest
        else decimal negative significand dropped rest

/-- Reads the rest of an array with a reader for its items. Every item takes a character, so the
length of the text bounds their number. -/
def items (value : List Char → Except Fault (Json × List Char)) :
    (bound : Nat) → (first : Bool) → List Char → Except Fault ((List Json) × List Char)
  | 0, _, _ => .error .truncated
  | bound + 1, first, cs =>
    let item (cs : List Char) : Except Fault ((List Json) × List Char) := do
      let (j, rest) ← value cs
      let (js, rest) ← items value bound false rest
      return (j :: js, rest)
    match skipBlanks cs with
    | [] => .error .truncated
    | ']' :: rest => .ok ([], rest)
    | c :: rest =>
      if first then item (c :: rest)
      else if c = ',' then item rest
      else .error .malformed

/-- Reads a key, its colon and its value. -/
def member (value : List Char → Except Fault (Json × List Char)) (cs : List Char) :
    Except Fault ((String × Json) × List Char) :=
  match skipBlanks cs with
  | [] => .error .truncated
  | '"' :: rest => do
    let (key, rest) ← characters rest
    match skipBlanks rest with
    | [] => .error .truncated
    | ':' :: rest =>
      let (j, rest) ← value rest
      return ((String.ofList key, j), rest)
    | _ => .error .malformed
  | _ => .error .malformed

/-- Reads the rest of an object with a reader for its values. -/
def members (value : List Char → Except Fault (Json × List Char)) :
    (bound : Nat) → (first : Bool) → List Char → Except Fault ((List (String × Json)) × List Char)
  | 0, _, _ => .error .truncated
  | bound + 1, first, cs =>
    let entry (cs : List Char) : Except Fault ((List (String × Json)) × List Char) := do
      let (e, rest) ← member value cs
      let (es, rest) ← members value bound false rest
      return (e :: es, rest)
    match skipBlanks cs with
    | [] => .error .truncated
    | '}' :: rest => .ok ([], rest)
    | c :: rest =>
      if first then entry (c :: rest)
      else if c = ',' then entry rest
      else .error .malformed

/-- Reads a value that may hold `levels` nested arrays and objects. -/
def value : (levels : Nat) → List Char → Except Fault (Json × List Char)
  | levels, cs =>
    match skipBlanks cs with
    | [] => .error .truncated
    | 'n' :: rest => literal .null ['u', 'l', 'l'] rest
    | 't' :: rest => literal (.bool true) ['r', 'u', 'e'] rest
    | 'f' :: rest => literal (.bool false) ['a', 'l', 's', 'e'] rest
    | '"' :: rest => do
      let (text, rest) ← characters rest
      return (.string (String.ofList text), rest)
    | '-' :: rest => number true rest
    | '[' :: rest =>
      -- a value that is nested too deep is no value
      match levels with
      | 0 => .error .malformed
      | below + 1 => do
        let (js, rest) ← items (value below) (rest.length + 1) true rest
        return (.array js, rest)
    | '{' :: rest =>
      match levels with
      | 0 => .error .malformed
      | below + 1 => do
        let (es, rest) ← members (value below) (rest.length + 1) true rest
        return (.ofMembers es, rest)
    | c :: rest => if isDigit c then number false (c :: rest) else .error .malformed

/-- How deep arrays and objects may be nested. -/
def maxLevels : Nat := 127

end Reader

/-- Reads a whole text as one value. -/
def parse (text : String) : Except Fault Json := do
  let (j, rest) ← Reader.value Reader.maxLevels text.toList
  if (Reader.skipBlanks rest).isEmpty then return j else throw .malformed

end AvroSchema.Json
