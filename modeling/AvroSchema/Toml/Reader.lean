import AvroSchema.Json.Binary64
import AvroSchema.Toml.Text
import AvroSchema.Toml.Value

/-!
# Reading TOML Statements

A TOML document as a list of statements: assignments to keys, headers of tables, and headers of
tables in arrays. Numbers, truth values and points in time are read as one word, which is then
classified. The nesting of values and the length of dotted keys are limited.
-/

namespace AvroSchema.Toml

/-- A line of a document that says something. -/
inductive Statement where
  /-- A value for a dotted key, below the table that is open. -/
  | assign (path : List String) (key : String) (value : Toml)
  /-- A header that opens a table. -/
  | header (path : List String) (key : String)
  /-- A header that opens a further table of an array. -/
  | arrayHeader (path : List String) (key : String)

namespace Reader

/-- The text after blanks. -/
def skipBlanks (cs : List Char) : List Char := cs.dropWhile isBlank

/-- The text from the end of a comment on, which holds no control character but tabs. -/
def skipComment : List Char → Option (List Char)
  | [] => some []
  | '\n' :: rest => some ('\n' :: rest)
  | '\r' :: '\n' :: rest => some ('\r' :: '\n' :: rest)
  | c :: rest => if isControl c && c != '\t' then none else skipComment rest

/-- The text after blanks, line breaks and comments. -/
def skipLines (inComment : Bool) : List Char → Option (List Char)
  | [] => some []
  | '\n' :: rest => skipLines false rest
  | '\r' :: '\n' :: rest => skipLines false rest
  | c :: rest =>
    if inComment then
      if isControl c && c != '\t' then none else skipLines true rest
    else if isBlank c then skipLines false rest
    else if c = '#' then skipLines true rest
    else some (c :: rest)

/-- The text after the end of a line: blanks, a comment and a line break or the end. -/
def endLine (cs : List Char) : Option (List Char) := do
  let rest ← match skipBlanks cs with
    | '#' :: rest => skipComment rest
    | rest => some rest
  match rest with
  | [] => some []
  | '\n' :: rest => some rest
  | '\r' :: '\n' :: rest => some rest
  | _ => none

/-! ### Words -/

/-- A decimal digit. -/
def isDigit (c : Char) : Bool := '0' ≤ c && c ≤ '9'

/-- Digits with single underscores between them; yields the digits. -/
def digits? (isDigit : Char → Bool) (cs : List Char) : Option (List Char) :=
  let groups := cs.splitOnP (· == '_')
  if groups.all fun g => !g.isEmpty && g.all isDigit then some groups.flatten else none

/-- A word without its sign, and whether the sign is a minus. -/
def sign : List Char → Bool × List Char
  | '-' :: rest => (true, rest)
  | '+' :: rest => (false, rest)
  | cs => (false, cs)

/-- A decimal number without superfluous leading zeros. -/
def decimal? (cs : List Char) : Option (List Char) := do
  let ds ← digits? isDigit cs
  if cs.head? == some '0' && 1 < cs.length then none else some ds

/-- The value of digits in a base. -/
def value (base : Nat) (ds : List Char) : Nat :=
  ds.foldl (fun n d => base * n + (Hex.value? d).getD 0) 0

/-- An integer of 64 bits: decimal with a sign, or hexadecimal, octal or binary without one. -/
def integer? (word : List Char) : Option Int := do
  let n ← match word with
    | '0' :: 'x' :: rest =>
      (digits? (fun c => (Hex.value? c).isSome) rest).map fun ds => (value 16 ds : Int)
    | '0' :: 'o' :: rest =>
      (digits? (fun c => '0' ≤ c && c ≤ '7') rest).map fun ds => (value 8 ds : Int)
    | '0' :: 'b' :: rest =>
      (digits? (fun c => c == '0' || c == '1') rest).map fun ds => (value 2 ds : Int)
    | word =>
      let (negative, cs) := sign word
      (decimal? cs).map fun ds => if negative then -(value 10 ds : Int) else value 10 ds
  if -0x8000000000000000 ≤ n ∧ n < 0x8000000000000000 then some n else none

/-- Whether a word is a floating number: a decimal number with places after a point, an exponent,
or both. A positive number that is too large for a double is refused, a negative one is not. -/
def isFloat (word : List Char) : Bool :=
  let (negative, cs) := sign word
  if cs = ['i', 'n', 'f'] ∨ cs = ['n', 'a', 'n'] then true
  else
    let mantissa := cs.takeWhile fun c => c != 'e' && c != 'E'
    let whole := mantissa.takeWhile (· != '.')
    let places := match mantissa.dropWhile (· != '.') with
      | [] => some []
      | _ :: rest => digits? isDigit rest
    let exponent : Option Int := match cs.drop mantissa.length with
      | [] => some 0
      | _ :: rest =>
        let (negative, ds) := sign rest
        (digits? isDigit ds).map fun ds => if negative then -(value 10 ds : Int) else value 10 ds
    -- a word without point and exponent is an integer
    match decimal? whole, places, exponent with
    | some digits, some places, some exponent =>
      whole.length < cs.length &&
        (negative ||
          !Binary64.overflows (value 10 (digits ++ places)) (exponent - places.length))
    | _, _, _ => false

/-- The number written by exactly `width` digits, if it is in a range. -/
def field? (width low high : Nat) (cs : List Char) : Option Nat :=
  let n := value 10 cs
  if cs.length = width ∧ cs.all isDigit ∧ low ≤ n ∧ n ≤ high then some n else none

/-- The number of days in a month. -/
def daysIn (year month : Nat) : Nat :=
  if month = 2 then
    if year % 4 = 0 ∧ (year % 100 ≠ 0 ∨ year % 400 = 0) then 29 else 28
  else if month ∈ [4, 6, 9, 11] then 30
  else 31

/-- Whether a word is a date. -/
def isDate (word : List Char) : Bool :=
  match word.splitOnP (· == '-') with
  | [y, m, d] =>
    match field? 4 0 9999 y, field? 2 1 12 m, field? 2 1 31 d with
    | some y, some m, some d => d ≤ daysIn y m
    | _, _, _ => false
  | _ => false

/-- Whether a word is a time of day. -/
def isClock (word : List Char) : Bool :=
  match word.splitOnP (· == ':') with
  | [h, m, s] =>
    let fraction := match s.dropWhile (· != '.') with
      | [] => true
      | _ :: ds => !ds.isEmpty && ds.all isDigit
    (field? 2 0 23 h).isSome && (field? 2 0 59 m).isSome &&
      (field? 2 0 60 (s.takeWhile (· != '.'))).isSome && fraction
  | _ => false

/-- Whether a word is an offset from universal time. -/
def isOffset (word : List Char) : Bool :=
  match word with
  | [] | ['Z'] | ['z'] => true
  | s :: rest =>
    (s == '+' || s == '-') &&
      match rest.splitOnP (· == ':') with
      | [h, m] => (field? 2 0 23 h).isSome && (field? 2 0 59 m).isSome
      | _ => false

/-- Whether a word is a time of day with an offset. -/
def isOffsetClock (word : List Char) : Bool :=
  let isClockChar (c : Char) : Bool := isDigit c || c == ':' || c == '.'
  isClock (word.takeWhile isClockChar) && isOffset (word.dropWhile isClockChar)

/-- Whether a word is a date with a time of day. -/
def isDateTime (word : List Char) : Bool :=
  isDate (word.take 10) &&
    match word.drop 10 with
    | 'T' :: rest | 't' :: rest => isOffsetClock rest
    | _ => false

/-- A character of a word. -/
def isWordChar (c : Char) : Bool :=
  c.isAlphanum || c == '_' || c == '+' || c == '-' || c == '.' || c == ':'

/-- Reads a value that is one word; a date may be followed by a blank and a time of day. -/
def word (cs : List Char) : Option (Toml × List Char) :=
  let w := cs.takeWhile isWordChar
  let rest := cs.dropWhile isWordChar
  if w = ['t', 'r', 'u', 'e'] then some (.boolean true, rest)
  else if w = ['f', 'a', 'l', 's', 'e'] then some (.boolean false, rest)
  else if isDate w then
    match rest with
    | ' ' :: after =>
      -- what follows the blank belongs to the value only if it is a time of day
      let clock := after.takeWhile isWordChar
      if isOffsetClock clock then some (.time, after.dropWhile isWordChar) else some (.time, rest)
    | _ => some (.time, rest)
  else if isDateTime w || isClock w then some (.time, rest)
  else match integer? w with
    | some n => some (.integer n, rest)
    | none => if isFloat w then some (.float, rest) else none

/-! ### Keys -/

/-- A character of a bare key. -/
def isKeyChar (c : Char) : Bool := c.isAlphanum || c == '_' || c == '-'

/-- Reads one part of a key: bare, or a string on one line. -/
def keyPart (cs : List Char) : Option (String × List Char) :=
  match cs with
  | '"' :: rest => (readBasic rest).map fun (text, rest) => (String.ofList text, rest)
  | '\x27' :: rest => (readLiteral rest).map fun (text, rest) => (String.ofList text, rest)
  | _ =>
    let part := cs.takeWhile isKeyChar
    if part.isEmpty then none else some (String.ofList part, cs.dropWhile isKeyChar)

/-- How deep arrays and tables in braces may be nested, and how many parts a dotted key may have. -/
def maxLevels : Nat := 79

/-- Reads a dotted key of at most `bound` parts; yields the parts before the last one, and the last
one. -/
def key : (bound : Nat) → List Char → Option ((List String × String) × List Char)
  | 0, _ => none
  | bound + 1, cs => do
    let (part, rest) ← keyPart (skipBlanks cs)
    match skipBlanks rest with
    | '.' :: rest =>
      let ((path, last), rest) ← key bound rest
      return ((part :: path, last), rest)
    | rest => return (([], part), rest)

/-- The last table of an array of tables, with a change. -/
def updateLast (change : Entries → Option Entries) (items : List Entries) :
    Option (List Entries) :=
  match items.getLast? with
  | none => none
  | some last => (change last).map fun last => items.dropLast ++ [last]

/-- The origin and the entries of a table after a change to the table at a path below it. Tables
that are missing on the way are made. A dotted key may not reach into a table that has a header of
its own, and nothing reaches into a table in braces. -/
def descend (dotted : Bool) (change : Bool → Entries → Option Entries) :
    List String → (isDotted : Bool) → Entries → Option Entries
  | [], isDotted, entries => change isDotted entries
  | k :: path, _, entries =>
    match entries.lookup k with
    | none => do
      let inner ← descend dotted change path dotted []
      return entries ++ [(k, .table (if dotted then .dotted else .implied) inner)]
    | some (.table origin inner) =>
      -- tables in braces are closed, and headers keep dotted keys out
      if origin = .inline ∨ (dotted ∧ origin = .header) then none
      else do
        let inner ← descend dotted change path (origin = .dotted) inner
        return replace k (.table origin inner) entries
    | some (.tables items) => do
      -- a path leads through the last table of an array
      let items ← updateLast (descend dotted change path false) items
      return replace k (.tables items) entries
    | some _ => none

/-- The entries of a table after an assignment below it. The key must be new, and a dotted key may
only extend a table that dotted keys have made. -/
def assign (path : List String) (key : String) (value : Toml) (entries : Entries) :
    Option Entries :=
  let put (isDotted : Bool) (entries : Entries) : Option Entries :=
    if isDotted = path.isEmpty ∨ (entries.lookup key).isSome then none
    else some (entries ++ [(key, value)])
  descend true put path false entries

/-! ### Values -/

/-- Reads the rest of an array with a reader for its items. -/
def items (value : List Char → Option (Toml × List Char)) :
    (bound : Nat) → List Char → Option (List Toml × List Char)
  | 0, _ => none
  | bound + 1, cs => do
    match ← skipLines false cs with
    | ']' :: rest => return ([], rest)
    | cs =>
      let (item, rest) ← value cs
      match ← skipLines false rest with
      | ']' :: rest => return ([item], rest)
      | ',' :: rest =>
        let (more, rest) ← items value bound rest
        return (item :: more, rest)
      | _ => none

/-- Reads a key, its equals sign and its value. -/
def assignment (value : List Char → Option (Toml × List Char)) (cs : List Char) :
    Option ((List String × String × Toml) × List Char) := do
  let ((path, k), rest) ← key maxLevels cs
  match skipBlanks rest with
  | '=' :: rest =>
    let (v, rest) ← value (skipBlanks rest)
    return ((path, k, v), rest)
  | _ => none

/-- Reads the rest of a table in braces, after some entries, with a reader for its values. -/
def pairs (value : List Char → Option (Toml × List Char)) :
    (bound : Nat) → Entries → List Char → Option (Entries × List Char)
  | 0, _, _ => none
  | bound + 1, entries, cs => do
    let ((path, k, v), rest) ← assignment value cs
    let entries ← assign path k v entries
    match skipBlanks rest with
    | '}' :: rest => return (entries, rest)
    | ',' :: rest => pairs value bound entries rest
    | _ => none

/-- Reads a value that may hold `levels` nested arrays and tables. -/
def nested : (levels : Nat) → List Char → Option (Toml × List Char)
  | levels, cs =>
    match cs with
    | '"' :: _ | '\x27' :: _ =>
      (readString cs).map fun (text, rest) => (.string (String.ofList text), rest)
    | '[' :: rest =>
      match levels with
      | 0 => none
      | below + 1 => (items (nested below) (rest.length + 1) rest).map fun (js, rest) =>
          (.array js, rest)
    | '{' :: rest =>
      match levels with
      | 0 => none
      | below + 1 =>
        match skipBlanks rest with
        | '}' :: rest => some (.table .inline [], rest)
        | rest => (pairs (nested below) (rest.length + 1) [] rest).map fun (es, rest) =>
            (.table .inline es, rest)
    | _ => word cs

/-! ### Statements -/

/-- Reads one statement; yields nothing for a line that is blank or a comment. -/
def statement (cs : List Char) : Option (Option Statement × List Char) :=
  match skipBlanks cs with
  | [] => some (none, [])
  | '#' :: rest => some (none, '#' :: rest)
  | '\n' :: rest => some (none, '\n' :: rest)
  | '\r' :: rest => some (none, '\r' :: rest)
  | '[' :: '[' :: rest => do
    let ((path, k), rest) ← key maxLevels rest
    match skipBlanks rest with
    | ']' :: ']' :: rest => return (some (.arrayHeader path k), rest)
    | _ => none
  | '[' :: rest => do
    let ((path, k), rest) ← key maxLevels rest
    match skipBlanks rest with
    | ']' :: rest => return (some (.header path k), rest)
    | _ => none
  | rest => do
    let ((path, k, v), rest) ← assignment (nested maxLevels) rest
    return (some (.assign path k v), rest)

/-- Reads the statements of a document, line by line. -/
def statements : (bound : Nat) → List Char → Option (List Statement)
  | 0, _ => none
  | bound + 1, cs => do
    let (s, rest) ← statement cs
    -- nothing but a comment may follow on the same line
    let rest ← endLine rest
    if rest.isEmpty then return s.toList
    return s.toList ++ (← statements bound rest)

/-! ### Documents -/

/-- The root table after a header: it makes a table, or opens one that was only implied. -/
def openTable (path : List String) (key : String) (root : Entries) : Option Entries :=
  let make (_ : Bool) (entries : Entries) : Option Entries :=
    match entries.lookup key with
    | none => some (entries ++ [(key, .table .header [])])
    -- the table was made on the way to another one, and gets its header now
    | some (.table .implied inner) => some (replace key (.table .header inner) entries)
    | some _ => none
  descend false make path false root

/-- The root table after the header of a further table of an array. -/
def openArrayTable (path : List String) (key : String) (root : Entries) : Option Entries :=
  let make (_ : Bool) (entries : Entries) : Option Entries :=
    match entries.lookup key with
    | none => some (entries ++ [(key, .tables [[]])])
    | some (.tables items) => some (replace key (.tables (items ++ [[]])) entries)
    | some _ => none
  descend false make path false root

/-- The root table after a statement, with the path of the table that is open. -/
def step (state : List String × Entries) : Statement → Option (List String × Entries)
  | .assign path key value => do
    let root ← descend false (fun _ => assign path key value) state.1 false state.2
    return (state.1, root)
  | .header path key => do return (path ++ [key], ← openTable path key state.2)
  | .arrayHeader path key => do return (path ++ [key], ← openArrayTable path key state.2)

end Reader

/-- The root table of a document. A byte order mark at its start is skipped. -/
def parse (text : String) : Option Entries := do
  let cs := match text.toList with
    -- a byte order mark
    | c :: rest => if c.toNat = 0xFEFF then rest else c :: rest
    | [] => []
  let statements ← Reader.statements (cs.length + 1) cs
  let (_, root) ← statements.foldlM Reader.step ([], [])
  return root

end AvroSchema.Toml
