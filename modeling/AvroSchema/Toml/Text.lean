import AvroSchema.Text.Hex

/-!
# TOML Strings

The four quoted forms of a TOML string. A form is quoted by double quotes, inside which backslashes
escape, or by single quotes, inside which nothing does; and each comes as a form on one line and as
a form of several lines between triple quotes.

Writing takes the first form that needs no escapes but for tabs, in the order basic, literal,
multi-line basic, multi-line literal; if there is none, a basic form with escapes.
-/

namespace AvroSchema.Toml

/-- A character that has to be escaped, or, if it is a tab or a line feed, may have to be. -/
def isControl (c : Char) : Bool := c.toNat < 0x20 || c.toNat == 0x7f

/-- A quoted form of a string. -/
inductive Style where
  | basic
  | literal
  | multiBasic
  | multiLiteral
deriving DecidableEq, Repr

/-- Whether a character occurs three times in a row. -/
def hasTriple (q : Char) : List Char → Bool
  | a :: b :: c :: rest => (a == q && b == q && c == q) || hasTriple q (b :: c :: rest)
  | _ => false

/-- The form in which a text is written. -/
def style (cs : List Char) : Style :=
  let onLine := cs.all fun c => !isControl c || c == '\t'
  let onLines := cs.all fun c => !isControl c || c == '\t' || c == '\n'
  if onLine && !cs.contains '"' && !cs.contains '\\' then .basic
  else if onLine && !cs.contains '\x27' then .literal
  else if onLines && !cs.contains '\\' && !hasTriple '"' cs then .multiBasic
  else if onLines && !hasTriple '\x27' cs then .multiLiteral
  else if cs.contains '\n' then .multiBasic
  else .basic

/-- The escape of a character, if it has a short one. -/
def shortEscape? (c : Char) : Option Char :=
  if c = '\x08' then some 'b'
  else if c = '\t' then some 't'
  else if c = '\n' then some 'n'
  else if c = '\x0c' then some 'f'
  else if c = '\r' then some 'r'
  else if c = '"' then some '"'
  else if c = '\\' then some '\\'
  else none

/-- A character of a basic string. -/
def basicChar (c : Char) : List Char :=
  match shortEscape? c with
  | some e => ['\\', e]
  | none =>
    if isControl c then ['\\', 'u'] ++ (Hex.padded 4 c.toNat).map Char.toUpper else [c]

/-- The characters of a multi-line basic string, after `quotes` unescaped quotes in a row. Every
third quote of a row is escaped. -/
def multiBasicChars (quotes : Nat) : List Char → List Char
  | [] => []
  | c :: rest =>
    if c = '"' then
      -- a third quote would end the string
      if quotes = 2 then '\\' :: '"' :: multiBasicChars 0 rest
      else '"' :: multiBasicChars (quotes + 1) rest
    else if c = '\n' then '\n' :: multiBasicChars 0 rest
    else basicChar c ++ multiBasicChars 0 rest

/-- The line break after an opening triple quote; a text with a line break starts on a new line. -/
def opening (cs : List Char) : List Char := if cs.contains '\n' then ['\n'] else []

/-- A text in a quoted form. -/
def quoteAs (form : Style) (cs : List Char) : List Char :=
  match form with
  | .basic => '"' :: cs.flatMap basicChar ++ ['"']
  | .literal => '\x27' :: cs ++ ['\x27']
  | .multiBasic => ['"', '"', '"'] ++ opening cs ++ multiBasicChars 0 cs ++ ['"', '"', '"']
  | .multiLiteral => ['\x27', '\x27', '\x27'] ++ opening cs ++ cs ++ ['\x27', '\x27', '\x27']

/-- A text as a TOML string. -/
def quote (cs : List Char) : List Char := quoteAs (style cs) cs

/-- The character that a short escape stands for. -/
def unescape? : Char → Option Char
  | 'b' => some '\x08'
  | 't' => some '\t'
  | 'n' => some '\n'
  | 'f' => some '\x0c'
  | 'r' => some '\r'
  | '"' => some '"'
  | '\\' => some '\\'
  | _ => none

/-- The character with a hexadecimal code point. -/
def codePoint? (digits : List Char) : Option Char := do
  let n ← Hex.number? digits
  if n.isValidChar then some (Char.ofNat n) else none

/-- Reads the rest of a basic string. -/
def readBasic : List Char → Option (List Char × List Char)
  | [] => none
  | '"' :: rest => some ([], rest)
  | '\\' :: 'u' :: a :: b :: c :: d :: rest => do
    let x ← codePoint? [a, b, c, d]
    let (text, rest) ← readBasic rest
    return (x :: text, rest)
  | '\\' :: 'U' :: a :: b :: c :: d :: e :: f :: g :: h :: rest => do
    let x ← codePoint? [a, b, c, d, e, f, g, h]
    let (text, rest) ← readBasic rest
    return (x :: text, rest)
  | '\\' :: e :: rest => do
    let x ← unescape? e
    let (text, rest) ← readBasic rest
    return (x :: text, rest)
  | c :: rest =>
    if c = '\\' || (isControl c && c != '\t') then none
    else do
      let (text, rest) ← readBasic rest
      return (c :: text, rest)

/-- Reads the rest of a literal string. -/
def readLiteral : List Char → Option (List Char × List Char)
  | [] => none
  | c :: rest =>
    if c = '\x27' then some ([], rest)
    else if isControl c && c != '\t' then none
    else do
      let (text, rest) ← readLiteral rest
      return (c :: text, rest)

/-- The text after an optional line break. -/
def dropLineBreak : List Char → List Char
  | '\n' :: rest => rest
  | '\r' :: '\n' :: rest => rest
  | cs => cs

/-- A blank inside a line. -/
def isBlank (c : Char) : Bool := c == ' ' || c == '\t'

/-- Whether a text starts with blanks and a line break. -/
def endsLine (cs : List Char) : Bool :=
  match cs.dropWhile isBlank with
  | '\n' :: _ => true
  | '\r' :: '\n' :: _ => true
  | _ => false

/-- Reads the rest of a multi-line basic string. A backslash at the end of a line skips all blanks
and line breaks up to the next character; `skipping` says that such a gap is open. Up to two quotes
may stand before the closing ones. -/
def readMultiBasic (skipping : Bool) : List Char → Option (List Char × List Char)
  | [] => none
  -- the last three quotes of a row end the string
  | '"' :: '"' :: '"' :: '"' :: '"' :: rest => some (['"', '"'], rest)
  | '"' :: '"' :: '"' :: '"' :: rest => some (['"'], rest)
  | '"' :: '"' :: '"' :: rest => some ([], rest)
  | '\\' :: 'u' :: a :: b :: c :: d :: rest => do
    let x ← codePoint? [a, b, c, d]
    let (text, rest) ← readMultiBasic false rest
    return (x :: text, rest)
  | '\\' :: 'U' :: a :: b :: c :: d :: e :: f :: g :: h :: rest => do
    let x ← codePoint? [a, b, c, d, e, f, g, h]
    let (text, rest) ← readMultiBasic false rest
    return (x :: text, rest)
  | '\\' :: e :: rest =>
    if endsLine (e :: rest) then readMultiBasic true rest
    else do
      let x ← unescape? e
      let (text, rest) ← readMultiBasic false rest
      return (x :: text, rest)
  | '\r' :: '\n' :: rest =>
    if skipping then readMultiBasic true rest
    else do
      let (text, rest) ← readMultiBasic false rest
      return ('\n' :: text, rest)
  | c :: rest =>
    if skipping && (isBlank c || c == '\n') then readMultiBasic true rest
    else if c = '\\' || (isControl c && c != '\t' && c != '\n') then none
    else do
      let (text, rest) ← readMultiBasic false rest
      return (c :: text, rest)

/-- Reads the rest of a multi-line literal string. -/
def readMultiLiteral : List Char → Option (List Char × List Char)
  | [] => none
  | '\x27' :: '\x27' :: '\x27' :: '\x27' :: '\x27' :: rest => some (['\x27', '\x27'], rest)
  | '\x27' :: '\x27' :: '\x27' :: '\x27' :: rest => some (['\x27'], rest)
  | '\x27' :: '\x27' :: '\x27' :: rest => some ([], rest)
  | '\r' :: '\n' :: rest => do
    let (text, rest) ← readMultiLiteral rest
    return ('\n' :: text, rest)
  | c :: rest =>
    if isControl c && c != '\t' && c != '\n' then none
    else do
      let (text, rest) ← readMultiLiteral rest
      return (c :: text, rest)

/-- Reads a string in any of its forms. -/
def readString : List Char → Option (List Char × List Char)
  | '"' :: '"' :: '"' :: rest => readMultiBasic false (dropLineBreak rest)
  | '"' :: rest => readBasic rest
  | '\x27' :: '\x27' :: '\x27' :: rest => readMultiLiteral (dropLineBreak rest)
  | '\x27' :: rest => readLiteral rest
  | _ => none

end AvroSchema.Toml
