import Mathlib.Data.List.Chain
import Mathlib.Data.List.Nodup
import AvroSchema.Record

/-!
# Escaped Names Are Unambiguous

An escaped name is the text of a list of pieces: characters that names admit, and tokens. Escaping
never puts an `x` behind an underscore, so a token of the text can only start where one was written,
and the pieces can be read off the text again.

* `Name.pieces_textOf`: pieces in which no `x` follows an underscore are those of their text.
* `Name.exists_unit_of_token`: wherever their text has a token, they have a unit.
* `Name.joinAfter_emitted`: tokens that are decoded together give the characters they were made for.
* `Name.escape_lossless`: the alphabet, the tokens and the inverse of escaping.
-/

namespace AvroSchema

/-! ## Hexadecimal digits -/

namespace Hex

/-- A lower-case hexadecimal digit. -/
def IsLower (c : Char) : Prop := '0' ≤ c ∧ c ≤ '9' ∨ 'a' ≤ c ∧ c ≤ 'f'

instance : DecidablePred IsLower := fun c =>
  inferInstanceAs (Decidable ('0' ≤ c ∧ c ≤ '9' ∨ 'a' ≤ c ∧ c ≤ 'f'))

theorem lowerValue?_digit : ∀ n < 16, lowerValue? (digit n) = some n := by decide

/-- Digits are name characters, and no digit starts or continues the start of a token. -/
theorem digit_properties : ∀ n < 16, (digit n).isAlphanum = true ∧ digit n ≠ '_' := by decide

/-- A lower-case digit is the digit of its value. -/
theorem exists_digit_of_isLower {c : Char} (h : IsLower c) : ∃ n < 16, c = digit n := by
  have hr : 48 ≤ c.toNat ∧ c.toNat ≤ 57 ∨ 97 ≤ c.toNat ∧ c.toNat ≤ 102 := h
  have hd : ∀ n < 103, 48 ≤ n ∧ n ≤ 57 ∨ 97 ≤ n ∧ n ≤ 102 → ∃ k < 16, Char.ofNat n = digit k := by
    decide +kernel
  have hc := hd c.toNat (by omega) hr
  rwa [Char.ofNat_toNat] at hc

/-- Four digits, the most significant first. -/
theorem padded_four (n : Nat) :
    padded 4 n = [digit (n / 4096 % 16), digit (n / 256 % 16), digit (n / 16 % 16),
      digit (n % 16)] := by
  simp [padded, Nat.div_div_eq_div_mul]

end Hex

/-! ## Code units -/

namespace Utf16

/-- A character is no surrogate. -/
theorem isHigh_or_isLow_toNat (c : Char) : (isHigh c.toNat || isLow c.toNat) = false := by
  have hv : c.toNat < 55296 ∨ 57343 < c.toNat ∧ c.toNat < 1114112 := c.valid
  simp only [isHigh, isLow, Bool.or_eq_false_iff, Bool.and_eq_false_iff, decide_eq_false_iff_not]
  omega

theorem units_lt {c : Char} {unit : Nat} (h : unit ∈ units c) : unit < 0x10000 := by
  have hv : c.toNat < 55296 ∨ 57343 < c.toNat ∧ c.toNat < 1114112 := c.valid
  unfold units at h
  split at h
  · rw [List.mem_singleton.1 h]
    assumption
  · simp only [List.mem_cons, List.not_mem_nil, or_false] at h
    omega

/-- The units of a character are decoded together, whatever follows them. -/
theorem decode_units_append (c : Char) (rest : List Nat) :
    decode (units c ++ rest) = c :: decode rest := by
  have hv : c.toNat < 55296 ∨ 57343 < c.toNat ∧ c.toNat < 1114112 := c.valid
  unfold units
  split
  · -- a single unit is no surrogate, so it opens no pair with the next one
    have hs := isHigh_or_isLow_toNat c
    have hh : isHigh c.toNat = false := (Bool.or_eq_false_iff.1 hs).1
    have hone : single c.toNat = c := by simp [single, hs]
    cases rest with
    | nil => simp [decode, hone]
    | cons low rest => simp [decode, hh, hone]
  · next hbig =>
    have hhigh : isHigh (0xD800 + (c.toNat - 0x10000) / 0x400) = true := by
      simp only [isHigh, Bool.and_eq_true, decide_eq_true_eq]
      omega
    have hlow : isLow (0xDC00 + (c.toNat - 0x10000) % 0x400) = true := by
      simp only [isLow, Bool.and_eq_true, decide_eq_true_eq]
      omega
    have hpair : pair (0xD800 + (c.toNat - 0x10000) / 0x400)
        (0xDC00 + (c.toNat - 0x10000) % 0x400) = c := by
      have hn : 0x10000 + (0xD800 + (c.toNat - 0x10000) / 0x400 - 0xD800) * 0x400 +
          (0xDC00 + (c.toNat - 0x10000) % 0x400 - 0xDC00) = c.toNat := by omega
      rw [pair, hn, Char.ofNat_toNat]
    simp [decode, hhigh, hlow, hpair]

/-- Text is decoded from its code units. -/
theorem decode_flatMap_units (cs : List Char) : decode (cs.flatMap units) = cs := by
  induction cs with
  | nil => rfl
  | cons c cs ih => rw [List.flatMap_cons, decode_units_append, ih]

end Utf16

namespace Name

/-! ## Pieces and their texts -/

/-- The characters that Avro names admit. -/
theorem isNameChar_iff {c : Char} :
    isNameChar c = true ↔
      'A' ≤ c ∧ c ≤ 'Z' ∨ 'a' ≤ c ∧ c ≤ 'z' ∨ '0' ≤ c ∧ c ≤ '9' ∨ c = '_' := by
  delta isNameChar Char.isAlphanum Char.isAlpha Char.isUpper Char.isLower Char.isDigit
  simp [Char.le_def, or_assoc]

/-- The text that a piece stands for in an escaped name. -/
def Piece.text : Piece → List Char
  | .unit value => token value
  | .char c => [c]

/-- The text of some pieces. -/
def textOf (ps : List Piece) : List Char := ps.flatMap Piece.text

/-- The pieces that escaping writes for a text: a name character stands for itself unless it is part
of an `_x`, and all other characters are written as tokens. -/
def emitted : List Char → List Piece
  | [] => []
  | '_' :: 'x' :: rest => .unit '_'.toNat :: .unit 'x'.toNat :: emitted rest
  | c :: rest =>
    (if isNameChar c then [.char c] else (Utf16.units c).map .unit) ++ emitted rest

@[simp]
theorem textOf_nil : textOf [] = [] := rfl

@[simp]
theorem textOf_cons (p : Piece) (ps : List Piece) : textOf (p :: ps) = p.text ++ textOf ps :=
  List.flatMap_cons

@[simp]
theorem textOf_append (ps qs : List Piece) : textOf (ps ++ qs) = textOf ps ++ textOf qs :=
  List.flatMap_append

theorem textOf_map_unit (units : List Nat) : textOf (units.map .unit) = units.flatMap token := by
  induction units with
  | nil => rfl
  | cons unit units ih => simp [Piece.text, ih]

/-- Escaping writes the text of its pieces. -/
theorem escapeChars_eq (cs : List Char) : escapeChars cs = textOf (emitted cs) := by
  fun_induction emitted cs with
  | case1 => rfl
  | case2 rest ih => simp [escapeChars, Piece.text, ih]
  | case3 c rest hx ih =>
    rw [escapeChars.eq_3 _ _ hx, escapeChar, ih, textOf_append]
    split
    · rfl
    · rw [textOf_map_unit]

/-- A piece that can be told apart in a text: a unit that fits a token, or a name character. -/
def Piece.Legible : Piece → Prop
  | .unit value => value < 0x10000
  | .char c => isNameChar c = true

/-- Pieces in whose text every token is the text of one of them: no `x` follows an underscore. -/
structure Unambiguous (ps : List Piece) : Prop where
  /-- The pieces can be told apart. -/
  legible : ∀ p ∈ ps, p.Legible
  /-- The start of a token is no accident. -/
  separated : ps.IsChain fun p q => ¬ (p = .char '_' ∧ q = .char 'x')

theorem Unambiguous.tail {p : Piece} {ps : List Piece} (h : Unambiguous (p :: ps)) :
    Unambiguous ps :=
  ⟨fun q hq => h.legible q (List.mem_cons_of_mem p hq), h.separated.tail⟩

/-- An unambiguous list of pieces may start with any legible one that is not an `x` behind an
underscore. -/
theorem Unambiguous.cons {p : Piece} {ps : List Piece} (h : Unambiguous ps) (hp : p.Legible)
    (hx : p = .char '_' → ps.head? ≠ some (.char 'x')) : Unambiguous (p :: ps) := by
  refine ⟨List.forall_mem_cons.2 ⟨hp, h.legible⟩, List.isChain_cons.2 ⟨?_, h.separated⟩⟩
  rintro q hq ⟨rfl, rfl⟩
  exact hx rfl hq

/-- No `x` stands behind an underscore. -/
theorem Unambiguous.head?_ne {ps : List Piece} (h : Unambiguous (.char '_' :: ps)) :
    ps.head? ≠ some (.char 'x') :=
  fun he => (List.isChain_cons.1 h.separated).1 _ he ⟨rfl, rfl⟩

/-- Tokens may stand before any unambiguous pieces. -/
theorem Unambiguous.units_append {units : List Nat} {ps : List Piece} (h : Unambiguous ps)
    (hu : ∀ unit ∈ units, unit < 0x10000) : Unambiguous (units.map .unit ++ ps) := by
  induction units with
  | nil => exact h
  | cons unit units ih =>
    obtain ⟨hunit, hunits⟩ := List.forall_mem_cons.1 hu
    exact (ih hunits).cons hunit nofun

/-- Only a text that starts with `x` is escaped to pieces that do. -/
theorem head?_emitted {cs : List Char} (h : (emitted cs).head? = some (.char 'x')) :
    ∃ rest, cs = 'x' :: rest := by
  fun_cases emitted cs with
  | case1 => simp [emitted] at h
  | case2 rest => simp [emitted] at h
  | case3 c rest hx =>
    rw [emitted.eq_3 _ _ hx] at h
    split at h
    · simp at h
      exact ⟨rest, by rw [h]⟩
    · unfold Utf16.units at h
      split at h <;> simp at h

/-- The pieces that escaping writes are unambiguous. -/
theorem unambiguous_emitted (cs : List Char) : Unambiguous (emitted cs) := by
  fun_induction emitted cs with
  | case1 => exact ⟨nofun, .nil⟩
  | case2 rest ih =>
    have hu : ∀ unit ∈ ['_'.toNat, 'x'.toNat], unit < 0x10000 := by decide
    exact ih.units_append hu
  | case3 c rest hx ih =>
    split
    · next hc =>
      refine ih.cons hc fun he hh => ?_
      -- an `x` behind an underscore would have been escaped
      obtain ⟨rest', rfl⟩ := head?_emitted hh
      exact hx rest' (by simpa using he) rfl
    · exact ih.units_append fun unit => Utf16.units_lt

/-! ## Tokens of a text -/

/-- Tokens are told apart by the units that they were made for. -/
theorem tokenValue?_padded {n : Nat} (h : n < 0x10000) {a b c d : Char}
    (hn : Hex.padded 4 n = [a, b, c, d]) : tokenValue? a b c d = some n := by
  rw [Hex.padded_four] at hn
  simp only [List.cons.injEq, and_true] at hn
  obtain ⟨rfl, rfl, rfl, rfl⟩ := hn
  have hlow (m : Nat) : Hex.lowerValue? (Hex.digit (m % 16)) = some (m % 16) :=
    Hex.lowerValue?_digit _ (Nat.mod_lt m (by decide))
  simp only [tokenValue?, hlow, Option.bind_eq_bind, Option.bind_some, Option.pure_def,
    Option.some.injEq]
  omega

/-- A text in the form of a token: `_x` and four lower-case hexadecimal digits. -/
def IsToken (w : List Char) : Prop :=
  ∃ a b c d, w = ['_', 'x', a, b, c, d] ∧ ∀ e ∈ [a, b, c, d], Hex.IsLower e

/-- Every text in the form of a token is the token of a unit. -/
theorem exists_token_of_isToken {w : List Char} (h : IsToken w) :
    ∃ unit < 0x10000, w = token unit := by
  obtain ⟨a, b, c, d, rfl, hdigits⟩ := h
  obtain ⟨i, hi, rfl⟩ := Hex.exists_digit_of_isLower (hdigits a (by simp))
  obtain ⟨j, hj, rfl⟩ := Hex.exists_digit_of_isLower (hdigits b (by simp))
  obtain ⟨k, hk, rfl⟩ := Hex.exists_digit_of_isLower (hdigits c (by simp))
  obtain ⟨l, hl, rfl⟩ := Hex.exists_digit_of_isLower (hdigits d (by simp))
  refine ⟨4096 * i + 256 * j + 16 * k + l, by omega, ?_⟩
  have h3 : (4096 * i + 256 * j + 16 * k + l) / 4096 % 16 = i := by omega
  have h2 : (4096 * i + 256 * j + 16 * k + l) / 256 % 16 = j := by omega
  have h1 : (4096 * i + 256 * j + 16 * k + l) / 16 % 16 = k := by omega
  have h0 : (4096 * i + 256 * j + 16 * k + l) % 16 = l := by omega
  rw [token, Hex.padded_four, h3, h2, h1, h0]

/-- Different units have different tokens. -/
theorem token_injective {m n : Nat} (hm : m < 0x10000) (hn : n < 0x10000)
    (h : token m = token n) : m = n := by
  rw [token, token, Hex.padded_four m, Hex.padded_four n] at h
  simp only [List.cons.injEq, true_and, and_true] at h
  have hd : ∀ i j, Hex.digit (i % 16) = Hex.digit (j % 16) → i % 16 = j % 16 := by
    intro i j he
    have hv := congrArg Hex.lowerValue? he
    rw [Hex.lowerValue?_digit _ (Nat.mod_lt _ (by decide)),
      Hex.lowerValue?_digit _ (Nat.mod_lt _ (by decide))] at hv
    exact Option.some.inj hv
  have h3 := hd _ _ h.1
  have h2 := hd _ _ h.2.1
  have h1 := hd _ _ h.2.2.1
  have h0 := hd _ _ h.2.2.2
  omega

/-- A text starts with an `x` only if its pieces do. -/
theorem head?_of_head?_textOf {ps : List Piece} (h : (textOf ps).head? = some 'x') :
    ps.head? = some (.char 'x') := by
  cases ps with
  | nil => cases h
  | cons p ps =>
    cases p with
    | unit value => simp [Piece.text, token] at h
    | char c => simpa [Piece.text] using h

/-- A token holds one underscore, at its start. -/
theorem token_eq_append_underscore {unit : Nat} {before after : List Char}
    (h : token unit = before ++ '_' :: after) : before = [] := by
  have hdigit (m : Nat) : Hex.digit (m % 16) ≠ '_' :=
    (Hex.digit_properties _ (Nat.mod_lt m (by decide))).2
  rw [token, Hex.padded_four] at h
  -- every other place of the token is an `x` or a digit
  match before, h with
  | [], _ => rfl
  | [_], h => simp at h
  | [_, _], h => simp [hdigit] at h
  | [_, _, _], h => simp [hdigit] at h
  | [_, _, _, _], h => simp [hdigit] at h
  | [_, _, _, _, _], h => simp [hdigit] at h
  | _ :: _ :: _ :: _ :: _ :: _ :: _, h => simp at h

theorem length_token (unit : Nat) : (token unit).length = 6 := by
  simp [token, Hex.padded_four]

/-- Wherever the text of unambiguous pieces has a token, the pieces have its unit. -/
theorem exists_unit_of_token {ps : List Piece} (h : Unambiguous ps) {before after : List Char}
    {unit : Nat} (hunit : unit < 0x10000) (ht : textOf ps = before ++ token unit ++ after) :
    ∃ qs rs, ps = qs ++ .unit unit :: rs ∧ before = textOf qs ∧ after = textOf rs := by
  induction ps generalizing before with
  | nil => simp [token] at ht
  | cons p ps ih =>
    cases p with
    | char c =>
      cases before with
      | nil =>
        -- the token would start with this underscore and go on with the `x` of the next piece
        exfalso
        simp only [textOf_cons, Piece.text, token, List.nil_append, List.cons_append,
          List.cons.injEq] at ht
        obtain ⟨rfl, ht⟩ := ht
        exact h.head?_ne (head?_of_head?_textOf (by rw [ht]; rfl))
      | cons c' before =>
        simp only [textOf_cons, Piece.text, List.cons_append, List.nil_append,
          List.cons.injEq] at ht
        obtain ⟨rfl, ht⟩ := ht
        obtain ⟨qs, rs, rfl, rfl, rfl⟩ := ih h.tail ht
        exact ⟨.char c :: qs, rs, rfl, rfl, rfl⟩
    | unit value =>
      have hvalue : value < 0x10000 := h.legible _ List.mem_cons_self
      simp only [textOf_cons, Piece.text, List.append_assoc] at ht
      rcases List.append_eq_append_iff.1 ht with ⟨rest, hb, hr⟩ | ⟨rest, hv, hr⟩
      · -- the token starts behind this one
        have hr : textOf ps = rest ++ token unit ++ after := by simpa using hr
        obtain ⟨qs, rs, rfl, rfl, rfl⟩ := ih h.tail hr
        exact ⟨.unit value :: qs, rs, rfl, by simp [hb, Piece.text], rfl⟩
      · -- the token starts inside this one, and then at its start
        cases rest with
        | nil =>
          rw [List.append_nil] at hv
          have hr : textOf ps = [] ++ token unit ++ after := by simpa using hr.symm
          obtain ⟨qs, rs, rfl, hq, rfl⟩ := ih h.tail hr
          exact ⟨.unit value :: qs, rs, rfl, by simp [← hv, Piece.text, ← hq], rfl⟩
        | cons c rest =>
          obtain rfl : '_' = c := by
            simp only [token, List.cons_append, List.cons.injEq] at hr
            exact hr.1
          obtain rfl := token_eq_append_underscore hv
          rw [List.nil_append] at hv
          rw [← hv] at hr
          obtain ⟨he, rfl⟩ := List.append_inj hr (by rw [length_token, length_token])
          obtain rfl := token_injective hunit hvalue he
          exact ⟨[], ps, rfl, rfl, rfl⟩

/-- A character that starts no token is a piece of its own. -/
theorem pieces_cons {c : Char} {cs : List Char} (h : c = '_' → cs.head? ≠ some 'x') :
    pieces (c :: cs) = .char c :: pieces cs := by
  rw [pieces.eq_3]
  rintro a b d e rest rfl rfl
  exact h rfl rfl

/-- A token is the piece of its unit. -/
theorem pieces_token_append {unit : Nat} (h : unit < 0x10000) (cs : List Char) :
    pieces (token unit ++ cs) = .unit unit :: pieces cs := by
  have hv := tokenValue?_padded h (Hex.padded_four unit)
  rw [token, Hex.padded_four]
  simp [pieces, hv]

/-- Unambiguous pieces are those of their text. -/
theorem pieces_textOf {ps : List Piece} (h : Unambiguous ps) : pieces (textOf ps) = ps := by
  induction ps with
  | nil => rfl
  | cons p ps ih =>
    rw [textOf_cons]
    cases p with
    | unit value =>
      rw [Piece.text, pieces_token_append (h.legible _ List.mem_cons_self), ih h.tail]
    | char c =>
      rw [Piece.text, List.singleton_append, pieces_cons, ih h.tail]
      rintro rfl hx
      exact h.head?_ne (head?_of_head?_textOf hx)

/-! ## Unescaping -/

theorem joinAfter_units (pending units : List Nat) (ps : List Piece) :
    joinAfter pending (units.map .unit ++ ps) = joinAfter (pending ++ units) ps := by
  induction units generalizing pending with
  | nil => simp
  | cons unit units ih => simp [joinAfter, ih]

/-- The units of pending characters are decoded together with the tokens that follow them, so
surrogates find their partners. -/
theorem joinAfter_emitted (before cs : List Char) :
    joinAfter (before.flatMap Utf16.units) (emitted cs) = before ++ cs := by
  fun_induction emitted cs generalizing before with
  | case1 => simp [joinAfter, Utf16.decode_flatMap_units]
  | case2 rest ih =>
    have h := ih (before ++ ['_', 'x'])
    simp only [List.flatMap_append] at h
    simpa [joinAfter, Utf16.units] using h
  | case3 c rest hx ih =>
    split
    · have h := ih []
      simp only [List.flatMap_nil, List.nil_append] at h
      simp [joinAfter, Utf16.decode_flatMap_units, h]
    · have h := ih (before ++ [c])
      simp only [List.flatMap_append, List.flatMap_singleton] at h
      rw [joinAfter_units, h, List.append_assoc, List.singleton_append]

/-- An escaped text stands for the text that was escaped. -/
theorem unescapeChars_escapeChars (cs : List Char) : unescapeChars (escapeChars cs) = cs := by
  rw [unescapeChars, escapeChars_eq, pieces_textOf (unambiguous_emitted cs)]
  exact joinAfter_emitted [] cs

theorem unescape_escape (name : String) : unescape (escape name) = name := by
  simp [unescape, escape, unescapeChars_escapeChars]

theorem escape_injective : Function.Injective escape := by
  intro name other h
  rw [← unescape_escape name, h, unescape_escape]

/-- Escaped texts consist of name characters. -/
theorem isNameChar_of_mem_escapeChars {cs : List Char} {c : Char} (h : c ∈ escapeChars cs) :
    isNameChar c = true := by
  rw [escapeChars_eq, textOf, List.mem_flatMap] at h
  obtain ⟨p, hp, hc⟩ := h
  cases p with
  | char d =>
    rw [List.mem_singleton.1 hc]
    exact (unambiguous_emitted cs).legible _ hp
  | unit value =>
    have hdigit (m : Nat) : isNameChar (Hex.digit (m % 16)) = true := by
      rw [isNameChar, (Hex.digit_properties _ (Nat.mod_lt m (by decide))).1, Bool.true_or]
    simp only [Piece.text, token, Hex.padded_four, List.mem_cons, List.not_mem_nil, or_false] at hc
    rcases hc with rfl | rfl | rfl | rfl | rfl | rfl
    · rfl
    · rfl
    all_goals exact hdigit _

/-- Escaping writes name characters only, a token of an escaped name is always one that was written
for a unit, and unescaping gives the name back. So different names have different escaped forms, and
the fields of a record have as many names in a document as in the record. -/
theorem escape_lossless :
    (∀ name : String,
      (∀ c ∈ (escape name).toList,
        'A' ≤ c ∧ c ≤ 'Z' ∨ 'a' ≤ c ∧ c ≤ 'z' ∨ '0' ≤ c ∧ c ≤ '9' ∨ c = '_') ∧
      (escape name).toList = textOf (emitted name.toList) ∧
      (∀ before w after, (escape name).toList = before ++ w ++ after → IsToken w →
        ∃ qs unit rs, emitted name.toList = qs ++ .unit unit :: rs ∧
          before = textOf qs ∧ w = token unit ∧ after = textOf rs) ∧
      unescape (escape name) = name) ∧
    Function.Injective escape ∧
    ∀ r : Record, (r.fields.map Field.wireName).Nodup ↔ r.fieldNames.Nodup := by
  refine ⟨fun name => ⟨fun c hc => ?_, ?_, fun before w after he hw => ?_, unescape_escape name⟩,
    escape_injective, fun r => ?_⟩
  · exact isNameChar_iff.1 (isNameChar_of_mem_escapeChars (by simpa [escape] using hc))
  · rw [escape, String.toList_ofList, escapeChars_eq]
  · obtain ⟨unit, hunit, rfl⟩ := exists_token_of_isToken hw
    rw [escape, String.toList_ofList, escapeChars_eq] at he
    obtain ⟨qs, rs, hp, hb, ha⟩ := exists_unit_of_token (unambiguous_emitted _) hunit he
    exact ⟨qs, unit, rs, hp, hb, rfl, ha⟩
  · have hm : r.fields.map Field.wireName = r.fieldNames.map escape := by
      simp [Record.fieldNames, Field.wireName]
    rw [hm, List.nodup_map_iff escape_injective]

end Name

end AvroSchema
