import Mathlib.Tactic.SplitIfs
import AvroSchema.Toml.Text

/-!
# Quoted Strings Are Read Back

A text is written in one of five ways, and each is read back by another branch of the grammar, up to
its closing quotes. Inside double quotes, every character that is written as an escape is the one
that this escape stands for. Between triple quotes, a row of quotes may be part of the text, but it
never grows to three: inside the text because of an escape or because there is no such row, and
before the closing quotes because the reader counts up to five.

* `Toml.ReadsEscapes.flatMap_basicChar`: characters of basic strings, on one line or several.
* `Toml.readMultiBasic_multiBasicChars`, `Toml.readMultiLiteral_append`: rows of quotes.
* `Toml.readString_quote`: any text, whatever follows it but another quote.
-/

namespace AvroSchema

/-- Four upper-case digits are read as the number that they were written for. -/
theorem Hex.number?_toUpper_padded {n : Nat} (h : n < 0x10000) :
    number? ((padded 4 n).map Char.toUpper) = some n := by
  have hupper : ∀ k < 16, value? (digit k).toUpper = some k := by decide
  have hvalue (k : Nat) : value? (digit (k % 16)).toUpper = some (k % 16) :=
    hupper _ (Nat.mod_lt k (by decide))
  simp only [padded, number?, Nat.div_div_eq_div_mul, List.nil_append, List.cons_append,
    List.map_cons, List.map_nil, List.foldlM_cons, List.foldlM_nil, hvalue, Option.map_some,
    Option.bind_eq_bind, Option.bind_some, Option.pure_def, Option.some.injEq]
  omega

namespace Toml

/-! ## Characters of basic strings -/

theorem toNat_lt_of_isControl {c : Char} (h : isControl c = true) : c.toNat < 0x80 := by
  simp only [isControl, Bool.or_eq_true, decide_eq_true_eq, beq_iff_eq] at h
  omega

/-- A short escape stands for the character that is written so. -/
theorem unescape?_of_shortEscape? {c e : Char} (h : shortEscape? c = some e) :
    unescape? e = some c := by
  unfold shortEscape? at h
  split_ifs at h with hb ht hn hf hr hquote hslash <;> cases h <;> simp [unescape?, *]

theorem codePoint?_padded {c : Char} (h : c.toNat < 0x10000) :
    codePoint? ((Hex.padded 4 c.toNat).map Char.toUpper) = some c := by
  have hvalid : c.toNat.isValidChar := c.valid
  simp [codePoint?, Hex.number?_toUpper_padded h, hvalid, Char.ofNat_toNat]

/-- A character of a basic string is written by an escape, by its code point, or as it is. -/
theorem basicChar_cases (c : Char) :
    (∃ e, basicChar c = ['\\', e] ∧ unescape? e = some c) ∨
    (∃ x y z t, basicChar c = ['\\', 'u', x, y, z, t] ∧ codePoint? [x, y, z, t] = some c) ∨
    (basicChar c = [c] ∧ c ≠ '"' ∧ c ≠ '\\' ∧ isControl c = false) := by
  unfold basicChar
  split
  · next e he => exact Or.inl ⟨e, rfl, unescape?_of_shortEscape? he⟩
  next hshort =>
  split
  · next hcontrol =>
    have hlt := toNat_lt_of_isControl hcontrol
    exact Or.inr (Or.inl ⟨_, _, _, _, rfl, codePoint?_padded (by omega)⟩)
  · next hcontrol =>
    refine Or.inr (Or.inr ⟨rfl, ?_, ?_, by simpa using hcontrol⟩)
    · rintro rfl
      cases hshort
    · rintro rfl
      cases hshort

/-- A reader of basic strings takes escapes, code points, and characters that need neither. -/
structure ReadsEscapes (read : List Char → Option (List Char × List Char)) : Prop where
  escape : ∀ {e c w text rest}, unescape? e = some c → read w = some (text, rest) →
    read ('\\' :: e :: w) = some (c :: text, rest)
  codePoint : ∀ {x y z t c w text rest}, codePoint? [x, y, z, t] = some c →
    read w = some (text, rest) →
    read ('\\' :: 'u' :: x :: y :: z :: t :: w) = some (c :: text, rest)
  plain : ∀ {c w text rest}, c ≠ '"' → c ≠ '\\' → isControl c = false →
    read w = some (text, rest) → read (c :: w) = some (c :: text, rest)

theorem readBasic_readsEscapes : ReadsEscapes readBasic where
  escape he h := by
    unfold unescape? at he
    split at he <;> cases he <;> simp [readBasic, unescape?, h]
  codePoint hc h := by simp [readBasic, hc, h]
  plain hquote hslash hcontrol h := by simp [readBasic, hslash, hcontrol, h]

namespace ReadsEscapes

variable {read : List Char → Option (List Char × List Char)} (hread : ReadsEscapes read)
include hread

theorem basicChar (c : Char) {w text rest : List Char} (h : read w = some (text, rest)) :
    read (basicChar c ++ w) = some (c :: text, rest) := by
  rcases basicChar_cases c with
    ⟨e, heq, he⟩ | ⟨x, y, z, t, heq, hc⟩ | ⟨heq, hquote, hslash, hcontrol⟩
  · rw [heq]
    exact hread.escape he h
  · rw [heq]
    exact hread.codePoint hc h
  · rw [heq]
    exact hread.plain hquote hslash hcontrol h

theorem flatMap_basicChar (cs : List Char) {w text rest : List Char}
    (h : read w = some (text, rest)) :
    read (cs.flatMap Toml.basicChar ++ w) = some (cs ++ text, rest) := by
  induction cs with
  | nil => exact h
  | cons c cs ih =>
    rw [List.flatMap_cons, List.append_assoc]
    exact hread.basicChar c ih

end ReadsEscapes

/-! ## Strings on one line -/

/-- A character that strings without escapes may hold on one line. -/
def OnLine (c : Char) : Prop := isControl c = false ∨ c = '\t'

theorem readLiteral_append {cs : List Char} (hline : ∀ c ∈ cs, OnLine c) (hquote : '\x27' ∉ cs)
    (rest : List Char) : readLiteral (cs ++ '\x27' :: rest) = some (cs, rest) := by
  induction cs with
  | nil => simp [readLiteral]
  | cons c cs ih =>
    obtain ⟨hc, hcs⟩ := List.forall_mem_cons.1 hline
    obtain ⟨hne, hnot⟩ := not_or.1 (mt List.mem_cons.2 hquote)
    have hallowed : (isControl c && c != '\t') = false := by
      rcases hc with hc | rfl
      · rw [hc, Bool.false_and]
      · rfl
    rw [List.cons_append, readLiteral, if_neg (Ne.symm hne), hallowed, ih hcs hnot]
    rfl

/-! ## Rows of quotes -/

/-- A reader of strings between triple quotes takes a quote that is not the first of three, and ends
with the last three quotes of a row of at most five. -/
structure ReadsRows (q : Char) (read : List Char → Option (List Char × List Char)) : Prop where
  quote : ∀ {w text rest}, (∀ more, w ≠ q :: q :: more) → read w = some (text, rest) →
    read (q :: w) = some (q :: text, rest)
  closing : ∀ {row rest}, row ≤ 2 → rest.head? ≠ some q →
    read (List.replicate row q ++ q :: q :: q :: rest) = some (List.replicate row q, rest)

/-- One or two quotes in a row belong to the text. -/
theorem ReadsRows.replicate_append {q : Char} {read : List Char → Option (List Char × List Char)}
    (hread : ReadsRows q read) {row : Nat} (hrow : row ≤ 2) {w text rest : List Char}
    (hw : w.head? ≠ some q) (h : read w = some (text, rest)) :
    read (List.replicate row q ++ w) = some (List.replicate row q ++ text, rest) := by
  induction row with
  | zero => exact h
  | succ row ih =>
    refine hread.quote (fun more heq => ?_) (ih (by omega))
    match row, hrow, heq with
    | 0, _, heq => exact hw (by rw [show w = _ from heq]; rfl)
    | 1, _, heq => exact hw (by rw [show w = q :: more by simpa using heq]; rfl)

/-! ## Strings of several lines -/

/-- A character between triple double quotes is read as it is, if it need not be escaped. -/
theorem readMultiBasic_cons {c : Char} {w text rest : List Char}
    (hquote : c = '"' → ∀ more, w ≠ '"' :: '"' :: more) (hslash : c ≠ '\\')
    (hallowed : (isControl c && c != '\t' && c != '\n') = false)
    (h : readMultiBasic false w = some (text, rest)) :
    readMultiBasic false (c :: w) = some (c :: text, rest) := by
  have hreturn : c ≠ '\r' := by
    rintro rfl
    cases hallowed
  -- of all that may begin here, only the closing quotes begin with a quote
  rw [readMultiBasic]
  · simp [hslash, hallowed, h]
  · exact fun more hc => hquote hc _
  · exact fun more hc => hquote hc _
  · exact fun more hc => hquote hc _
  · exact fun _ _ _ _ _ hc => absurd hc hslash
  · exact fun _ _ _ _ _ _ _ _ _ hc => absurd hc hslash
  · exact fun _ _ hc => absurd hc hslash
  · exact fun _ hc => absurd hc hreturn

theorem readMultiBasic_readsEscapes : ReadsEscapes (readMultiBasic false) where
  escape he h := by
    unfold unescape? at he
    split at he <;> cases he <;> simp [readMultiBasic, unescape?, endsLine, isBlank, h]
  codePoint hc h := by simp [readMultiBasic, hc, h]
  plain hquote hslash hcontrol h :=
    readMultiBasic_cons (fun hc => absurd hc hquote) hslash (by simp [hcontrol]) h

theorem readMultiBasic_readsRows : ReadsRows '"' (readMultiBasic false) where
  quote hw h := readMultiBasic_cons (fun _ => hw) (by decide) (by decide) h
  closing {row rest} hrow hrest := by
    have hone : ∀ more, rest ≠ '"' :: more := by
      rintro more rfl
      exact hrest rfl
    match row, hrow with
    | 0, _ => simp [readMultiBasic, hone]
    | 1, _ => simp [readMultiBasic]
    | 2, _ => rfl

/-- The first character of a written one is no quote, unless it is written as it is. -/
theorem head?_basicChar_append (c : Char) (w : List Char) (hc : c ≠ '"') :
    (basicChar c ++ w).head? ≠ some '"' := by
  rcases basicChar_cases c with ⟨e, heq, -⟩ | ⟨x, y, z, t, heq, -⟩ | ⟨heq, -⟩
  · simp [heq]
  · simp [heq]
  · simpa [heq] using hc

/-- A text is read back from between triple double quotes, also behind a row of quotes that belong
to it. -/
theorem readMultiBasic_multiBasicChars {rest : List Char} (hrest : rest.head? ≠ some '"')
    (cs : List Char) {row : Nat} (hrow : row ≤ 2) :
    readMultiBasic false
        (List.replicate row '"' ++ (multiBasicChars row cs ++ '"' :: '"' :: '"' :: rest)) =
      some (List.replicate row '"' ++ cs, rest) := by
  have hrows := readMultiBasic_readsRows
  induction cs generalizing row with
  | nil => simpa [multiBasicChars] using hrows.closing hrow hrest
  | cons c cs ih =>
    have htail := ih (Nat.zero_le 2)
    rw [List.replicate_zero, List.nil_append, List.nil_append] at htail
    rw [multiBasicChars]
    split_ifs with hquote hthird hline
    · -- a third quote is written as an escape
      rw [hquote]
      exact hrows.replicate_append hrow (by simp)
        (readMultiBasic_readsEscapes.escape (e := '"') rfl htail)
    · have hmore := @ih (row + 1) (by omega)
      rw [hquote]
      simpa [List.replicate_succ'] using hmore
    · rw [hline]
      exact hrows.replicate_append hrow (by simp)
        (readMultiBasic_cons (by simp) (by decide) (by decide) htail)
    · rw [List.append_assoc]
      exact hrows.replicate_append hrow (head?_basicChar_append c _ hquote)
        (readMultiBasic_readsEscapes.basicChar c htail)

/-- A character that strings without escapes may hold on several lines. -/
def OnLines (c : Char) : Prop := OnLine c ∨ c = '\n'

/-- A character between triple single quotes is read as it is. -/
theorem readMultiLiteral_cons {c : Char} {w text rest : List Char}
    (hquote : c = '\x27' → ∀ more, w ≠ '\x27' :: '\x27' :: more) (hc : OnLines c)
    (h : readMultiLiteral w = some (text, rest)) :
    readMultiLiteral (c :: w) = some (c :: text, rest) := by
  have hallowed : (isControl c && c != '\t' && c != '\n') = false := by
    rcases hc with (hc | rfl) | rfl
    · simp [hc]
    · rfl
    · rfl
  have hreturn : c ≠ '\r' := by
    rintro rfl
    cases hallowed
  rw [readMultiLiteral]
  · simp [hallowed, h]
  · exact fun more hc => hquote hc _
  · exact fun more hc => hquote hc _
  · exact fun more hc => hquote hc _
  · exact fun _ hc => absurd hc hreturn

theorem readMultiLiteral_readsRows : ReadsRows '\x27' readMultiLiteral where
  quote hw h := readMultiLiteral_cons (fun _ => hw) (Or.inl (Or.inl rfl)) h
  closing {row rest} hrow hrest := by
    have hone : ∀ more, rest ≠ '\x27' :: more := by
      rintro more rfl
      exact hrest rfl
    match row, hrow with
    | 0, _ => simp [readMultiLiteral, hone]
    | 1, _ => simp [readMultiLiteral]
    | 2, _ => rfl

theorem hasTriple_append {q : Char} {cs : List Char} (before : List Char)
    (h : hasTriple q cs = true) : hasTriple q (before ++ cs) = true := by
  induction before with
  | nil => exact h
  | cons a before ih =>
    rw [List.cons_append]
    match hw : before ++ cs with
    | b :: c :: w => rw [hw] at ih; simp [hasTriple, ih]
    | [b] => rw [hw] at ih; cases ih
    | [] => rw [hw] at ih; cases ih

/-- A text without three single quotes in a row is read back from between triple single quotes, also
behind a row of quotes that belong to it. -/
theorem readMultiLiteral_append {rest : List Char} (hrest : rest.head? ≠ some '\x27')
    {cs : List Char} (hlines : ∀ c ∈ cs, OnLines c) {row : Nat} (hrow : row ≤ 2)
    (htriple : hasTriple '\x27' (List.replicate row '\x27' ++ cs) = false) :
    readMultiLiteral
        (List.replicate row '\x27' ++ (cs ++ '\x27' :: '\x27' :: '\x27' :: rest)) =
      some (List.replicate row '\x27' ++ cs, rest) := by
  have hrows := readMultiLiteral_readsRows
  induction cs generalizing row with
  | nil => simpa using hrows.closing hrow hrest
  | cons c cs ih =>
    obtain ⟨hc, hcs⟩ := List.forall_mem_cons.1 hlines
    -- a quote makes the row longer, and any other character ends it
    by_cases hquote : c = '\x27'
    · subst hquote
      have hless : row ≠ 2 := by
        rintro rfl
        simp [hasTriple, List.replicate_succ] at htriple
      have hmore := @ih hcs (row + 1) (by omega)
        (by simpa [List.replicate_succ'] using htriple)
      simpa [List.replicate_succ'] using hmore
    · have hnone : hasTriple '\x27' cs = false := by
        rw [← Bool.not_eq_true] at htriple ⊢
        intro h
        exact htriple (by simpa using hasTriple_append (List.replicate row '\x27' ++ [c]) h)
      have htail := ih hcs (Nat.zero_le 2) hnone
      rw [List.replicate_zero, List.nil_append, List.nil_append] at htail
      exact hrows.replicate_append hrow (by simpa using hquote)
        (readMultiLiteral_cons (fun h => absurd h hquote) hc htail)

/-! ## All forms -/

/-- Nothing is dropped where no line ends. -/
theorem dropLineBreak_of_head? {cs : List Char} (hline : cs.head? ≠ some '\n')
    (hreturn : cs.head? ≠ some '\r') : dropLineBreak cs = cs := by
  unfold dropLineBreak
  split
  · exact absurd rfl hline
  · exact absurd rfl hreturn
  · rfl

/-- The line break that opens a text of several lines is dropped, and nothing of the text. -/
theorem dropLineBreak_opening_append {cs w : List Char}
    (h : '\n' ∉ cs → w.head? ≠ some '\n' ∧ w.head? ≠ some '\r') :
    dropLineBreak (opening cs ++ w) = w := by
  unfold opening
  split
  · rfl
  · next hnone =>
    obtain ⟨hline, hreturn⟩ := h (by simpa using hnone)
    exact dropLineBreak_of_head? hline hreturn

section

variable {rest : List Char} (cs : List Char)

theorem readString_basic (hrest : rest.head? ≠ some '"') :
    readString (quoteAs .basic cs ++ rest) = some (cs, rest) := by
  have hread : readBasic (cs.flatMap basicChar ++ '"' :: rest) = some (cs ++ [], rest) :=
    readBasic_readsEscapes.flatMap_basicChar cs rfl
  rw [List.append_nil] at hread
  -- two quotes are an empty string, as no third one follows
  have hopen : ∀ more, cs.flatMap basicChar ++ '"' :: rest ≠ '"' :: '"' :: more := by
    intro more heq
    cases cs with
    | nil =>
      obtain rfl := (List.cons.inj heq).2
      exact hrest rfl
    | cons c cs =>
      rw [List.flatMap_cons, List.append_assoc] at heq
      rcases basicChar_cases c with ⟨e, hc, -⟩ | ⟨x, y, z, t, hc, -⟩ | ⟨hc, hquote, -⟩
      · simp [hc] at heq
      · simp [hc] at heq
      · simp [hc, hquote] at heq
  rw [quoteAs, List.cons_append, List.cons_append, List.append_assoc, List.singleton_append,
    readString, hread]
  exact hopen

theorem readString_literal (hrest : rest.head? ≠ some '\x27') (hline : ∀ c ∈ cs, OnLine c)
    (hquote : '\x27' ∉ cs) : readString (quoteAs .literal cs ++ rest) = some (cs, rest) := by
  have hopen : ∀ more, cs ++ '\x27' :: rest ≠ '\x27' :: '\x27' :: more := by
    intro more heq
    cases cs with
    | nil =>
      obtain rfl := (List.cons.inj heq).2
      exact hrest rfl
    | cons c cs => exact hquote ((List.cons.inj heq).1 ▸ List.mem_cons_self)
  rw [quoteAs, List.cons_append, List.cons_append, List.append_assoc, List.singleton_append,
    readString, readLiteral_append hline hquote]
  exact hopen

theorem readString_multiBasic (hrest : rest.head? ≠ some '"') :
    readString (quoteAs .multiBasic cs ++ rest) = some (cs, rest) := by
  have hread := readMultiBasic_multiBasicChars hrest cs (Nat.zero_le 2)
  rw [List.replicate_zero, List.nil_append, List.nil_append] at hread
  have hdrop : dropLineBreak (opening cs ++ (multiBasicChars 0 cs ++ '"' :: '"' :: '"' :: rest)) =
      multiBasicChars 0 cs ++ '"' :: '"' :: '"' :: rest := by
    refine dropLineBreak_opening_append fun hnone => ?_
    cases cs with
    | nil => simp [multiBasicChars]
    | cons c cs =>
      rw [multiBasicChars]
      split_ifs with hquote hthird hline
      · simp at hthird
      · simp
      · exact absurd (hline ▸ List.mem_cons_self) hnone
      · rcases basicChar_cases c with ⟨e, hc, -⟩ | ⟨x, y, z, t, hc, -⟩ | ⟨hc, -, -, hcontrol⟩
        · simp [hc]
        · simp [hc]
        · -- line breaks are control characters
          rw [hc]
          constructor
          · rintro ⟨⟩
            cases hcontrol
          · rintro ⟨⟩
            cases hcontrol
  rw [quoteAs]
  simp only [List.cons_append, List.nil_append, List.append_assoc]
  rw [readString, hdrop, hread]

theorem readString_multiLiteral (hrest : rest.head? ≠ some '\x27')
    (hlines : ∀ c ∈ cs, OnLines c) (htriple : hasTriple '\x27' cs = false) :
    readString (quoteAs .multiLiteral cs ++ rest) = some (cs, rest) := by
  have hread := readMultiLiteral_append hrest hlines (Nat.zero_le 2) htriple
  rw [List.replicate_zero, List.nil_append, List.nil_append] at hread
  have hdrop : dropLineBreak (opening cs ++ (cs ++ '\x27' :: '\x27' :: '\x27' :: rest)) =
      cs ++ '\x27' :: '\x27' :: '\x27' :: rest := by
    refine dropLineBreak_opening_append fun hnone => ?_
    cases cs with
    | nil => simp
    | cons c cs =>
      have hc := hlines c List.mem_cons_self
      constructor
      · rintro ⟨⟩
        exact hnone List.mem_cons_self
      · rintro ⟨⟩
        revert hc
        simp [OnLines, OnLine, isControl]
  rw [quoteAs]
  simp only [List.cons_append, List.nil_append, List.append_assoc]
  rw [readString, hdrop, hread]

/-- A text is read back from the form in which it is written, up to its closing quotes. -/
theorem readString_quote (hdouble : rest.head? ≠ some '"') (hsingle : rest.head? ≠ some '\x27') :
    readString (quote cs ++ rest) = some (cs, rest) := by
  rw [quote, style]
  split_ifs with hbasic hliteral hmultiBasic hmultiLiteral hlines
  · exact readString_basic cs hdouble
  · simp only [Bool.and_eq_true, List.all_eq_true, Bool.or_eq_true, Bool.not_eq_true',
      List.contains_eq_mem, decide_eq_false_iff_not, beq_iff_eq] at hliteral
    exact readString_literal cs hsingle hliteral.1 hliteral.2
  · exact readString_multiBasic cs hdouble
  · simp only [Bool.and_eq_true, List.all_eq_true, Bool.or_eq_true, Bool.not_eq_true',
      beq_iff_eq] at hmultiLiteral
    exact readString_multiLiteral cs hsingle hmultiLiteral.1 hmultiLiteral.2
  · exact readString_multiBasic cs hdouble
  · exact readString_basic cs hdouble

end

end Toml

end AvroSchema
