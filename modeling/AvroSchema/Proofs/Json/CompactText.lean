import AvroSchema.Json.Reader
import AvroSchema.Proofs.Json.DoubleText
import AvroSchema.Proofs.Json.Floats

/-!
# Compact Texts

Two JSON values with one compact text are the same. Every text of a value shows where it ends: a
quoted text at its closing quote, because quotes inside it are escaped, an array or object at its
bracket, and a number where no character of a number follows.

* `Json.Reader.characters_escaped`: an escaped text is read back, up to its closing quote.
* `Json.eq_of_chars_append_eq`: values are told apart by their texts, whatever follows these.
* `Json.eq_of_compact_eq`: the compact text of a value determines it.
-/

namespace AvroSchema.Json

open Decimal (isNumberChar)

/-! ## Quoted texts -/

/-- Four hexadecimal digits are read back. -/
theorem Reader.codeUnit_padded {unit : Nat} (h : unit < 0x10000) (rest : List Char) :
    Reader.codeUnit (Hex.padded 4 unit ++ rest) = .ok (unit, rest) := by
  have hdigit : ∀ n < 16, Hex.value? (Hex.digit n) = some n := by decide
  have hvalue (n : Nat) : Hex.value? (Hex.digit (n % 16)) = some (n % 16) :=
    hdigit _ (Nat.mod_lt n (by decide))
  have hpadded : Hex.padded 4 unit = [Hex.digit (unit / 4096 % 16), Hex.digit (unit / 256 % 16),
      Hex.digit (unit / 16 % 16), Hex.digit (unit % 16)] := by
    simp [Hex.padded, Nat.div_div_eq_div_mul]
  have hnumber : Hex.number? [Hex.digit (unit / 4096 % 16), Hex.digit (unit / 256 % 16),
      Hex.digit (unit / 16 % 16), Hex.digit (unit % 16)] = some unit := by
    simp only [Hex.number?, List.foldlM_cons, List.foldlM_nil, hvalue, Option.map_some,
      Option.bind_eq_bind, Option.bind_some, Option.pure_def, Option.some.injEq]
    omega
  rw [hpadded, List.cons_append, List.cons_append, List.cons_append, List.cons_append,
    List.nil_append, Reader.codeUnit, hnumber]

/-- The escape of a control character is read back. -/
theorem Reader.unicodeEscape_padded {c : Char} (h : c.toNat < 0x20) (rest : List Char) :
    Reader.unicodeEscape (Hex.padded 4 c.toNat ++ rest) = .ok (c, rest) := by
  have hhigh : Utf16.isHigh c.toNat = false := by
    simp only [Utf16.isHigh, Bool.and_eq_false_iff, decide_eq_false_iff_not]
    omega
  have hlow : Utf16.isLow c.toNat = false := by
    simp only [Utf16.isLow, Bool.and_eq_false_iff, decide_eq_false_iff_not]
    omega
  rw [Reader.unicodeEscape, Reader.codeUnit_padded (by omega)]
  simp [hhigh, hlow, Utf16.single, Char.ofNat_toNat]

/-- An escaped text is read back, up to its closing quote. -/
theorem Reader.characters_escaped (cs rest : List Char) :
    Reader.characters (cs.flatMap escapeChar ++ '"' :: rest) = .ok (cs, rest) := by
  induction cs with
  | nil => simp [Reader.characters]
  | cons c cs ih =>
    rw [List.flatMap_cons, List.append_assoc]
    generalize cs.flatMap escapeChar ++ '"' :: rest = text at ih
    -- a short escape stands for its character
    have hshort : ∀ e, e ≠ 'u' → Reader.shortEscape? e = some c →
        Reader.characters (['\\', e] ++ text) = .ok (c :: cs, rest) := by
      intro e he hc
      simp [Reader.characters, hc, ih, bind, Except.bind, pure, Except.pure]
    unfold escapeChar
    split_ifs with hquote hslash hn hr ht hb hf hcontrol
    · exact hshort '"' (by decide) (by rw [hquote]; rfl)
    · exact hshort '\\' (by decide) (by rw [hslash]; rfl)
    · exact hshort 'n' (by decide) (by rw [hn]; rfl)
    · exact hshort 'r' (by decide) (by rw [hr]; rfl)
    · exact hshort 't' (by decide) (by rw [ht]; rfl)
    · exact hshort 'b' (by decide) (by rw [hb]; rfl)
    · exact hshort 'f' (by decide) (by rw [hf]; rfl)
    · have hescape := Reader.unicodeEscape_padded hcontrol text
      rw [List.append_assoc, List.cons_append, List.cons_append, List.nil_append,
        Reader.characters]
      split
      · next he =>
        rw [hescape] at he
        cases he
      · next he =>
        rw [hescape] at he
        cases he
        simp [ih, bind, Except.bind, pure, Except.pure]
    · simp [Reader.characters, hslash, hcontrol, ih, bind, Except.bind, pure, Except.pure]

/-- A quoted text shows where it ends. -/
theorem eq_of_quote_append_eq {s t : String} {rest rest' : List Char}
    (h : quote s ++ rest = quote t ++ rest') : s = t ∧ rest = rest' := by
  have hread : ∀ (u : String) (after : List Char),
      Reader.characters ((quote u ++ after).drop 1) = .ok (u.toList, after) := by
    intro u after
    rw [quote, List.cons_append, List.cons_append, List.drop_succ_cons, List.drop_zero,
      List.append_assoc, List.singleton_append, Reader.characters_escaped]
  have hs := hread s rest
  rw [h, hread, Except.ok.injEq, Prod.mk.injEq] at hs
  exact ⟨String.toList_injective hs.1.symm, hs.2.symm⟩

/-! ## Numbers -/

/-- No number goes on here. -/
def Ends (rest : List Char) : Prop := ∀ c ∈ rest.head?, isNumberChar c = false

/-- The text of a number shows where it ends if no number goes on there. -/
theorem eq_of_append_eq_of_ends {s t rest rest' : List Char}
    (hs : ∀ c ∈ s, isNumberChar c = true) (ht : ∀ c ∈ t, isNumberChar c = true) (hr : Ends rest)
    (hr' : Ends rest') (h : s ++ rest = t ++ rest') : s = t ∧ rest = rest' := by
  have htake : ∀ {u after : List Char}, (∀ c ∈ u, isNumberChar c = true) → Ends after →
      (u ++ after).takeWhile isNumberChar = u := by
    intro u after hu ha
    rw [List.takeWhile_append_of_pos hu]
    cases after with
    | nil => simp
    | cons c after => rw [List.takeWhile_cons_of_neg (by simpa using ha c rfl), List.append_nil]
  have he : s = t := by rw [← htake hs hr, h, htake ht hr']
  subst he
  exact ⟨rfl, List.append_cancel_left h⟩

theorem isDigit_or_sign_of_mem_intText {n : Int} {c : Char} (h : c ∈ intText n) :
    c.isDigit = true ∨ c = '-' := by
  unfold intText at h
  split at h
  · rcases List.mem_cons.1 h with rfl | h
    · exact Or.inr rfl
    · exact Or.inl (Nat.isDigit_of_mem_toDigits (by decide) (by decide) h)
  · exact Or.inl (Nat.isDigit_of_mem_toDigits (by decide) (by decide) h)

/-- The text of an integer determines it. -/
theorem eq_of_intText_eq {m n : Int} (h : intText m = intText n) : m = n := by
  have hdigits : ∀ {a b : Nat}, Nat.toDigits 10 a = Nat.toDigits 10 b → a = b := by
    intro a b hab
    rw [← Nat.ofDigitChars_ten_toDigits (n := a), hab, Nat.ofDigitChars_ten_toDigits]
  -- a digit is no sign
  have hsign : ∀ {a b : Nat}, Nat.toDigits 10 a ≠ '-' :: Nat.toDigits 10 b := by
    intro a b hab
    have hd := Nat.isDigit_of_mem_toDigits (b := 10) (n := a) (by decide) (by decide)
      (hab ▸ List.mem_cons_self)
    revert hd
    decide
  unfold intText at h
  split_ifs at h with hm hn hn
  · have := hdigits (List.cons.inj h).2
    omega
  · exact absurd h.symm hsign
  · exact absurd h hsign
  · have := hdigits h
    omega

/-! ## Values -/

/-- The first character of the text of a value, with one character for all that numbers may start
with. -/
def lead : Json → Char
  | .null => 'n'
  | .bool true => 't'
  | .bool false => 'f'
  | .int _ | .float _ => '0'
  | .string _ => '"'
  | .array _ => '['
  | .object _ => '\x7b'

section

variable {a b : Json} {rest rest' : List Char}

/-- The text of a number. -/
private theorem isNumberChar_of_mem_intText {n : Int} {c : Char} (h : c ∈ intText n) :
    isNumberChar c = true := by
  rcases isDigit_or_sign_of_mem_intText h with hc | rfl
  · simp [isNumberChar, hc]
  · decide

/-- The text of a value starts with its lead. -/
theorem exists_chars_eq (a : Json) :
    ∃ c rest, a.chars = c :: rest ∧ a.lead = if isNumberChar c then '0' else c := by
  -- a number may start with any digit or with a sign, but its lead is that of all numbers
  have hnumber : ∀ {text : List Char}, text ≠ [] → (∀ c ∈ text, isNumberChar c = true) →
      ∃ c rest, text = c :: rest ∧ '0' = if isNumberChar c then '0' else c := by
    intro text hne ht
    obtain ⟨c, rest, rfl⟩ := List.exists_cons_of_ne_nil hne
    exact ⟨c, rest, rfl, by rw [if_pos (ht c List.mem_cons_self)]⟩
  cases a with
  | null => exact ⟨'n', _, rfl, rfl⟩
  | bool value => cases value <;> exact ⟨_, _, rfl, rfl⟩
  | int n =>
    refine hnumber ?_ fun c hc => isNumberChar_of_mem_intText hc
    change intText n ≠ []
    unfold intText
    split
    · exact List.cons_ne_nil _ _
    · exact Nat.toDigits_ne_nil
  | float x =>
    obtain ⟨hc, hm⟩ := x.lexical_text
    refine hnumber ?_ hc
    change x.text ≠ []
    rcases hm with hm | hm <;> exact List.ne_nil_of_mem hm
  | string s => exact ⟨'"', _, rfl, rfl⟩
  | array items => exact ⟨'[', _, rfl, rfl⟩
  | object members => exact ⟨'\x7b', _, rfl, rfl⟩

/-- Texts that start alike are of values that do. -/
theorem lead_eq_of_chars_append_eq (h : a.chars ++ rest = b.chars ++ rest') :
    a.lead = b.lead := by
  obtain ⟨c, cs, hc, hl⟩ := exists_chars_eq a
  obtain ⟨d, ds, hd, hl'⟩ := exists_chars_eq b
  rw [hc, hd, List.cons_append, List.cons_append, List.cons.injEq] at h
  rw [hl, hl', h.1]

theorem eq_null_of_lead (h : a.lead = 'n') : a = .null := by
  cases a with
  | null => rfl
  | bool value => cases value <;> simp [lead] at h
  | _ => simp [lead] at h

theorem eq_bool_of_lead {value : Bool} (h : a.lead = lead (.bool value)) : a = .bool value := by
  cases a with
  | bool other => cases value <;> cases other <;> simp_all [lead]
  | _ => cases value <;> simp [lead] at h

theorem eq_string_of_lead (h : a.lead = '"') : ∃ s, a = .string s := by
  cases a with
  | string s => exact ⟨s, rfl⟩
  | bool value => cases value <;> simp [lead] at h
  | _ => simp [lead] at h

theorem eq_array_of_lead (h : a.lead = '[') : ∃ items, a = .array items := by
  cases a with
  | array items => exact ⟨items, rfl⟩
  | bool value => cases value <;> simp [lead] at h
  | _ => simp [lead] at h

theorem eq_object_of_lead (h : a.lead = '\x7b') : ∃ members, a = .object members := by
  cases a with
  | object members => exact ⟨members, rfl⟩
  | bool value => cases value <;> simp [lead] at h
  | _ => simp [lead] at h

theorem eq_int_or_float_of_lead (h : a.lead = '0') : (∃ n, a = .int n) ∨ ∃ x, a = .float x := by
  cases a with
  | int n => exact Or.inl ⟨n, rfl⟩
  | float x => exact Or.inr ⟨x, rfl⟩
  | bool value => cases value <;> simp [lead] at h
  | _ => simp [lead] at h

/-- The text of a double is no text of an integer. -/
private theorem intText_ne_text {n : Int} {x : Binary64} : intText n ≠ x.text := by
  intro h
  have hpoint : '.' ∉ intText n := fun hm => by simpa using isDigit_or_sign_of_mem_intText hm
  have hletter : 'e' ∉ intText n := fun hm => by simpa using isDigit_or_sign_of_mem_intText hm
  rw [h] at hpoint hletter
  exact x.lexical_text.2.elim hpoint hletter

/-- Numbers are told apart by their texts. -/
private theorem eq_of_number_append_eq (hl : a.lead = '0') (hl' : b.lead = '0')
    (hr : Ends rest) (hr' : Ends rest') (h : a.chars ++ rest = b.chars ++ rest') :
    a = b ∧ rest = rest' := by
  rcases eq_int_or_float_of_lead hl with ⟨m, rfl⟩ | ⟨x, rfl⟩ <;>
    rcases eq_int_or_float_of_lead hl' with ⟨n, rfl⟩ | ⟨y, rfl⟩
  · obtain ⟨he, hrest⟩ := eq_of_append_eq_of_ends (fun c hc => isNumberChar_of_mem_intText hc)
      (fun c hc => isNumberChar_of_mem_intText hc) hr hr' h
    exact ⟨congrArg int (eq_of_intText_eq he), hrest⟩
  · obtain ⟨he, -⟩ := eq_of_append_eq_of_ends (fun c hc => isNumberChar_of_mem_intText hc)
      y.lexical_text.1 hr hr' h
    exact absurd he intText_ne_text
  · obtain ⟨he, -⟩ := eq_of_append_eq_of_ends x.lexical_text.1
      (fun c hc => isNumberChar_of_mem_intText hc) hr hr' h
    exact absurd he.symm intText_ne_text
  · obtain ⟨he, hrest⟩ := eq_of_append_eq_of_ends x.lexical_text.1 y.lexical_text.1 hr hr' h
    exact ⟨congrArg float (Binary64.eq_of_text_eq he), hrest⟩

/-- What stands behind an item: further items, or the end of the array. -/
def itemsTail (items : List Json) (rest : List Char) : List Char :=
  if items.isEmpty then ']' :: rest else ',' :: charsItems items ++ ']' :: rest

/-- What stands behind a member: further members, or the end of the object. -/
def membersTail (members : List (String × Json)) (rest : List Char) : List Char :=
  if members.isEmpty then '\x7d' :: rest else ',' :: charsMembers members ++ '\x7d' :: rest

theorem charsItems_cons_append (item : Json) (items : List Json) (rest : List Char) :
    charsItems (item :: items) ++ ']' :: rest = item.chars ++ itemsTail items rest := by
  cases items <;> simp [charsItems, itemsTail]

theorem charsMembers_cons_append (key : String) (value : Json) (members : List (String × Json))
    (rest : List Char) :
    charsMembers ((key, value) :: members) ++ '\x7d' :: rest =
      quote key ++ ':' :: (value.chars ++ membersTail members rest) := by
  cases members <;> simp [charsMembers, membersTail]

theorem ends_itemsTail (items : List Json) (rest : List Char) : Ends (itemsTail items rest) := by
  cases items <;> simp [itemsTail, Ends, isNumberChar]

theorem ends_membersTail (members : List (String × Json)) (rest : List Char) :
    Ends (membersTail members rest) := by
  cases members <;> simp [membersTail, Ends, isNumberChar]

/-- A comma and a bracket tell whether there are further items. -/
theorem charsItems_append_of_itemsTail {as bs : List Json}
    (h : itemsTail as rest = itemsTail bs rest') :
    charsItems as ++ ']' :: rest = charsItems bs ++ ']' :: rest' := by
  cases as <;> cases bs <;> simp_all [itemsTail, charsItems]

/-- A comma and a brace tell whether there are further members. -/
theorem charsMembers_append_of_membersTail {as bs : List (String × Json)}
    (h : membersTail as rest = membersTail bs rest') :
    charsMembers as ++ '\x7d' :: rest = charsMembers bs ++ '\x7d' :: rest' := by
  cases as <;> cases bs <;> simp_all [membersTail, charsMembers]

/-- No value starts with a bracket that ends an array. -/
theorem chars_append_ne : a.chars ++ rest ≠ ']' :: rest' := by
  intro h
  obtain ⟨c, cs, hc, hl⟩ := exists_chars_eq a
  rw [hc, List.cons_append, List.cons.injEq] at h
  rw [h.1] at hl
  cases a with
  | bool value => cases value <;> revert hl <;> decide
  | _ => revert hl; simp [lead, isNumberChar]

end

mutual

/-- Values are told apart by their texts, whatever follows these. -/
theorem eq_of_chars_append_eq : ∀ (a b : Json) {rest rest' : List Char}, Ends rest → Ends rest' →
    a.chars ++ rest = b.chars ++ rest' → a = b ∧ rest = rest'
  -- both texts have the same lead, so both values are of the same kind
  | .null, b, rest, rest', _, _, h => by
    obtain rfl := eq_null_of_lead (lead_eq_of_chars_append_eq h).symm
    exact ⟨rfl, List.append_cancel_left h⟩
  | .bool value, b, rest, rest', _, _, h => by
    obtain rfl := eq_bool_of_lead (lead_eq_of_chars_append_eq h).symm
    exact ⟨rfl, List.append_cancel_left h⟩
  | .int n, b, rest, rest', hr, hr', h =>
    eq_of_number_append_eq rfl (lead_eq_of_chars_append_eq h).symm hr hr' h
  | .float x, b, rest, rest', hr, hr', h =>
    eq_of_number_append_eq rfl (lead_eq_of_chars_append_eq h).symm hr hr' h
  | .string s, b, rest, rest', _, _, h => by
    obtain ⟨t, rfl⟩ := eq_string_of_lead (lead_eq_of_chars_append_eq h).symm
    obtain ⟨rfl, hrest⟩ := eq_of_quote_append_eq h
    exact ⟨rfl, hrest⟩
  | .array as, b, rest, rest', _, _, h => by
    obtain ⟨bs, rfl⟩ := eq_array_of_lead (lead_eq_of_chars_append_eq h).symm
    simp only [chars, List.cons_append, List.append_assoc, List.nil_append, List.cons.injEq,
      true_and] at h
    obtain ⟨rfl, hrest⟩ := eq_of_charsItems_append_eq as bs h
    exact ⟨rfl, hrest⟩
  | .object as, b, rest, rest', _, _, h => by
    obtain ⟨bs, rfl⟩ := eq_object_of_lead (lead_eq_of_chars_append_eq h).symm
    simp only [chars, List.cons_append, List.append_assoc, List.nil_append, List.cons.injEq,
      true_and] at h
    obtain ⟨rfl, hrest⟩ := eq_of_charsMembers_append_eq as bs h
    exact ⟨rfl, hrest⟩

/-- Items are told apart by their texts and the bracket behind them. -/
theorem eq_of_charsItems_append_eq : ∀ (as bs : List Json) {rest rest' : List Char},
    charsItems as ++ ']' :: rest = charsItems bs ++ ']' :: rest' → as = bs ∧ rest = rest'
  | [], [], rest, rest', h => ⟨rfl, (List.cons.inj h).2⟩
  | [], b :: bs, rest, rest', h => by
    rw [charsItems_cons_append] at h
    exact absurd h.symm chars_append_ne
  | a :: as, [], rest, rest', h => by
    rw [charsItems_cons_append] at h
    exact absurd h chars_append_ne
  | a :: as, b :: bs, rest, rest', h => by
    rw [charsItems_cons_append, charsItems_cons_append] at h
    obtain ⟨rfl, ht⟩ := eq_of_chars_append_eq a b (ends_itemsTail _ _)
      (ends_itemsTail _ _) h
    obtain ⟨rfl, hrest⟩ := eq_of_charsItems_append_eq as bs
      (charsItems_append_of_itemsTail ht)
    exact ⟨rfl, hrest⟩

/-- Members are told apart by their texts and the brace behind them. -/
theorem eq_of_charsMembers_append_eq : ∀ (as bs : List (String × Json)) {rest rest' : List Char},
    charsMembers as ++ '\x7d' :: rest = charsMembers bs ++ '\x7d' :: rest' →
    as = bs ∧ rest = rest'
  | [], [], rest, rest', h => ⟨rfl, (List.cons.inj h).2⟩
  | [], (key, b) :: bs, rest, rest', h => by
    rw [charsMembers_cons_append] at h
    simp [charsMembers, quote] at h
  | (key, a) :: as, [], rest, rest', h => by
    rw [charsMembers_cons_append] at h
    simp [charsMembers, quote] at h
  | (key, a) :: as, (other, b) :: bs, rest, rest', h => by
    rw [charsMembers_cons_append, charsMembers_cons_append] at h
    obtain ⟨rfl, hv⟩ := eq_of_quote_append_eq h
    obtain ⟨rfl, ht⟩ := eq_of_chars_append_eq a b (ends_membersTail _ _)
      (ends_membersTail _ _) (List.cons.inj hv).2
    obtain ⟨rfl, hrest⟩ := eq_of_charsMembers_append_eq as bs
      (charsMembers_append_of_membersTail ht)
    exact ⟨rfl, hrest⟩

end

/-- The compact text of a value determines it. -/
theorem eq_of_compact_eq {a b : Json} (h : a.compact = b.compact) : a = b := by
  have hc : a.chars ++ [] = b.chars ++ [] := by
    rw [List.append_nil, List.append_nil]
    exact String.ofList_injective h
  have hend : Ends [] := by simp [Ends]
  exact (eq_of_chars_append_eq a b hend hend hc).1

end AvroSchema.Json
