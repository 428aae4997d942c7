import Mathlib.Algebra.Order.Field.Basic
import Mathlib.Data.List.TakeWhile
import Mathlib.Tactic.NormNum
import Mathlib.Tactic.Ring
import AvroSchema.Json.Shortest

/-!
# Texts of Decimals

A text in positional or scientific notation stands for a rational number. For the text of a decimal
it is the number of that decimal, so the text determines the number.

* `Decimal.exists_positional_eq`, `Decimal.exists_scientific_eq`: the parts of the two notations.
* `Decimal.textValue_text`: a decimal can be read off its text.
* `Decimal.exists_text_eq`, `Decimal.isNumberChar_of_mem_text`: what such a text looks like.
-/

namespace AvroSchema

namespace Decimal

/-- The number that a decimal stands for. -/
def value (d : Decimal) : ℚ :=
  Nat.ofDigitChars 10 d.digits 0 * 10 ^ (d.point - d.digits.length)

/-- The number that digits with a point between them stand for. -/
def positionalValue (cs : List Char) : ℚ :=
  let whole := cs.takeWhile (· != '.')
  let fraction := (cs.dropWhile (· != '.')).drop 1
  Nat.ofDigitChars 10 (whole ++ fraction) 0 / 10 ^ fraction.length

/-- The number that the text of an exponent stands for. -/
def exponentValue : List Char → ℤ
  | '-' :: digits => -Nat.ofDigitChars 10 digits 0
  | '+' :: digits => Nat.ofDigitChars 10 digits 0
  | _ => 0

/-- The number that a text in positional or scientific notation stands for. -/
def textValue (cs : List Char) : ℚ :=
  positionalValue (cs.takeWhile (· != 'e')) *
    10 ^ exponentValue ((cs.dropWhile (· != 'e')).drop 1)

section

variable {mark : Char} {before after : List Char}

private theorem takeWhile_of_notMem (h : mark ∉ before) :
    before.takeWhile (· != mark) = before := by
  rw [List.takeWhile_eq_self_iff]
  intro c hc
  simpa using fun he : c = mark => h (he ▸ hc)

private theorem dropWhile_of_notMem (h : mark ∉ before) : before.dropWhile (· != mark) = [] := by
  rw [List.dropWhile_eq_nil_iff]
  intro c hc
  simpa using fun he : c = mark => h (he ▸ hc)

private theorem takeWhile_append_mark (h : mark ∉ before) :
    (before ++ mark :: after).takeWhile (· != mark) = before := by
  rw [List.takeWhile_append_of_pos, List.takeWhile_cons_of_neg (by simp), List.append_nil]
  intro c hc
  simpa using fun he : c = mark => h (he ▸ hc)

private theorem dropWhile_append_mark (h : mark ∉ before) :
    (before ++ mark :: after).dropWhile (· != mark) = mark :: after := by
  rw [List.dropWhile_append_of_pos, List.dropWhile_cons_of_neg (by simp)]
  intro c hc
  simpa using fun he : c = mark => h (he ▸ hc)

end

theorem positionalValue_of_notMem {cs : List Char} (h : '.' ∉ cs) :
    positionalValue cs = Nat.ofDigitChars 10 cs 0 := by
  simp [positionalValue, takeWhile_of_notMem h, dropWhile_of_notMem h]

theorem positionalValue_append {whole fraction : List Char} (h : '.' ∉ whole) :
    positionalValue (whole ++ '.' :: fraction) =
      Nat.ofDigitChars 10 (whole ++ fraction) 0 / 10 ^ fraction.length := by
  simp [positionalValue, takeWhile_append_mark h, dropWhile_append_mark h]

theorem textValue_of_notMem {cs : List Char} (h : 'e' ∉ cs) :
    textValue cs = positionalValue cs := by
  simp [textValue, takeWhile_of_notMem h, dropWhile_of_notMem h, exponentValue]

theorem textValue_append {mantissa exponent : List Char} (h : 'e' ∉ mantissa) :
    textValue (mantissa ++ 'e' :: exponent) =
      positionalValue mantissa * 10 ^ exponentValue exponent := by
  simp [textValue, takeWhile_append_mark h, dropWhile_append_mark h]

private theorem ofDigitChars_replicate_append (z : Nat) (ds : List Char) :
    Nat.ofDigitChars 10 (List.replicate z '0' ++ ds) 0 = Nat.ofDigitChars 10 ds 0 := by
  rw [Nat.ofDigitChars_append, Nat.ofDigitChars_replicate_zero, Nat.mul_zero]

theorem ofDigitChars_append_replicate (ds : List Char) (z : Nat) :
    Nat.ofDigitChars 10 (ds ++ List.replicate z '0') 0 = 10 ^ z * Nat.ofDigitChars 10 ds 0 := by
  rw [Nat.ofDigitChars_append, Nat.ofDigitChars_replicate_zero]

/-- A digit is neither the point nor the letter of the exponent. -/
private theorem notMem_of_isDigit {ds : List Char} {c : Char} (h : ∀ d ∈ ds, d.isDigit = true)
    (hc : c.isDigit = false) : c ∉ ds := by
  intro hm
  rw [h c hm] at hc
  cases hc

/-- Positional notation has a point among the digits of the decimal, which zeros may extend on both
sides so that the point has its place. -/
theorem exists_positional_eq (d : Decimal) :
    ∃ whole fraction left right, d.positional = whole ++ '.' :: fraction ∧ whole ≠ [] ∧
      whole ++ fraction = List.replicate left '0' ++ d.digits ++ List.replicate right '0' ∧
      d.point - d.digits.length = right - fraction.length := by
  obtain ⟨digits, point⟩ := d
  match point with
  | .negSucc k =>
    -- zeros stand between the point and the digits
    refine ⟨['0'], List.replicate (k + 1) '0' ++ digits, k + 2, 0, by simp [positional], by simp,
      by simp [List.replicate_succ], ?_⟩
    rw [Int.negSucc_eq, List.length_append, List.length_replicate]
    push_cast
    ring
  | .ofNat 0 => exact ⟨['0'], digits, 1, 0, rfl, by simp, by simp, by simp⟩
  | .ofNat (k + 1) =>
    by_cases hk : digits.length ≤ k + 1
    · -- zeros fill up the places before the point
      obtain ⟨z, hz⟩ := Nat.exists_eq_add_of_le hk
      refine ⟨digits ++ List.replicate z '0', ['0'], 0, z + 1, ?_, ?_, ?_, ?_⟩
      · refine (if_pos hk).trans ?_
        rw [hz, Nat.add_sub_cancel_left, List.append_cancel_right_eq]
      · rw [← List.length_pos_iff, List.length_append, List.length_replicate, ← hz]
        exact Nat.succ_pos k
      · simp [List.replicate_succ']
      · rw [hz, Int.ofNat_eq_natCast, List.length_singleton]
        push_cast
        ring
    · refine ⟨digits.take (k + 1), digits.drop (k + 1), 0, 0, ?_, ?_, by simp, ?_⟩
      · refine (if_neg hk).trans ?_
        rw [List.append_assoc, List.singleton_append]
      · rw [← List.length_pos_iff, List.length_take]
        omega
      · rw [List.length_drop]
        change ((k + 1 : ℕ) : ℤ) - digits.length = (0 : ℕ) - ((digits.length - (k + 1) : ℕ) : ℤ)
        omega

section

variable {d : Decimal} (h : ∀ c ∈ d.digits, c.isDigit = true)
include h

private theorem isDigit_of_mem_extended {text : List Char} {left right : Nat}
    (ht : text = List.replicate left '0' ++ d.digits ++ List.replicate right '0') :
    ∀ c ∈ text, c.isDigit = true := by
  intro c hc
  have hzero : ∀ {n}, c ∈ List.replicate n '0' → c.isDigit = true := by
    intro n hm
    rw [List.eq_of_mem_replicate hm]
    decide
  rw [ht] at hc
  rcases List.mem_append.1 hc with hc | hc
  · exact (List.mem_append.1 hc).elim hzero (h c)
  · exact hzero hc

/-- Positional notation has digits and the point. -/
theorem isDigit_of_mem_positional {c : Char} (hc : c ∈ d.positional) (hp : c ≠ '.') :
    c.isDigit = true := by
  obtain ⟨whole, fraction, left, right, he, -, hdigits, -⟩ := exists_positional_eq d
  rw [he, List.mem_append, List.mem_cons] at hc
  refine isDigit_of_mem_extended h hdigits c (List.mem_append.2 ?_)
  exact hc.imp_right fun hf => hf.resolve_left hp

/-- A decimal in positional notation stands for itself. -/
theorem positionalValue_positional : positionalValue d.positional = d.value := by
  obtain ⟨whole, fraction, left, right, he, -, hdigits, hpoint⟩ := exists_positional_eq d
  have hwhole : '.' ∉ whole := fun hm =>
    notMem_of_isDigit (isDigit_of_mem_extended h hdigits) (by decide)
      (List.mem_append_left fraction hm)
  rw [he, positionalValue_append hwhole, hdigits, ofDigitChars_append_replicate,
    ofDigitChars_replicate_append, value, hpoint, zpow_sub₀ (by norm_num), zpow_natCast,
    zpow_natCast]
  push_cast
  ring

/-- A text in positional notation starts with a digit and has the point. -/
theorem exists_positional_eq_cons :
    ∃ c rest, d.positional = c :: rest ∧ c.isDigit = true ∧ '.' ∈ rest := by
  obtain ⟨whole, fraction, left, right, he, hne, hdigits, -⟩ := exists_positional_eq d
  obtain ⟨c, rest, rfl⟩ := List.exists_cons_of_ne_nil hne
  exact ⟨c, rest ++ '.' :: fraction, he, isDigit_of_mem_extended h hdigits c List.mem_cons_self,
    List.mem_append_right rest List.mem_cons_self⟩

end

private theorem exponentValue_signed (exponent : ℤ) :
    exponentValue ((if exponent < 0 then '-' else '+') :: Nat.toDigits 10 exponent.natAbs) =
      exponent := by
  split
  · rw [exponentValue, Nat.ofDigitChars_ten_toDigits]
    omega
  · rw [exponentValue, Nat.ofDigitChars_ten_toDigits]
    omega

/-- The characters that texts of numbers consist of. -/
def isNumberChar (c : Char) : Bool := c.isDigit || ['-', '+', '.', 'e'].contains c

theorem isNumberChar_of_isDigit {c : Char} (h : c.isDigit = true) : isNumberChar c = true := by
  simp [isNumberChar, h]

section

variable {d : Decimal} (h : ∀ c ∈ d.digits, c.isDigit = true)
include h

/-- Scientific notation has an exponent behind a number in positional notation, in which at most
the first digit stands before the point. -/
theorem exists_scientific_eq :
    ∃ c rest, d.scientific = (c :: rest) ++ 'e' :: (if d.point - 1 < 0 then '-' else '+') ::
        Nat.toDigits 10 (d.point - 1).natAbs ∧
      c.isDigit = true ∧ (∀ b ∈ rest, b ≠ '.' → b.isDigit = true) ∧
      positionalValue (c :: rest) * 10 ^ (d.point - 1) = d.value := by
  have hpoint : '.' ∉ d.digits := notMem_of_isDigit h (by decide)
  obtain ⟨digits, point⟩ := d
  match digits with
  | [] =>
    refine ⟨'0', [], rfl, by decide, by simp, ?_⟩
    rw [positionalValue_of_notMem (by decide), value, Nat.ofDigitChars_nil]
    norm_num [Nat.ofDigitChars_cons]
  -- a single digit stands without a point
  | [c] =>
    refine ⟨c, [], rfl, h c List.mem_cons_self, by simp, ?_⟩
    rw [positionalValue_of_notMem hpoint, value]
    rfl
  | c :: next :: rest =>
    have hfirst : '.' ∉ [c] := fun hm => hpoint (List.mem_singleton.1 hm ▸ List.mem_cons_self)
    have hmantissa : c :: '.' :: next :: rest = [c] ++ '.' :: next :: rest := rfl
    refine ⟨c, '.' :: next :: rest, by simp [scientific], h c List.mem_cons_self, ?_, ?_⟩
    · intro b hb hne
      exact h b (List.mem_cons_of_mem c ((List.mem_cons.1 hb).resolve_left hne))
    · rw [hmantissa, positionalValue_append hfirst, value, div_eq_mul_inv, mul_assoc,
        ← zpow_natCast, ← zpow_neg, ← zpow_add₀ (by norm_num)]
      congr 2
      simp only [List.length_cons]
      push_cast
      ring

/-- A decimal in scientific notation stands for itself. -/
theorem textValue_scientific : textValue d.scientific = d.value := by
  obtain ⟨c, rest, he, hc, hrest, hv⟩ := exists_scientific_eq h
  have hletter : 'e' ∉ c :: rest := by
    intro hm
    rcases List.mem_cons.1 hm with rfl | hm
    · revert hc
      decide
    · have hd := hrest 'e' hm (by decide)
      revert hd
      decide
  rw [he, textValue_append hletter, exponentValue_signed, hv]

/-- A text in scientific notation starts with a digit and has the letter of the exponent. -/
theorem exists_scientific_eq_cons :
    ∃ c rest, d.scientific = c :: rest ∧ c.isDigit = true ∧ 'e' ∈ rest := by
  obtain ⟨c, rest, he, hc, -⟩ := exists_scientific_eq h
  exact ⟨c, _, he, hc, List.mem_append_right rest List.mem_cons_self⟩

theorem isNumberChar_of_mem_scientific {c : Char} (hc : c ∈ d.scientific) :
    isNumberChar c = true := by
  obtain ⟨first, rest, he, hfirst, hrest, -⟩ := exists_scientific_eq h
  rw [he, List.mem_append, List.mem_cons, List.mem_cons, List.mem_cons] at hc
  rcases hc with (rfl | hc) | rfl | rfl | hc
  · exact isNumberChar_of_isDigit hfirst
  · by_cases hp : c = '.'
    · rw [hp]
      decide
    · exact isNumberChar_of_isDigit (hrest c hc hp)
  · decide
  · split <;> decide
  · exact isNumberChar_of_isDigit (Nat.isDigit_of_mem_toDigits (by decide) (by decide) hc)

end

/-- The text of a decimal starts with a digit and is no text of an integer. -/
theorem exists_text_eq {d : Decimal} (h : ∀ c ∈ d.digits, c.isDigit = true) :
    ∃ c rest, d.text = c :: rest ∧ c.isDigit = true ∧ ('.' ∈ rest ∨ 'e' ∈ rest) := by
  unfold text
  split
  · obtain ⟨c, rest, he, hc, hm⟩ := exists_positional_eq_cons h
    exact ⟨c, rest, he, hc, Or.inl hm⟩
  · obtain ⟨c, rest, he, hc, hm⟩ := exists_scientific_eq_cons h
    exact ⟨c, rest, he, hc, Or.inr hm⟩

theorem isNumberChar_of_mem_text {d : Decimal} (h : ∀ c ∈ d.digits, c.isDigit = true) {c : Char}
    (hc : c ∈ d.text) : isNumberChar c = true := by
  unfold text at hc
  split at hc
  · by_cases hp : c = '.'
    · rw [hp]
      decide
    · exact isNumberChar_of_isDigit (isDigit_of_mem_positional h hc hp)
  · exact isNumberChar_of_mem_scientific h hc

/-- The number that a decimal stands for can be read off its text. -/
theorem textValue_text {d : Decimal} (h : ∀ c ∈ d.digits, c.isDigit = true) :
    textValue d.text = d.value := by
  unfold text
  split
  · have hletter : 'e' ∉ d.positional := fun hm => by
      have hd := isDigit_of_mem_positional h hm (by decide)
      revert hd
      decide
    rw [textValue_of_notMem hletter, positionalValue_positional h]
  · exact textValue_scientific h

end Decimal

end AvroSchema
