import Mathlib.Tactic.Linarith
import Mathlib.Tactic.Positivity
import AvroSchema.Proofs.Json.DecimalText

/-!
# Texts of Doubles

No two doubles have one text. The shortest decimal of a double lies in the interval of the numbers
that round to it, because the step between decimals of seventeen digits is smaller than any such
interval; and the intervals of two doubles do not meet.

* `Magnitude.Covers.eq`: no number rounds to two magnitudes.
* `Magnitude.covers_shortest`: the shortest decimal rounds to the magnitude.
* `Binary64.eq_of_text_eq`: the text of a double determines it.
-/

namespace AvroSchema

/-! ## Numbers that round to a magnitude -/

namespace Magnitude

/-- The digits of a number are those of its decimal, followed by zeros. -/
private theorem toDigits_eq_decimalOf (n : Nat) (exponent : ℤ) :
    ∃ z, Nat.toDigits 10 n = (decimalOf n exponent).digits ++ List.replicate z '0' := by
  have hsplit : Nat.toDigits 10 n = (decimalOf n exponent).digits ++
      ((Nat.toDigits 10 n).reverse.takeWhile (· == '0')).reverse := by
    rw [decimalOf, ← List.reverse_append, List.takeWhile_append_dropWhile, List.reverse_reverse]
  refine ⟨((Nat.toDigits 10 n).reverse.takeWhile (· == '0')).length, hsplit.trans ?_⟩
  congr 1
  rw [List.eq_replicate_iff, List.length_reverse]
  refine ⟨rfl, fun c hc => ?_⟩
  simpa using List.mem_takeWhile_imp (List.mem_reverse.1 hc)

/-- Leaving the trailing zeros out does not change the number. -/
theorem value_decimalOf (n : Nat) (exponent : ℤ) :
    (decimalOf n exponent).value = n * 10 ^ exponent := by
  obtain ⟨z, hz⟩ := toDigits_eq_decimalOf n exponent
  have hn : n = 10 ^ z * Nat.ofDigitChars 10 (decimalOf n exponent).digits 0 := by
    rw [← Decimal.ofDigitChars_append_replicate, ← hz, Nat.ofDigitChars_ten_toDigits]
  have hpoint : (decimalOf n exponent).point - (decimalOf n exponent).digits.length =
      z + exponent := by
    have hl := congrArg List.length hz
    rw [List.length_append, List.length_replicate] at hl
    change exponent + ((Nat.toDigits 10 n).length : ℤ) - _ = _
    omega
  rw [Decimal.value, hpoint, zpow_add₀ (by norm_num), zpow_natCast]
  conv_rhs => rw [hn]
  push_cast
  ring

theorem isDigit_of_mem_decimalOf {n : Nat} {exponent : ℤ} {c : Char}
    (h : c ∈ (decimalOf n exponent).digits) : c.isDigit = true := by
  obtain ⟨z, hz⟩ := toDigits_eq_decimalOf n exponent
  refine Nat.isDigit_of_mem_toDigits (b := 10) (n := n) (by decide) (by decide) ?_
  rw [hz]
  exact List.mem_append_left _ h

/-- The distance from a magnitude to the lower end of its interval, in quarters of a unit in the
last place. -/
def below (m : Magnitude) : Nat := if m.significand = 2 ^ 52 ∧ 0 < m.scale then 1 else 2

/-- The numbers that round to a magnitude, in quarters of a unit in the last place. The ends of the
interval belong to it if the significand is even. -/
structure Covers (m : Magnitude) (x : ℚ) : Prop where
  /-- The lower end. -/
  low : ((4 * m.significand - m.below : ℕ) : ℚ) * 2 ^ m.scale ≤ 4 * one * x
  /-- The upper end. -/
  high : 4 * one * x ≤ ((4 * m.significand + 2 : ℕ) : ℚ) * 2 ^ m.scale
  /-- The ends of the interval of an odd significand do not belong to it. -/
  inner : m.significand % 2 = 1 →
    ((4 * m.significand - m.below : ℕ) : ℚ) * 2 ^ m.scale < 4 * one * x ∧
      4 * one * x < ((4 * m.significand + 2 : ℕ) : ℚ) * 2 ^ m.scale

section

variable {m m' : Magnitude} {x : ℚ}

theorem below_le (m : Magnitude) : m.below ≤ 2 := by
  unfold below
  split <;> omega

/-- Two intervals do not meet if one ends where the other begins, and even before that if both have
their ends. -/
private theorem not_covers_both (h : m.Covers x) (h' : m'.Covers x)
    (hle : (4 * m.significand + 2) * 2 ^ m.scale ≤
      (4 * m'.significand - m'.below) * 2 ^ m'.scale)
    (hlt : m.significand % 2 = 0 → m'.significand % 2 = 0 →
      (4 * m.significand + 2) * 2 ^ m.scale < (4 * m'.significand - m'.below) * 2 ^ m'.scale) :
    False := by
  have hq : ((4 * m.significand + 2 : ℕ) : ℚ) * 2 ^ m.scale ≤
      ((4 * m'.significand - m'.below : ℕ) : ℚ) * 2 ^ m'.scale := by exact_mod_cast hle
  rcases Nat.mod_two_eq_zero_or_one m.significand with he | ho
  · rcases Nat.mod_two_eq_zero_or_one m'.significand with he' | ho'
    · have hs : ((4 * m.significand + 2 : ℕ) : ℚ) * 2 ^ m.scale <
          ((4 * m'.significand - m'.below : ℕ) : ℚ) * 2 ^ m'.scale := by
        exact_mod_cast hlt he he'
      exact absurd hs (not_lt.2 (h'.low.trans h.high))
    · exact absurd ((h'.inner ho').1.trans_le h.high) (not_lt.2 hq)
  · exact absurd (h'.low.trans_lt (h.inner ho).2) (not_lt.2 hq)

/-- No number rounds to a magnitude and to a larger one of the same scale. -/
private theorem not_covers_same {s t scale : Nat} (hlt : s < t) (hs : Covers ⟨s, scale⟩ x)
    (ht : Covers ⟨t, scale⟩ x) : False := by
  have hb := below_le ⟨t, scale⟩
  have hpos : 0 < 2 ^ scale := Nat.two_pow_pos scale
  refine not_covers_both hs ht (Nat.mul_le_mul_right _ (by dsimp only; omega)) fun he he' => ?_
  exact Nat.mul_lt_mul_of_pos_right (by dsimp only at he he' ⊢; omega) hpos

/-- No number rounds to a magnitude and to one of a larger scale. -/
private theorem not_covers_larger (hm : m.IsRounded) (hm' : m'.IsRounded)
    (hlt : m.scale < m'.scale) (h : m.Covers x) (h' : m'.Covers x) : False := by
  obtain ⟨d, hd⟩ := Nat.exists_eq_add_of_lt hlt
  have hpow : 2 ^ m'.scale = 2 * 2 ^ d * 2 ^ m.scale := by
    rw [hd]
    ring
  have hd : 0 < 2 ^ d := Nat.two_pow_pos d
  have hpos : 0 < 2 ^ m.scale := Nat.two_pow_pos _
  -- the larger magnitude has its leading bit, so that its interval begins where the others end
  have hlead := hm'.2.resolve_right (by omega)
  have hbits := hm.1
  have hends : 4 * m.significand + 2 ≤ (4 * m'.significand - m'.below) * 2 ∧
      (m.significand % 2 = 0 → 4 * m.significand + 2 < (4 * m'.significand - m'.below) * 2) := by
    unfold below
    split <;> omega
  have hgrow : (4 * m'.significand - m'.below) * 2 ≤
      (4 * m'.significand - m'.below) * (2 * 2 ^ d) :=
    Nat.mul_le_mul_left _ (by omega)
  refine not_covers_both h h' ?_ fun he _ => ?_
  · rw [hpow, ← Nat.mul_assoc]
    exact Nat.mul_le_mul_right _ (hends.1.trans hgrow)
  · rw [hpow, ← Nat.mul_assoc]
    exact Nat.mul_lt_mul_of_pos_right ((hends.2 he).trans_le hgrow) hpos

end

/-- Only positive numbers round to a positive magnitude. -/
theorem Covers.pos {m : Magnitude} {x : ℚ} (h : m.Covers x) (hs : m.significand ≠ 0) : 0 < x := by
  have hb := m.below_le
  have hends : 0 < (4 * m.significand - m.below) * 2 ^ m.scale :=
    Nat.mul_pos (by omega) (Nat.two_pow_pos _)
  have hlow : (0 : ℚ) < 4 * one * x := lt_of_lt_of_le (by exact_mod_cast hends) h.low
  exact pos_of_mul_pos_right hlow (mul_nonneg (by norm_num) (Nat.cast_nonneg _))

/-- No number rounds to two magnitudes. -/
theorem Covers.eq {m m' : Magnitude} {x : ℚ} (hm : m.IsRounded) (hm' : m'.IsRounded)
    (h : m.Covers x) (h' : m'.Covers x) : m = m' := by
  rcases Nat.lt_trichotomy m.scale m'.scale with hc | hc | hc
  · exact (not_covers_larger hm hm' hc h h').elim
  · obtain ⟨s, scale⟩ := m
    obtain ⟨t, scale'⟩ := m'
    obtain rfl : scale = scale' := hc
    rcases Nat.lt_trichotomy s t with hs | hs | hs
    · exact (not_covers_same hs h h').elim
    · rw [hs]
    · exact (not_covers_same hs h' h).elim
  · exact (not_covers_larger hm' hm hc h' h).elim

/-! ## Shortest decimals -/

/-- A power of ten as a fraction of natural numbers: what is put above. -/
def tenAbove : ℤ → Nat
  | .ofNat k => Nat.pow 10 k
  | .negSucc _ => 1

/-- A power of ten as a fraction of natural numbers: what is put below. -/
def tenBelow : ℤ → Nat
  | .ofNat _ => 1
  | .negSucc k => Nat.pow 10 (k + 1)

theorem tenBelow_pos (exponent : ℤ) : 0 < tenBelow exponent := by
  cases exponent with
  | ofNat k => exact Nat.one_pos
  | negSucc k => exact Nat.pow_pos (by decide)

theorem tenAbove_eq (exponent : ℤ) :
    (tenAbove exponent : ℚ) = 10 ^ exponent * tenBelow exponent := by
  cases exponent with
  | ofNat k => simp [tenAbove, tenBelow]
  | negSucc k => simp [tenAbove, tenBelow, zpow_negSucc]

/-- A number of quarters of a unit in the last place, over the denominator of a power of ten. -/
def quarters (m : Magnitude) (exponent : ℤ) (n : Nat) : Nat :=
  n * (1 <<< m.scale) * tenBelow exponent

/-- A step of the grid of multiples of a power of ten, over the same denominator. -/
def gridStep (exponent : ℤ) : Nat := tenAbove exponent * (4 * one)

/-- Whether a multiple of a power of ten rounds to a magnitude. -/
def onGrid (m : Magnitude) (exponent : ℤ) (n : Nat) : Bool :=
  let low := m.quarters exponent (4 * m.significand - m.below)
  let high := m.quarters exponent (4 * m.significand + 2)
  if m.significand % 2 = 0 then
    low ≤ n * gridStep exponent && n * gridStep exponent ≤ high
  else low < n * gridStep exponent && n * gridStep exponent < high

section

variable {m : Magnitude} {exponent : ℤ} {n : Nat}

theorem gridStep_pos (exponent : ℤ) : 0 < gridStep exponent := by
  refine Nat.mul_pos ?_ (by decide)
  cases exponent with
  | ofNat k => exact Nat.pow_pos (by decide)
  | negSucc k => exact Nat.one_pos

theorem quarters_add (m : Magnitude) (exponent : ℤ) (a b : Nat) :
    m.quarters exponent (a + b) = m.quarters exponent a + m.quarters exponent b := by
  rw [quarters, quarters, quarters, Nat.add_mul, Nat.add_mul]

theorem quarters_pos (hn : 0 < n) : 0 < m.quarters exponent n := by
  refine Nat.mul_pos (Nat.mul_pos hn ?_) (tenBelow_pos exponent)
  rw [Nat.one_shiftLeft]
  exact Nat.two_pow_pos _

/-- Quarters and multiples of a power of ten are compared as fractions. -/
private theorem cast_quarters (m : Magnitude) (exponent : ℤ) (n : Nat) :
    (m.quarters exponent n : ℚ) = n * 2 ^ m.scale * tenBelow exponent := by
  rw [quarters, Nat.one_shiftLeft]
  push_cast
  rfl

private theorem cast_gridStep (exponent : ℤ) (n : Nat) :
    ((n * gridStep exponent : ℕ) : ℚ) = 4 * one * (n * 10 ^ exponent) * tenBelow exponent := by
  rw [gridStep]
  push_cast [tenAbove_eq]
  ring

theorem quarters_le_iff {a : Nat} :
    m.quarters exponent a ≤ n * gridStep exponent ↔
      (a : ℚ) * 2 ^ m.scale ≤ 4 * one * (n * 10 ^ exponent) := by
  have hpos : (0 : ℚ) < tenBelow exponent := by exact_mod_cast tenBelow_pos exponent
  rw [← Nat.cast_le (α := ℚ), cast_quarters, cast_gridStep, mul_le_mul_iff_of_pos_right hpos]

theorem le_quarters_iff {a : Nat} :
    n * gridStep exponent ≤ m.quarters exponent a ↔
      4 * one * (n * 10 ^ exponent) ≤ (a : ℚ) * 2 ^ m.scale := by
  have hpos : (0 : ℚ) < tenBelow exponent := by exact_mod_cast tenBelow_pos exponent
  rw [← Nat.cast_le (α := ℚ), cast_quarters, cast_gridStep, mul_le_mul_iff_of_pos_right hpos]

theorem onGrid_iff : m.onGrid exponent n = true ↔ m.Covers (n * 10 ^ exponent) := by
  simp only [onGrid]
  split
  · next he =>
    rw [Bool.and_eq_true, decide_eq_true_iff, decide_eq_true_iff, quarters_le_iff, le_quarters_iff]
    exact ⟨fun h => ⟨h.1, h.2, fun ho => by omega⟩, fun h => ⟨h.low, h.high⟩⟩
  · next he =>
    rw [Bool.and_eq_true, decide_eq_true_iff, decide_eq_true_iff, ← Nat.not_le, ← Nat.not_le,
      quarters_le_iff, le_quarters_iff, not_le, not_le]
    exact ⟨fun h => ⟨h.1.le, h.2.le, fun _ => h⟩, fun h => h.inner (by omega)⟩

/-- What is found on a grid is one of the two neighbours of the magnitude that round to it. -/
theorem onGrid?_eq (m : Magnitude) (exponent : ℤ) :
    m.onGrid? exponent =
      let step := gridStep exponent
      let value := m.quarters exponent (4 * m.significand)
      match m.onGrid exponent (value / step), m.onGrid exponent (value / step + 1) with
      | true, true =>
        let down := value - value / step * step
        let rise := (value / step + 1) * step - value
        if down < rise then some (value / step)
        else if rise < down then some (value / step + 1)
        else if value / step % 2 = 0 then some (value / step) else some (value / step + 1)
      | true, false => some (value / step)
      | false, true => some (value / step + 1)
      | false, false => none := by
  cases exponent <;> rfl

/-- What is found on a grid rounds to the magnitude. -/
theorem covers_of_onGrid? (h : m.onGrid? exponent = some n) : m.Covers (n * 10 ^ exponent) := by
  rw [← onGrid_iff]
  rw [onGrid?_eq] at h
  dsimp only at h
  split at h
  · split at h
    · cases h
      assumption
    · split at h
      · cases h
        assumption
      · split at h <;> cases h <;> assumption
  · cases h
    assumption
  · cases h
    assumption
  · cases h

/-- What lies strictly between the ends rounds to the magnitude. -/
private theorem onGrid_of_lt
    (hlow : m.quarters exponent (4 * m.significand - m.below) < n * gridStep exponent)
    (hhigh : n * gridStep exponent < m.quarters exponent (4 * m.significand + 2)) :
    m.onGrid exponent n = true := by
  simp only [onGrid]
  split
  · simp only [Bool.and_eq_true, decide_eq_true_iff]
    exact ⟨hlow.le, hhigh.le⟩
  · simp only [Bool.and_eq_true, decide_eq_true_iff]
    exact ⟨hlow, hhigh⟩

/-- Of two multiples around a value, one is between two ends around the value that are more than a
step apart. -/
private theorem multiple_between {low value high step : Nat} (hl : low ≤ value)
    (hh : value < high) (hs : 0 < step) (hw : low + step < high) :
    (low < value / step * step ∧ value / step * step < high) ∨
      (low < (value / step + 1) * step ∧ (value / step + 1) * step < high) := by
  have hfloor := Nat.div_mul_le_self value step
  have hnext : value < (value / step + 1) * step := by
    rw [Nat.mul_comm]
    exact Nat.lt_mul_div_succ value hs
  rw [Nat.add_mul, Nat.one_mul] at hnext ⊢
  omega

/-- A neighbour of the magnitude rounds to it if the steps of the grid are smaller than the interval
of the magnitude. -/
theorem isSome_onGrid? (hs : 0 < m.significand)
    (h : gridStep exponent < m.quarters exponent (m.below + 2)) :
    (m.onGrid? exponent).isSome = true := by
  have hb := m.below_le
  have hlow : m.quarters exponent (4 * m.significand) =
      m.quarters exponent (4 * m.significand - m.below) + m.quarters exponent m.below := by
    rw [← quarters_add]
    congr 1
    omega
  have hhigh := quarters_add m exponent (4 * m.significand) 2
  have hwidth := quarters_add m exponent m.below 2
  have hpos : 0 < m.quarters exponent 2 := quarters_pos (by decide)
  -- the interval reaches at least one step of the grid beyond the magnitude on one side
  have hgrid : m.onGrid exponent (m.quarters exponent (4 * m.significand) / gridStep exponent) ∨
      m.onGrid exponent (m.quarters exponent (4 * m.significand) / gridStep exponent + 1) := by
    refine (multiple_between ?_ ?_ (gridStep_pos exponent) ?_).imp
      (fun hn => onGrid_of_lt hn.1 hn.2) (fun hn => onGrid_of_lt hn.1 hn.2)
    · omega
    · omega
    · omega
  -- whichever neighbours lie inside, one is taken
  rw [onGrid?_eq]
  dsimp only
  split
  · split
    · rfl
    · split
      · rfl
      · split <;> rfl
  · rfl
  · rfl
  · next h1 h2 =>
    rw [h1, h2] at hgrid
    rcases hgrid with hn | hn <;> cases hn

/-- A number of `k` digits is at least the power of ten with `k - 1` zeros. -/
private theorem ten_pow_le {n : Nat} (hn : 0 < n) : 10 ^ ((Nat.toDigits 10 n).length - 1) ≤ n := by
  rcases Nat.eq_zero_or_pos ((Nat.toDigits 10 n).length - 1) with h | h
  · rw [h]
    exact hn
  · by_contra hlt
    have hle := (Nat.length_toDigits_le_iff (by decide) h).2 (Nat.lt_of_not_le hlt)
    omega

/-- The decimal point is not placed too far to the right. -/
theorem ten_zpow_decimalPoint_le {num den : Nat} (hn : 0 < num) (hd : 0 < den) :
    (den : ℚ) * 10 ^ (decimalPoint num den - 1) ≤ num := by
  unfold decimalPoint
  -- the digits of the quotient are counted, or those of its inverse if it is below one
  split
  · next h =>
    have hq : 0 < num / den := Nat.div_pos h hd
    have hlen : ((Nat.toDigits 10 (num / den)).length : ℤ) - 1 =
        (((Nat.toDigits 10 (num / den)).length - 1 : ℕ) : ℤ) := by
      have := Nat.length_toDigits_pos (b := 10) (n := num / den)
      omega
    rw [hlen, zpow_natCast]
    exact_mod_cast (Nat.mul_le_mul_left den (ten_pow_le hq)).trans (Nat.mul_div_le num den)
  · next h =>
    have hlt : den / num < 10 ^ (Nat.toDigits 10 (den / num)).length :=
      (Nat.length_toDigits_le_iff (by decide) Nat.length_toDigits_pos).1 (Nat.le_refl _)
    have hden : den < 10 ^ (Nat.toDigits 10 (den / num)).length * num :=
      (Nat.div_lt_iff_lt_mul hn).1 hlt
    have hexp : 1 - ((Nat.toDigits 10 (den / num)).length : ℤ) - 1 =
        -((Nat.toDigits 10 (den / num)).length : ℤ) := by omega
    have hpos : (0 : ℚ) < 10 ^ (Nat.toDigits 10 (den / num)).length := by positivity
    rw [hexp, zpow_neg, zpow_natCast, ← div_eq_mul_inv, div_le_iff₀ hpos, mul_comm]
    exact_mod_cast hden.le

/-- Seventeen digits suffice: their step is smaller than the interval of any rounded magnitude. -/
theorem gridStep_lt (hr : m.IsRounded) (hs : 0 < m.significand) :
    gridStep (decimalPoint m.units one - 17) <
      m.quarters (decimalPoint m.units one - 17) (m.below + 2) := by
  have hunits : 0 < m.units := by
    rw [units, Nat.shiftLeft_eq]
    exact Nat.mul_pos hs (Nat.two_pow_pos _)
  have hpoint : (one : ℚ) * 10 ^ (decimalPoint m.units one - 1) ≤ m.significand * 2 ^ m.scale := by
    have h := ten_zpow_decimalPoint_le hunits (show 0 < one by decide)
    rwa [show ((m.units : ℕ) : ℚ) = m.significand * 2 ^ m.scale by
      rw [units, Nat.shiftLeft_eq]; push_cast; rfl] at h
  have hten : (10 : ℚ) ^ (decimalPoint m.units one - 17) =
      10 ^ (decimalPoint m.units one - 1) / 10 ^ 16 := by
    rw [← zpow_natCast (10 : ℚ) 16, ← zpow_sub₀ (by norm_num)]
    congr 1
    push_cast
    ring
  -- fewer than 53 bits are less than sixteen digits
  have hbits : 4 * m.significand < (m.below + 2) * 10 ^ 16 := by
    have h := hr.1
    unfold below
    split <;> omega
  have hbits : (4 * m.significand : ℚ) < (m.below + 2 : ℕ) * 10 ^ 16 := by exact_mod_cast hbits
  have hscale : (0 : ℚ) < 2 ^ m.scale := by positivity
  rw [← Nat.one_mul (gridStep _), ← Nat.not_le, quarters_le_iff, not_le, Nat.cast_one, one_mul,
    hten]
  calc 4 * (one : ℚ) * (10 ^ (decimalPoint m.units one - 1) / 10 ^ 16)
      = 4 * ((one : ℚ) * 10 ^ (decimalPoint m.units one - 1)) / 10 ^ 16 := by ring
    _ ≤ 4 * ((m.significand : ℚ) * 2 ^ m.scale) / 10 ^ 16 := by gcongr
    _ = 4 * (m.significand : ℚ) * 2 ^ m.scale / 10 ^ 16 := by ring
    _ < ((m.below + 2 : ℕ) : ℚ) * 10 ^ 16 * 2 ^ m.scale / 10 ^ 16 := by gcongr
    _ = ((m.below + 2 : ℕ) : ℚ) * 2 ^ m.scale := by ring

/-- The shortest decimal of a rounded magnitude rounds to it, and its digits are digits. -/
theorem covers_shortest (hr : m.IsRounded) (hs : 0 < m.significand) :
    m.Covers m.shortest.value ∧ ∀ c ∈ m.shortest.digits, c.isDigit = true := by
  have hsome : ((List.range' 1 17).findSome? fun k : Nat =>
      (m.onGrid? (decimalPoint m.units one - k)).map
        (decimalOf · (decimalPoint m.units one - k))).isSome = true := by
    rw [List.findSome?_isSome_iff]
    refine ⟨17, by decide, ?_⟩
    rw [Option.isSome_map]
    exact isSome_onGrid? hs (gridStep_lt hr hs)
  obtain ⟨d, hd⟩ := Option.isSome_iff_exists.1 hsome
  have hshort : m.shortest = d := by
    simp only [shortest, hd]
  obtain ⟨k, -, hk⟩ := List.exists_of_findSome?_eq_some hd
  obtain ⟨n, hn, rfl⟩ := Option.map_eq_some_iff.1 hk
  rw [hshort, value_decimalOf]
  exact ⟨covers_of_onGrid? hn, fun c hc => isDigit_of_mem_decimalOf hc⟩

end

end Magnitude

/-! ## Doubles -/

namespace Magnitude

/-- The text of a magnitude. -/
def text (m : Magnitude) : List Char :=
  if m.significand = 0 then ['0', '.', '0'] else m.shortest.text

section

variable {m m' : Magnitude}

theorem exists_text_eq (hr : m.IsRounded) :
    ∃ c rest, m.text = c :: rest ∧ c.isDigit = true ∧ ('.' ∈ rest ∨ 'e' ∈ rest) := by
  unfold text
  split
  · exact ⟨'0', ['.', '0'], rfl, by decide, by decide⟩
  · next hs => exact Decimal.exists_text_eq (covers_shortest hr (Nat.pos_of_ne_zero hs)).2

theorem isNumberChar_of_mem_text (hr : m.IsRounded) {c : Char} (hc : c ∈ m.text) :
    Decimal.isNumberChar c = true := by
  unfold text at hc
  split at hc
  · rcases List.mem_cons.1 hc with rfl | hc
    · decide
    · rcases List.mem_cons.1 hc with rfl | hc
      · decide
      · rw [List.mem_singleton.1 hc]
        decide
  · next hs =>
    exact Decimal.isNumberChar_of_mem_text (covers_shortest hr (Nat.pos_of_ne_zero hs)).2 hc

/-- The text of a magnitude stands for a number that rounds to it, and only that of zero stands for
zero. -/
theorem textValue_text (hr : m.IsRounded) :
    (m.significand = 0 → Decimal.textValue m.text = 0) ∧
      (m.significand ≠ 0 → 0 < Decimal.textValue m.text ∧ m.Covers (Decimal.textValue m.text)) := by
  refine ⟨fun hs => ?_, fun hs => ?_⟩
  · rw [text, if_pos hs, Decimal.textValue_of_notMem (by decide)]
    change Decimal.positionalValue (['0'] ++ '.' :: ['0']) = 0
    rw [Decimal.positionalValue_append (by decide)]
    norm_num [Nat.ofDigitChars_cons]
  · rw [text, if_neg hs]
    obtain ⟨hc, hd⟩ := covers_shortest hr (Nat.pos_of_ne_zero hs)
    rw [Decimal.textValue_text hd]
    exact ⟨hc.pos hs, hc⟩

/-- The text of a rounded magnitude determines it. -/
theorem eq_of_text_eq (hr : m.IsRounded) (hr' : m'.IsRounded) (h : m.text = m'.text) : m = m' := by
  obtain ⟨hz, hp⟩ := textValue_text hr
  obtain ⟨hz', hp'⟩ := textValue_text hr'
  rw [h] at hz hp
  by_cases hs : m.significand = 0 <;> by_cases hs' : m'.significand = 0
  · -- a zero has no scale
    have hc : m.scale = 0 := hr.2.resolve_left (by omega)
    have hc' : m'.scale = 0 := hr'.2.resolve_left (by omega)
    obtain ⟨s, c⟩ := m
    obtain ⟨s', c'⟩ := m'
    exact congrArg₂ Magnitude.mk (hs.trans hs'.symm) (hc.trans hc'.symm)
  · exact absurd (hz hs) (hp' hs').1.ne'
  · exact absurd (hz' hs') (hp hs).1.ne'
  · exact (hp hs).2.eq hr hr' (hp' hs').2

end

end Magnitude

namespace Binary64

theorem text_eq (x : Binary64) :
    x.text = (if x.negative then ['-'] else []) ++ x.magnitude.text := by
  unfold text Magnitude.text
  dsimp only
  split <;> rfl

/-- The text of a double determines it. -/
theorem eq_of_text_eq {x y : Binary64} (h : x.text = y.text) : x = y := by
  obtain ⟨c, rest, hc, hd, -⟩ := Magnitude.exists_text_eq x.rounded
  obtain ⟨c', rest', hc', hd', -⟩ := Magnitude.exists_text_eq y.rounded
  have hsign : '-'.isDigit = false := by decide
  rw [text_eq, text_eq] at h
  -- a digit is no sign
  cases hs : x.negative <;> cases hs' : y.negative <;> rw [hs, hs'] at h
  · exact Binary64.ext (hs.trans hs'.symm) (Magnitude.eq_of_text_eq x.rounded y.rounded h)
  · rw [hc] at h
    obtain ⟨rfl, -⟩ := List.cons.inj h
    rw [hsign] at hd
    cases hd
  · rw [hc'] at h
    obtain ⟨rfl, -⟩ := List.cons.inj h
    rw [hsign] at hd'
    cases hd'
  · exact Binary64.ext (hs.trans hs'.symm)
      (Magnitude.eq_of_text_eq x.rounded y.rounded (List.cons.inj h).2)

/-- The text of a double consists of the characters of numbers, starts with a digit or the sign, and
is no text of an integer. -/
theorem lexical_text (x : Binary64) :
    (∀ c ∈ x.text, Decimal.isNumberChar c = true) ∧ ('.' ∈ x.text ∨ 'e' ∈ x.text) := by
  obtain ⟨c, rest, hc, -, hm⟩ := Magnitude.exists_text_eq x.rounded
  rw [text_eq, hc, ← hc]
  refine ⟨fun d hd => ?_, ?_⟩
  · rcases List.mem_append.1 hd with hd | hd
    · split at hd
      · rw [List.mem_singleton.1 hd]
        decide
      · cases hd
    · exact Magnitude.isNumberChar_of_mem_text x.rounded hd
  · rw [hc]
    exact hm.imp (fun h => by simp [h]) (fun h => by simp [h])

end Binary64

end AvroSchema
