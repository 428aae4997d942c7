/-!
# Finite Doubles

A finite binary64 number is a sign and a magnitude, and a magnitude is a natural number of units
of `2 ^ -1074`, the smallest positive double. Rounding, products and quotients are therefore
exact arithmetic on natural numbers followed by one rounding to 53 bits, half to even. A double
carries the proof that its magnitude is what rounding gives, and is finite.

* `Magnitude.isRounded_round`: every magnitude that is rounded has at most 53 bits.
* `Magnitude.isRounded_ofDecimal?`: so every decimal that is not too large makes a double.
-/

namespace AvroSchema

/-- A magnitude `significand * 2 ^ scale`, counted in units of `2 ^ -1074`. -/
structure Magnitude where
  /-- The leading bits. -/
  significand : Nat
  /-- The power of two that the significand is multiplied by. -/
  scale : Nat
deriving DecidableEq, Repr

namespace Magnitude

/-- Rounded magnitudes have a significand below `2 ^ 53`, and at least `2 ^ 52` unless the scale is
zero. -/
def IsRounded (m : Magnitude) : Prop :=
  m.significand < 1 <<< 53 ∧ (1 <<< 52 ≤ m.significand ∨ m.scale = 0)

instance : DecidablePred IsRounded := fun m =>
  inferInstanceAs
    (Decidable (m.significand < 1 <<< 53 ∧ (1 <<< 52 ≤ m.significand ∨ m.scale = 0)))

/-- The number of units of `2 ^ -1074` in one. -/
def one : Nat := 1 <<< 1074

/-- The magnitude as a number of units. -/
def units (m : Magnitude) : Nat := m.significand <<< m.scale

/-- The integer nearest to `num / den`; a half goes to the even neighbour. -/
def nearest (num den : Nat) : Nat :=
  let q := num / den
  let r := 2 * (num % den)
  if r < den then q
  else if den < r then q + 1
  else if q % 2 = 0 then q else q + 1

/-- The magnitude nearest to `num / den` units. -/
def round (num den : Nat) : Magnitude :=
  let scale := Nat.log2 (num / den) - 52
  let significand := nearest num (den <<< scale)
  -- rounding up may need one bit more
  if significand = 1 <<< 53 then ⟨1 <<< 52, scale + 1⟩ else ⟨significand, scale⟩

/-- The magnitude nearest to a natural number. -/
def ofNat (n : Nat) : Magnitude := round (n * one) 1

/-- The rounded product. -/
def mul (a b : Magnitude) : Magnitude := round (a.units * b.units) one

/-- The rounded quotient. -/
def div (a b : Magnitude) : Magnitude := round (a.units * one) b.units

/-- Whether the magnitude is below the overflow threshold of binary64. -/
def isFinite (m : Magnitude) : Bool := m.scale ≤ 2045

/-- Division by `10 ^ k`, in steps of at most `10 ^ 308`, the largest power of ten that is a
finite double. Zero stays zero, which ends the walk early. -/
def shrink (m : Magnitude) (k : Nat) : Magnitude :=
  if k ≤ 308 then m.div (ofNat (Nat.pow 10 k))
  else if m.significand = 0 then m
  else (m.div (ofNat (Nat.pow 10 308))).shrink (k - 308)
termination_by k

/-- The magnitude of `significand * 10 ^ exponent`, or nothing if it overflows. The significand
and the power of ten are rounded first and then combined, so a value with many digits or a large
exponent may end one step away from the nearest double. -/
def ofDecimal? (significand : Nat) (exponent : Int) : Option Magnitude :=
  let m := ofNat significand
  match exponent with
  | .ofNat k =>
    if m.significand = 0 then some m
    else if k ≤ 308 then some (m.mul (ofNat (Nat.pow 10 k)))
    else none
  | .negSucc k => some (m.shrink (k + 1))

/-- Rounding takes one of the two neighbours. -/
theorem nearest_cases (num den : Nat) :
    nearest num den = num / den ∨ nearest num den = num / den + 1 := by
  unfold nearest
  dsimp only
  split
  · exact Or.inl rfl
  · split
    · exact Or.inr rfl
    · split
      · exact Or.inl rfl
      · exact Or.inr rfl

/-- The leading bits of a number are at most 53. -/
theorem leading_lt (n : Nat) : n >>> (n.log2 - 52) < 1 <<< 53 := by
  have hlt : n < 2 ^ (n.log2 + 1) := Nat.lt_log2_self
  rw [Nat.shiftRight_eq_div_pow, Nat.one_shiftLeft, Nat.div_lt_iff_lt_mul (Nat.two_pow_pos _),
    ← Nat.pow_add]
  exact Nat.lt_of_lt_of_le hlt (Nat.pow_le_pow_right (by decide) (by omega))

/-- They are exactly 53 if any bits are left out. -/
theorem le_leading {n : Nat} (h : 0 < n.log2 - 52) : 1 <<< 52 ≤ n >>> (n.log2 - 52) := by
  have hn : n ≠ 0 := by
    rintro rfl
    cases h
  rw [Nat.shiftRight_eq_div_pow, Nat.one_shiftLeft, Nat.le_div_iff_mul_le (Nat.two_pow_pos _),
    ← Nat.pow_add]
  exact Nat.le_trans (Nat.pow_le_pow_right (by decide) (by omega)) (Nat.log2_self_le hn)

/-- What is rounded has at most 53 bits. -/
theorem isRounded_round (num den : Nat) : (round num den).IsRounded := by
  have hnear := nearest_cases num (den <<< ((num / den).log2 - 52))
  have hlt := leading_lt (num / den)
  have hle := le_leading (n := num / den)
  have hleading : num / (den <<< ((num / den).log2 - 52)) =
      (num / den) >>> ((num / den).log2 - 52) := by
    rw [Nat.shiftLeft_eq, Nat.shiftRight_eq_div_pow, Nat.div_div_eq_div_mul]
  rw [hleading] at hnear
  unfold round IsRounded
  -- rounding up to one bit more gives the smallest magnitude of the next scale
  dsimp only
  split <;> simp only [Nat.one_shiftLeft] at * <;> omega

theorem isRounded_shrink {m : Magnitude} (h : m.IsRounded) (k : Nat) : (m.shrink k).IsRounded := by
  induction k using Nat.strongRecOn generalizing m with
  | _ k ih =>
    unfold shrink
    split
    · exact isRounded_round _ _
    · split
      · exact h
      · exact ih (k - 308) (by omega) (isRounded_round _ _)

/-- Magnitudes that are read from decimals are rounded. -/
theorem isRounded_ofDecimal? {significand : Nat} {exponent : Int} {m : Magnitude}
    (h : ofDecimal? significand exponent = some m) : m.IsRounded := by
  unfold ofDecimal? at h
  dsimp only at h
  split at h
  · split at h
    · cases h
      exact isRounded_round _ _
    · split at h
      · cases h
        exact isRounded_round _ _
      · cases h
  · cases h
    exact isRounded_shrink (isRounded_round _ _) _

end Magnitude

/-- A finite binary64 number; zero comes with both signs. -/
@[ext]
structure Binary64 where
  /-- Whether the number carries a minus sign. -/
  negative : Bool
  /-- The absolute value. -/
  magnitude : Magnitude
  /-- The absolute value has at most 53 bits. -/
  rounded : magnitude.IsRounded := by decide
  /-- The absolute value is below the overflow threshold. -/
  finite : magnitude.isFinite = true := by rfl
deriving DecidableEq, Repr

namespace Binary64

/-- The number written as `significand * 10 ^ exponent` with a sign, if it is finite. -/
def ofDecimal? (negative : Bool) (significand : Nat) (exponent : Int) : Option Binary64 :=
  match h : Magnitude.ofDecimal? significand exponent with
  | some magnitude =>
    if finite : magnitude.isFinite then
      some { negative, magnitude, rounded := Magnitude.isRounded_ofDecimal? h, finite }
    else none
  | none => none

/-- The zero with a sign. -/
def zero (negative : Bool) : Binary64 := { negative, magnitude := ⟨0, 0⟩ }

/-- The smallest natural number that rounds to no finite double: half a step above the largest
one. -/
def overflowThreshold : Nat := 1 <<< 1024 - 1 <<< 970

/-- Whether `significand * 10 ^ exponent` is too large to be rounded to a finite double. The number
of digits decides unless the value lies between `10 ^ 308` and `10 ^ 309`, so no large power is
computed in vain. -/
def overflows (significand : Nat) (exponent : Int) : Bool :=
  let point := exponent + (Nat.toDigits 10 significand).length
  if significand = 0 ∨ point ≤ 308 then false
  else if 309 < point then true
  else match exponent with
    | .ofNat k => overflowThreshold ≤ significand * Nat.pow 10 k
    | .negSucc k => overflowThreshold * Nat.pow 10 (k + 1) ≤ significand

/-- Numbers are compared by value: the two zeros are equal. -/
def beq (a b : Binary64) : Bool :=
  a == b || (a.magnitude.significand == 0 && b.magnitude.significand == 0)

end Binary64

end AvroSchema
