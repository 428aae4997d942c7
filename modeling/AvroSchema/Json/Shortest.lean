import AvroSchema.Json.Binary64

/-!
# Shortest Decimal Text

A double is written with the fewest decimal digits that read back as the same double; of two
such decimals the nearer one is taken, and of two equally near ones the even one. The search
tries one digit, two digits and so on, looking at the two neighbours of the value on the grid
of decimals with that many digits.
-/

namespace AvroSchema

/-- A decimal `0.d₁d₂… * 10 ^ point`, so the decimal point stands after `point` digits. -/
structure Decimal where
  /-- The digits, the first one not zero. -/
  digits : List Char
  /-- The position of the decimal point, counted from the first digit. -/
  point : Int
deriving DecidableEq, Repr

namespace Magnitude

/-- The decimal `n * 10 ^ exponent`, without trailing zeros. -/
def decimalOf (n : Nat) (exponent : Int) : Decimal :=
  let digits := Nat.toDigits 10 n
  { digits := (digits.reverse.dropWhile (· == '0')).reverse, point := exponent + digits.length }

/-- The position of the decimal point of a positive value `num / den`. -/
def decimalPoint (num den : Nat) : Int :=
  if den ≤ num then (Nat.toDigits 10 (num / den)).length
  else 1 - (Nat.toDigits 10 (den / num)).length

/-- The multiple of `10 ^ exponent` nearest to the magnitude among its two neighbours, if it
rounds to the magnitude. The value and the ends of the interval of reals that round to it are
compared as quarters of a unit in the last place. -/
def onGrid? (m : Magnitude) (exponent : Int) : Option Nat :=
  -- numerators over a common denominator, so that everything is a natural number
  let quarter := 1 <<< m.scale
  -- the gap below a power of two is only half as wide as the one above
  let below := if m.significand = 1 <<< 52 ∧ 0 < m.scale then 1 else 2
  let up := match exponent with | .ofNat _ => 1 | .negSucc k => Nat.pow 10 (k + 1)
  let step := (match exponent with | .ofNat k => Nat.pow 10 k | .negSucc _ => 1) * (4 * one)
  let value := 4 * m.significand * quarter * up
  let low := (4 * m.significand - below) * quarter * up
  let high := (4 * m.significand + 2) * quarter * up
  -- a half goes to the even significand, so only that one has the ends of its interval
  let inside (n : Nat) : Bool :=
    if m.significand % 2 = 0 then low ≤ n * step && n * step ≤ high
    else low < n * step && n * step < high
  let floor := value / step
  match inside floor, inside (floor + 1) with
  | true, true =>
    -- the nearer one of the two is taken, and the even one if there is none
    let down := value - floor * step
    let rise := (floor + 1) * step - value
    if down < rise then some floor
    else if rise < down then some (floor + 1)
    else if floor % 2 = 0 then some floor else some (floor + 1)
  | true, false => some floor
  | false, true => some (floor + 1)
  | false, false => none

/-- The shortest decimal of a positive magnitude. Seventeen digits always suffice. -/
def shortest (m : Magnitude) : Decimal :=
  -- fewer digits are tried first
  let point := decimalPoint m.units one
  let withDigits (n : Nat) : Option Decimal :=
    (m.onGrid? (point - n)).map (decimalOf · (point - n))
  match (List.range' 1 17).findSome? withDigits with
  | some d => d
  | none => decimalOf m.units 0

end Magnitude

/-- The decimal in positional notation, always with a digit after the point. -/
def Decimal.positional (d : Decimal) : List Char :=
  match d.point with
  | .negSucc k => ['0', '.'] ++ List.replicate (k + 1) '0' ++ d.digits
  | .ofNat 0 => ['0', '.'] ++ d.digits
  | .ofNat k =>
    if d.digits.length ≤ k then
      d.digits ++ List.replicate (k - d.digits.length) '0' ++ ['.', '0']
    else d.digits.take k ++ ['.'] ++ d.digits.drop k

/-- The decimal in scientific notation, with one digit before the point and a signed exponent. -/
def Decimal.scientific (d : Decimal) : List Char :=
  let exponent := d.point - 1
  let mantissa := match d.digits with
    | [] => ['0']
    | [c] => [c]
    | c :: rest => c :: '.' :: rest
  mantissa ++ ['e', if exponent < 0 then '-' else '+'] ++ Nat.toDigits 10 exponent.natAbs

/-- Numbers whose decimal point lies between five places before and sixteen places after the
first digit are written positionally, all others scientifically. -/
def Decimal.text (d : Decimal) : List Char :=
  if -5 < d.point ∧ d.point ≤ 16 then d.positional else d.scientific

/-- The text of a double. -/
def Binary64.text (x : Binary64) : List Char :=
  let sign := if x.negative then ['-'] else []
  if x.magnitude.significand = 0 then sign ++ ['0', '.', '0']
  else sign ++ x.magnitude.shortest.text

end AvroSchema
