import Scriptlet.Number.Shortest

/-!
# Fixed decimal places

The expansion of a double is finite, since its denominator is a power of two.  Rounding to a
given number of places cuts the expansion and, if the first digit left out is five or more, adds
one to the last digit kept, carrying through nines.

## Main definitions

* `Decimal.integerDigits`, `Decimal.fractionDigits` — the expansion of `m · 2 ^ e`.
* `Decimal.increment` — adding one to the last of a list of digits.
* `Decimal.roundTo` — the rounded expansion.
* `Double.toFixed` — its text.
-/

namespace Scriptlet

namespace Decimal

/-- The decimal digits of a natural number, at least one. -/
def integerDigits (n : Nat) : List Nat := (Nat.toDigits 10 n).map fun c => c.toNat - 48

/-- The first `count` digits of the fraction `num / den`, which is below one. -/
def fractionDigits : Nat → Nat → Nat → List Nat
  | 0, _, _ => []
  | count + 1, num, den => num * 10 / den :: fractionDigits count (num * 10 % den) den

/-- Adds one to a number given by its digits, the last one first. -/
def incrementReversed : List Nat → List Nat
  | [] => [1]
  | d :: rest => if d = 9 then 0 :: incrementReversed rest else (d + 1) :: rest

/-- Adds one to a number given by its digits. -/
def increment (ds : List Nat) : List Nat := (incrementReversed ds.reverse).reverse

/-- The digits of `integer.fraction` rounded to `places` digits behind the point, without the
point; a fraction that is too short is filled up with zeros. -/
def roundTo (integer fraction : List Nat) (places : Nat) : List Nat :=
  let kept := integer ++ (fraction.take places ++ List.replicate (places - fraction.length) 0)
  match fraction[places]? with
  | some d => if 5 ≤ d then increment kept else kept
  | none => kept

/-- The character of a digit below ten. -/
def digitChar (d : Nat) : Char := Char.ofNat (48 + d)

/-- Puts the point before the last `places` digits. -/
def withPoint (ds : List Nat) (places : Nat) : List Char :=
  let split := ds.length - places
  let whole := (ds.take split).map digitChar
  if places = 0 then whole else whole ++ '.' :: (ds.drop split).map digitChar

end Decimal

namespace Double

/-- The text of `m · 2 ^ e` with `places` digits behind the point. -/
def fixedChars (m : Nat) (e : Int) (places : Nat) : List Char :=
  let num : Nat := m * 2 ^ e.toNat
  let den : Nat := 2 ^ (-e).toNat
  let fraction := Decimal.fractionDigits (places + 1) (num % den) den
  Decimal.withPoint (Decimal.roundTo (Decimal.integerDigits (num / den)) fraction places) places

/-- The text with `places` digits behind the point, which keeps the sign of a zero; from `10 ^ 21`
on, the shortest text. -/
def toFixed (x : Float) (places : Nat) : String :=
  match magnitude? x with
  | none => toText x
  | some (m, e) =>
    if (1e21 : Float) ≤ x.abs then toText x
    else
      let body := fixedChars m e places
      String.ofList (if isNegative x then '-' :: body else body)

end Double

end Scriptlet
