import Scriptlet.Number.Double

/-!
# Numbers in other radices

The integer part is written by division with remainder and the fraction by repeated
multiplication, which stops as soon as the digits tell the number from its neighbours.  All of this
is done in floating point.  The loops are bounded; a number at which a bound is reached has no
text.

## Main definitions

* `Radix.integerDigits?` — the digits of an integral double.
* `Radix.fractionDigits?` — the digits of the fraction, and a carry into the integer part.
* `Double.toRadix` — the text of a finite double.
* `Radix.value` — the double of a list of digits.
-/

namespace Scriptlet

namespace Radix

/-- The character of a digit below 36; from ten on it is a small letter. -/
def digitChar (d : Nat) : Char := Char.ofNat (if d < 10 then 48 + d else 87 + d)

/-- The value of a digit in the given radix. -/
def digit? (radix : Nat) (c : Char) : Option Nat :=
  let d :=
    if '0' ≤ c && c ≤ '9' then c.toNat - 48
    else if 'a' ≤ c && c ≤ 'z' then c.toNat - 87
    else if 'A' ≤ c && c ≤ 'Z' then c.toNat - 55
    else 36
  if d < radix then some d else none

/-- Divides by the radix as long as the quotient is not below `2 ^ 53`, and counts. -/
def scaleDown (radix : Float) : Nat → Float → Nat → Option (Float × Nat)
  | 0, _, _ => none
  | fuel + 1, x, zeros =>
    if 9007199254740992.0 ≤ x / radix then scaleDown radix fuel (x / radix) (zeros + 1)
    else some (x, zeros)

/-- Puts the digits of `x` before `acc`, the last one of `x` first. -/
def divide (radix : Nat) : Nat → Float → List Nat → Option (List Nat)
  | 0, _, _ => none
  | fuel + 1, x, acc =>
    let r := Double.remainder x radix.toFloat
    let next := (x - r) / radix.toFloat
    let acc := (Double.naturalPart? r).getD 0 :: acc
    if next ≤ 0.0 then some acc else divide radix fuel next acc

/-- The digits of an integral double; those below its precision are zeros. -/
def integerDigits? (radix : Nat) (x : Float) : Option (List Nat) :=
  match scaleDown radix.toFloat 1100 x 0 with
  | some (x, zeros) => divide radix 1100 x (List.replicate zeros 0)
  | none => none

/-- Adds one to the last of the digits, which come last first; none are left if the carry runs
into the integer part. -/
def carry (radix : Nat) : List Nat → List Nat
  | [] => []
  | d :: rest => if d + 1 < radix then (d + 1) :: rest else carry radix rest

/-- The digits of a fraction, last first, until what is left is below `delta`; and whether one has
to be added to the integer part. -/
def expand (radix : Nat) : Nat → Float → Float → List Nat → Option (List Nat × Bool)
  | 0, _, _, _ => none
  | fuel + 1, fraction, delta, acc =>
    let fraction := fraction * radix.toFloat
    let delta := delta * radix.toFloat
    let d := (Double.naturalPart? fraction).getD 0
    let acc := d :: acc
    let fraction := fraction - d.toFloat
    if (0.5 < fraction || (fraction == 0.5 && d % 2 == 1)) && 1.0 < fraction + delta then
      let acc := carry radix acc
      some (acc, acc.isEmpty)
    else if fraction < delta then some (acc, false)
    else expand radix fuel fraction delta acc

/-- Half the distance from `x` to the next double, but at least the smallest double. -/
def halfStep (x : Float) : Float :=
  let step := 0.5 * (Float.ofBits (x.toBits + 1) - x)
  let least := Float.ofBits 1
  if step < least then least else step

/-- The digits behind the point of `x`, whose fraction is `fraction`. -/
def fractionDigits? (radix : Nat) (x fraction : Float) : Option (List Nat × Bool) :=
  if fraction < halfStep x then some ([], false)
  else (expand radix 1100 fraction (halfStep x) []).map fun (ds, up) => (ds.reverse, up)

/-- The double of a list of digits, rounded after each digit. -/
def value (radix : Nat) (ds : List Nat) : Float :=
  ds.foldl (fun x d => x * radix.toFloat + d.toFloat) 0.0

end Radix

namespace Double

/-- The text of a finite double in a radix from 2 to 36, if the bounds of the loops suffice. -/
def toRadix? (x : Float) (radix : Nat) : Option String := do
  let size := x.abs
  let whole := floor size
  let (fraction, up) ← Radix.fractionDigits? radix size (size - whole)
  let digits ← Radix.integerDigits? radix (if up then whole + 1.0 else whole)
  let body := digits.map Radix.digitChar
  let tail := if fraction.isEmpty then [] else '.' :: fraction.map Radix.digitChar
  return String.ofList (if x < 0.0 then '-' :: (body ++ tail) else body ++ tail)

/-- The text of a finite double in a radix from 2 to 36. -/
def toRadix (x : Float) (radix : Nat) : String := (toRadix? x radix).getD ""

end Double

end Scriptlet
