/-!
# Doubles as exact fractions

A finite double is `± m · 2 ^ e` for a natural number `m` and an integer `e`.  The operations of
this module work on that pair with natural numbers, so that they are exact.

## Main definitions

* `Double.magnitude?` — the pair of a finite double.
* `Double.ofParts` — the double of a pair that is one.
* `Double.trunc`, `Double.floor`, `Double.ceil`, `Double.round` — rounding to integers.
* `Double.remainder` — the remainder with the sign of the dividend.
* `Double.toUInt32` — the integer part modulo `2 ^ 32`.
* `Double.power` — exponentiation.
-/

namespace Scriptlet

-- Powers of natural numbers are computed by the core library, also where a monoid is at hand.
attribute [instance (high), default_instance (high + 1)] instPowNat

namespace Double

/-- The quiet not-a-number. -/
def nan : Float := 0.0 / 0.0

/-- Positive infinity. -/
def infinity : Float := 1.0 / 0.0

/-- Whether the sign bit is set. -/
def isNegative (x : Float) : Bool := x.toBits.toNat / 2 ^ 63 == 1

/-- The pair `(m, e)` with `|x| = m · 2 ^ e`, for a finite `x`. -/
def magnitude? (x : Float) : Option (Nat × Int) :=
  let bits := x.toBits.toNat
  let exponent : Nat := bits / 2 ^ 52 % 2 ^ 11
  let fraction : Nat := bits % 2 ^ 52
  if exponent = 2047 then none
  else if exponent = 0 then some (fraction, -1074)
  else some (fraction + 2 ^ 52, (exponent : Int) - 1075)

/-- Sets the sign of a double. -/
def withSign (negative : Bool) (x : Float) : Float := if negative then -x else x

/-- Halves `m` as long as it is even, at most `fuel` times, counting in the exponent. -/
def strip : Nat → Nat → Int → Nat × Int
  | 0, m, e => (m, e)
  | fuel + 1, m, e => if m % 2 = 0 && m ≠ 0 then strip fuel (m / 2) (e + 1) else (m, e)

/-- The double `m · 2 ^ e`, provided there is one; the value is normal or subnormal according to
its size. -/
def ofParts (m : Nat) (e : Int) : Float :=
  let (m, e) := strip (m.log2 + 1) m e
  if m = 0 then 0.0
  else
    let width := m.log2 + 1
    let top := e + width
    if top ≤ -1022 then Float.ofBits (m * 2 ^ (e + 1074).toNat).toUInt64
    else
      let biased := (top + 1022).toNat
      let fraction := m * 2 ^ (53 - width) - 2 ^ 52
      Float.ofBits (biased * 2 ^ 52 + fraction).toUInt64

/-- The natural number `⌊m · 2 ^ e⌋`. -/
def integerPart (m : Nat) (e : Int) : Nat :=
  match e with
  | .ofNat k => m * 2 ^ k
  | .negSucc k => m / 2 ^ (k + 1)

/-- The integer part of `|x|`, for a finite `x`. -/
def naturalPart? (x : Float) : Option Nat := (magnitude? x).map fun (m, e) => integerPart m e

/-- The double without its fraction; zero keeps the sign. -/
def trunc (x : Float) : Float :=
  match magnitude? x with
  | none => x
  | some (m, e) => if 0 ≤ e then x else withSign (isNegative x) (ofParts (integerPart m e) 0)

/-- Whether the double is finite and has no fraction. -/
def isIntegral (x : Float) : Bool := x.isFinite && trunc x == x

/-- The greatest integer that is at most `x`. -/
def floor (x : Float) : Float :=
  let t := trunc x
  if x < t then t - 1.0 else t

/-- The least integer that is at least `x`. -/
def ceil (x : Float) : Float :=
  let t := trunc x
  if t < x then t + 1.0 else t

/-- The nearest integer; a half goes away from zero. -/
def round (x : Float) : Float :=
  let t := trunc x
  if (x - t).abs < 0.5 then t
  else if isNegative x then t - 1.0
  else t + 1.0

/-- The nearest integer; a half goes up, and the sign of a zero is kept. -/
def roundHalfUp (x : Float) : Float :=
  if !x.isFinite || isIntegral x then x
  else if x < 0.0 && -0.5 ≤ x then -0.0
  else
    let r := round x
    if r - x == -0.5 then r + 1.0 else r

/-- One with the sign of the number; zero and what is no number stay as they are. -/
def sign (x : Float) : Float :=
  if x.isNaN || x == 0.0 then x else if x < 0.0 then -1.0 else 1.0

/-- The greater of two numbers; a positive zero is greater than a negative one. -/
def maximum (x y : Float) : Float :=
  if x.isNaN || y.isNaN then nan
  else if x < y || (x == 0.0 && y == 0.0 && isNegative x) then y else x

/-- The less of two numbers; a negative zero is less than a positive one. -/
def minimum (x y : Float) : Float :=
  if x.isNaN || y.isNaN then nan
  else if y < x || (x == 0.0 && y == 0.0 && isNegative y) then y else x

/-- The remainder of a division whose quotient is cut to an integer. -/
def remainder (x y : Float) : Float :=
  match magnitude? x, magnitude? y with
  | some (m, e), some (n, f) =>
    if n = 0 then nan
    else
      let low := min e f
      let r := (m * 2 ^ (e - low).toNat) % (n * 2 ^ (f - low).toNat)
      withSign (isNegative x) (ofParts r low)
  | some _, none => if y.isNaN then nan else x
  | none, _ => nan

/-- The integer part modulo `2 ^ 32`; zero for what is not finite. -/
def toUInt32 (x : Float) : Nat :=
  match naturalPart? x with
  | none => 0
  | some n =>
    let r := n % 2 ^ 32
    if isNegative x && r ≠ 0 then 2 ^ 32 - r else r

theorem toUInt32_lt (x : Float) : toUInt32 x < 2 ^ 32 := by
  unfold toUInt32
  split
  · exact Nat.two_pow_pos 32
  · dsimp only
    split
    · next h =>
      rw [Bool.and_eq_true, decide_eq_true_iff] at h
      exact Nat.sub_lt (Nat.two_pow_pos 32) (Nat.pos_of_ne_zero h.2)
    · exact Nat.mod_lt _ (Nat.two_pow_pos 32)

/-- The integer part modulo `2 ^ 32`, between `-2 ^ 31` and `2 ^ 31`. -/
def toInt32 (x : Float) : Int :=
  let n := toUInt32 x
  if n < 2 ^ 31 then n else (n : Int) - 2 ^ 32

/-- Exponentiation; an undetermined exponent or one that oscillates gives not-a-number. -/
def power (base exponent : Float) : Float :=
  if exponent.isNaN then nan
  else if exponent == 0.0 then 1.0
  else if exponent.isInf && base.abs == 1.0 then nan
  else base.pow exponent

end Double

end Scriptlet
