import Scriptlet.Number.Double

/-!
# The text of a number

A finite double is written with the fewest significant digits that read back as the same double,
and among those with the digits nearest to its value.  The point stands inside the digits as long
as the number is below `10 ^ 21` and not below `10 ^ -6`; otherwise an exponent follows.

## Main definitions

* `Decimal` — a whole number of units `10 ^ scale`.
* `Decimal.shortest` — the fewest digits for `m · 2 ^ e`.
* `Decimal.layout` — the placement of the point or the exponent.
* `Double.toText` — the text of a double.
-/

namespace Scriptlet

/-- The decimal number `digits · 10 ^ scale`. -/
structure Decimal where
  /-- The significant digits as a number. -/
  digits : Nat
  /-- The power of ten of the last digit. -/
  scale : Int
deriving DecidableEq, Repr

namespace Decimal

/-- An interval of rationals with denominator `4 · den`, around a point of its own. -/
structure Interval where
  /-- Four times the numerator of the point. -/
  point : Nat
  /-- The lower end. -/
  low : Nat
  /-- The upper end. -/
  high : Nat
  /-- The common denominator. -/
  den : Nat
  /-- Whether the ends belong to the interval. -/
  closed : Bool

/-- The numbers that round to `m · 2 ^ e`.  Below a power of two the neighbours are half as far
away, unless that power is the least normal one. -/
def Interval.ofBinary (m : Nat) (e : Int) : Interval :=
  let up : Nat := 2 ^ e.toNat
  let down : Nat := 2 ^ (-e).toNat
  let below : Nat := if m = 2 ^ 52 && -1074 < e then 1 else 2
  ⟨4 * m * up, (4 * m - below) * up, (4 * m + 2) * up, 4 * down, m % 2 = 0⟩

/-- Whether `d · 10 ^ k` lies in the interval. -/
def Interval.holds (i : Interval) (d : Nat) (k : Int) : Bool :=
  let v : Nat := d * 10 ^ k.toNat * i.den
  let unit : Nat := 10 ^ (-k).toNat
  if i.closed then i.low * unit ≤ v && v ≤ i.high * unit
  else i.low * unit < v && v < i.high * unit

/-- The distance of `d · 10 ^ k` from the point, in a unit that depends on `k` only. -/
def Interval.distance (i : Interval) (d : Nat) (k : Int) : Nat :=
  let v := d * 10 ^ k.toNat * i.den
  let p := i.point * 10 ^ (-k).toNat
  if v ≤ p then p - v else v - p

/-- The multiple of `10 ^ k` in the interval that is nearest to its point, looked for among the two
neighbours of the point; of two equally near ones the even one. -/
def Interval.onGrid? (i : Interval) (k : Int) : Option Nat :=
  let d := i.point * 10 ^ (-k).toNat / (i.den * 10 ^ k.toNat)
  match i.holds d k, i.holds (d + 1) k with
  | true, true =>
    let a := i.distance d k
    let b := i.distance (d + 1) k
    some (if a < b then d else if b < a then d + 1 else if d % 2 = 0 then d else d + 1)
  | true, false => some d
  | false, true => some (d + 1)
  | false, false => none

/-- The first of `fuel` ever finer grids, from `10 ^ k` on, with a point in the interval. -/
def Interval.search (i : Interval) : Nat → Int → Decimal
  | 0, k => ⟨i.point * 10 ^ (-k).toNat / (i.den * 10 ^ k.toNat), k⟩
  | fuel + 1, k =>
    match i.onGrid? k with
    | some d => ⟨d, k⟩
    | none => search i fuel (k - 1)

/-- The number of decimal digits of `n`. -/
def width (n : Nat) : Nat := (Nat.toDigits 10 n).length

/-- A power of ten that is at least `m · 2 ^ e` for `m < 2 ^ 53`. -/
def ceilingScale (m : Nat) (e : Int) : Int :=
  if 0 ≤ e then width (m * 2 ^ e.toNat)
  else
    let scaled := m * 10 ^ 330 / 2 ^ (-e).toNat
    (width scaled : Int) - 330

/-- Removes the zeros at the end of the digits, at most `fuel`. -/
def dropZeros : Nat → Decimal → Decimal
  | 0, d => d
  | fuel + 1, d =>
    if d.digits % 10 = 0 && d.digits ≠ 0 then dropZeros fuel ⟨d.digits / 10, d.scale + 1⟩ else d

/-- The fewest digits that read back as `m · 2 ^ e`, for a positive `m`. -/
def shortest (m : Nat) (e : Int) : Decimal :=
  dropZeros 20 ((Interval.ofBinary m e).search 18 (ceilingScale m e))

/-- The digits of `n`, in order. -/
def digitChars (n : Nat) : List Char := Nat.toDigits 10 n

/-- The characters of a decimal with the point or the exponent in its place. -/
def layout (d : Decimal) : List Char :=
  let ds := digitChars d.digits
  let k : Int := ds.length
  let n := k + d.scale
  -- From 10 ^ -6 to 10 ^ 21 all places are written out, otherwise an exponent is.
  if k ≤ n && n ≤ 21 then ds ++ List.replicate d.scale.toNat '0'
  else if 0 < n && n ≤ 21 then ds.take n.toNat ++ '.' :: ds.drop n.toNat
  else if -6 < n && n ≤ 0 then '0' :: '.' :: (List.replicate (-n).toNat '0' ++ ds)
  else
    let exponent := n - 1
    let sign := if exponent < 0 then '-' else '+'
    let tail := 'e' :: sign :: digitChars exponent.natAbs
    match ds with
    | [] => tail
    | [c] => c :: tail
    | c :: rest => c :: '.' :: (rest ++ tail)

end Decimal

namespace Double

/-- The text of a double; both zeros are written alike.  An integer below `2 ^ 53` is its own
shortest decimal, since its neighbours are at least one away from it. -/
def toText (x : Float) : String :=
  if x.isNaN then "NaN"
  else
    match magnitude? x with
    | none => if isNegative x then "-Infinity" else "Infinity"
    | some (m, e) =>
      if m = 0 then "0"
      else if e ≤ 0 && m % 2 ^ (-e).toNat = 0 then
        let body := Decimal.digitChars (m / 2 ^ (-e).toNat)
        String.ofList (if isNegative x then '-' :: body else body)
      else
        let body := (Decimal.shortest m e).layout
        String.ofList (if isNegative x then '-' :: body else body)

end Double

end Scriptlet
