import Scriptlet.Text.Blank
import Scriptlet.Text.Bytes
import Scriptlet.Number.Radix

/-!
# Reading numbers

Text is read as a number in three ways: as a whole, as the longest decimal number that it starts
with, and as the longest integer of a radix that it starts with.  Blanks in front are skipped.

Where a decimal number ends is found out byte by byte, and the piece of the text that it is in goes
to a reader of decimal literals.  Nothing is read where a piece would not begin and end with whole
characters of the text; this does not happen.

## Main definitions

* `Decimal.value` — the double nearest to a decimal number.
* `Decimal.read?` — the number that is a decimal literal as a whole.
* `readNumber` — the number that the whole text denotes, blanks at both ends excepted.
* `readDecimal` — the longest decimal number in front.
* `readInteger` — the longest integer in front.
-/

namespace Scriptlet

/-- The double nearest to `digits · 10 ^ scale`.  Far outside the range of doubles the power of
ten is not computed. -/
def Decimal.value (digits : Nat) (scale : Int) : Float :=
  if digits = 0 then 0.0
  else
    let width : Int := (Nat.toDigits 10 digits).length
    if 400 < width + scale then Double.infinity
    else if width + scale < -400 then 0.0
    else Float.ofScientific digits (scale < 0) scale.natAbs

/-- The number that decimal digits denote. -/
def digitsValue (ds : List Char) : Nat := ds.foldl (fun n c => n * 10 + (c.toNat - 48)) 0

/-- A decimal digit. -/
def isDigit (c : Char) : Bool := '0' ≤ c && c ≤ '9'

/-! ### Decimal literals as a whole -/

/-- A decimal literal without sign, in its parts. -/
structure Literal where
  /-- The digits before the point. -/
  whole : List Char
  /-- The digits behind the point. -/
  fraction : List Char
  /-- The exponent. -/
  exponent : Int

/-- The double nearest to the value of the literal. -/
def Literal.value (l : Literal) : Float :=
  Decimal.value (digitsValue (l.whole ++ l.fraction)) (l.exponent - l.fraction.length)

/-- A sign in front: whether it is a minus, and what follows. -/
def readSign : List Char → Bool × List Char
  | '+' :: cs => (false, cs)
  | '-' :: cs => (true, cs)
  | cs => (false, cs)

/-- The exponent in front, if there is one, and what follows. -/
def readExponent (cs : List Char) : Int × List Char :=
  match cs with
  | [] => (0, [])
  | c :: rest =>
    if c = 'e' || c = 'E' then
      let (negative, rest) := readSign rest
      let ds := rest.takeWhile isDigit
      if ds.isEmpty then (0, cs)
      else
        let n : Int := digitsValue ds
        (if negative then -n else n, rest.dropWhile isDigit)
    else (0, cs)

/-- The longest decimal literal without sign in front, and what follows. -/
def readLiteral? (cs : List Char) : Option (Literal × List Char) :=
  let whole := cs.takeWhile isDigit
  let rest := cs.dropWhile isDigit
  let (fraction, after) :=
    match rest with
    | '.' :: more => (more.takeWhile isDigit, more.dropWhile isDigit)
    | _ => ([], rest)
  if whole.isEmpty && fraction.isEmpty then none
  else
    let (exponent, rest) := readExponent after
    some (⟨whole, fraction, exponent⟩, rest)

/-- The double of a decimal literal, with a sign or without, that is the whole text. -/
def Decimal.read? (cs : List Char) : Option Float :=
  let (negative, unsigned) := readSign cs
  match readLiteral? unsigned with
  | some (l, []) => some (Double.withSign negative l.value)
  | _ => none

/-! ### Where literals end -/

/-- A byte that is a decimal digit. -/
def isDigitByte (b : UInt8) : Bool := 0x30 ≤ b && b ≤ 0x39

/-- A byte that is a sign. -/
def isSignByte (b : UInt8) : Bool := b == 0x2B || b == 0x2D

/-- A byte that announces an exponent. -/
def isExponentByte (b : UInt8) : Bool := b == 0x65 || b == 0x45

/-- A byte that is a decimal point. -/
def isPointByte (b : UInt8) : Bool := b == 0x2E

/-- The number of digits from an offset on, unless it is behind the end. -/
def digitsFrom? (bs : List UInt8) (i : Nat) : Option Nat :=
  (bytesFrom? bs i).map fun rest => (rest.takeWhile isDigitByte).length

/-- Whether the bytes are a decimal literal without sign. -/
def isLiteral? (bs : List UInt8) : Option Bool := do
  let whole := (bs.takeWhile isDigitByte).length
  let hasPoint := (bs[whole]?).any isPointByte
  let fraction ← if hasPoint then digitsFrom? bs (whole + 1) else some 0
  let index := if hasPoint then whole + 1 + fraction else whole
  if whole = 0 && fraction = 0 then some false
  else if (bs[index]?).any isExponentByte then
    let start := if (bs[index + 1]?).any isSignByte then index + 2 else index + 1
    let exponent ← digitsFrom? bs start
    some (exponent ≠ 0 && start + exponent = bs.length)
  else some (index = bs.length)

/-- Where the longest decimal literal ends whose digits stand from an offset on, if there is
one. -/
def literalEnd? (bs : List UInt8) (start : Nat) : Option (Option Nat) := do
  let whole ← digitsFrom? bs start
  let point := start + whole
  let hasPoint := (bs[point]?).any isPointByte
  let fraction ← if hasPoint then digitsFrom? bs (point + 1) else some 0
  if whole = 0 && fraction = 0 then some none
  else
    let stop := if hasPoint then point + 1 + fraction else point
    if (bs[stop]?).any isExponentByte then
      let sign := if (bs[stop + 1]?).any isSignByte then 1 else 0
      let exponent ← digitsFrom? bs (stop + 1 + sign)
      some (some (if exponent = 0 then stop else stop + 1 + sign + exponent))
    else some (some stop)

/-! ### The three ways of reading -/

/-- The characters of the word for infinity. -/
def infinityWord : List Char := "Infinity".toList

/-- Drops the blanks that a list starts with. -/
def skipBlanks (cs : List Char) : List Char := cs.dropWhile isBlank

/-- Drops the blanks at both ends. -/
def trimBlanks (cs : List Char) : List Char :=
  ((skipBlanks cs).reverse.dropWhile isBlank).reverse

/-- The radix that two characters announce. -/
def radixMark? : List Char → Option Nat
  | ['0', 'x'] | ['0', 'X'] => some 16
  | ['0', 'o'] | ['0', 'O'] => some 8
  | ['0', 'b'] | ['0', 'B'] => some 2
  | _ => none

/-- Appends digits to a number; not-a-number if there is a character that is no digit. -/
def Radix.append (radix : Nat) : Float → List Char → Float
  | x, [] => x
  | x, c :: cs =>
    match digit? radix c with
    | some d => append radix (x * radix.toFloat + d.toFloat) cs
    | none => Double.nan

section Readers

variable (literal? : List Char → Option Float)

/-- The number that a text without blanks at its ends denotes as a whole. -/
def readUnblank? (cs : List Char) : Option Float := do
  match (keepBytes? 2 cs).bind radixMark? with
  | some radix =>
    let digits ← skipBytes? 2 cs
    some (if digits.isEmpty then Double.nan else Radix.append radix 0.0 digits)
  | none =>
    let first ← (cs.flatMap String.utf8EncodeChar)[0]?
    let unsigned ← if isSignByte first then skipBytes? 1 cs else some cs
    let negative := first == 0x2D
    if unsigned = infinityWord then some (Double.withSign negative Double.infinity)
    else if ← isLiteral? (unsigned.flatMap String.utf8EncodeChar) then
      some (((literal? unsigned).map (Double.withSign negative)).getD Double.nan)
    else some Double.nan

/-- The number that a text denotes as a whole, if decimal literals are read in the given way:
nothing is zero, and what is no number is not-a-number. -/
def readNumber? (cs : List Char) : Option Float :=
  let trimmed := trimBlanks cs
  if trimmed.isEmpty then some 0.0 else readUnblank? literal? trimmed

/-- The longest decimal number with an optional sign that the text starts with, if decimal literals
are read in the given way. -/
def readDecimal? (cs : List Char) : Option Float := do
  let text := skipBlanks cs
  let bs := text.flatMap String.utf8EncodeChar
  let start := if (bs[0]?).any isSignByte then 1 else 0
  if infinityWord.isPrefixOf (← skipBytes? start text) then
    let first ← bs[0]?
    some (Double.withSign (first == 0x2D) Double.infinity)
  else
    match ← literalEnd? bs start with
    | none => some Double.nan
    | some stop => some ((literal? (← keepBytes? stop text)).getD Double.nan)

end Readers

/-- The number that a text denotes as a whole. -/
def readNumber (cs : List Char) : Float := (readNumber? Decimal.read? cs).getD Double.nan

/-- The longest decimal number with an optional sign that the text starts with. -/
def readDecimal (cs : List Char) : Float := (readDecimal? Decimal.read? cs).getD Double.nan

/-- Drops the mark of a hexadecimal number. -/
def dropHexMark? : List Char → Option (List Char)
  | '0' :: 'x' :: cs => some cs
  | '0' :: 'X' :: cs => some cs
  | _ => none

/-- The radix that is meant and the text behind its mark.  The radix zero stands for ten, or for
sixteen behind the mark of a hexadecimal number. -/
def behindMark (radix : Int) (cs : List Char) : Nat × List Char :=
  if radix = 0 || radix = 16 then
    match dropHexMark? cs with
    | some rest => (16, rest)
    | none => (if radix = 0 then 10 else 16, cs)
  else (radix.toNat, cs)

/-- The number that the digits in front denote; not-a-number if there are none. -/
def readDigits (radix : Nat) (cs : List Char) : Float :=
  let ds := cs.takeWhile fun c => (Radix.digit? radix c).isSome
  if ds.isEmpty then Double.nan
  else if radix = 10 then (Decimal.read? ds).getD Double.nan
  else Radix.value radix (ds.filterMap (Radix.digit? radix))

/-- The longest integer in the given radix that the text starts with. -/
def readInteger (cs : List Char) (radix : Int) : Float :=
  let (negative, unsigned) := readSign (skipBlanks cs)
  if radix ≠ 0 && (radix < 2 || 36 < radix) then Double.nan
  else
    let (radix, digits) := behindMark radix unsigned
    Double.withSign negative (readDigits radix digits)

end Scriptlet
