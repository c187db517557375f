/-!
# Text

A text is a sequence of UTF-16 code units, in which surrogates need not be paired.  Lengths and
positions count code units.

## Main definitions

* `Text` — the type, with `length`, `unitAt?`, `substring`, `indexOf?`, `replicate` and `++`.
* `Text.ofString`, `Text.toString` — encoding of Unicode text, and decoding with lone surrogates
  shown as U+FFFD.
* `Text.codePoints` — the code points, a lone surrogate standing for itself.
* `Text.ofLiteral` — decoding of a spelling in which surrogates are escaped behind U+FFFD.
-/

namespace Scriptlet

/-- A sequence of UTF-16 code units. -/
structure Text where
  /-- The code units, in order. -/
  units : Array UInt16
deriving DecidableEq, Hashable, Inhabited

/-- A code unit that opens a surrogate pair. -/
def isHighSurrogate (u : UInt16) : Bool := 0xD800 ≤ u && u < 0xDC00

/-- A code unit that closes a surrogate pair. -/
def isLowSurrogate (u : UInt16) : Bool := 0xDC00 ≤ u && u < 0xE000

/-- The code point written as the pair `h`, `l`. -/
def surrogatePair (h l : UInt16) : Nat :=
  0x10000 + (h.toNat - 0xD800) * 0x400 + (l.toNat - 0xDC00)

namespace Text

/-- The string without code units. -/
def empty : Text := ⟨#[]⟩

instance : EmptyCollection Text := ⟨empty⟩

/-- The number of code units. -/
def length (t : Text) : Nat := t.units.size

/-- Whether there are no code units. -/
def isEmpty (t : Text) : Bool := t.units.isEmpty

/-- The text with exactly these code units. -/
def ofUnits (us : List UInt16) : Text := ⟨us.toArray⟩

/-- Appends the code units of a code point. -/
def pushPoint (t : Text) (p : Nat) : Text :=
  if p < 0x10000 then ⟨t.units.push p.toUInt16⟩
  else ⟨(t.units.push (0xD800 + (p - 0x10000) / 0x400).toUInt16).push
    (0xDC00 + (p - 0x10000) % 0x400).toUInt16⟩

/-- The UTF-16 encoding of a list of characters. -/
def ofChars (cs : List Char) : Text := cs.foldl (fun t c => t.pushPoint c.toNat) empty

/-- The UTF-16 encoding of Unicode text. -/
def ofString (s : String) : Text := ofChars s.toList

instance : Coe String Text := ⟨ofString⟩

/-- Concatenation. -/
def append (s t : Text) : Text := ⟨s.units ++ t.units⟩

instance : Append Text := ⟨append⟩

/-- The code unit at `i`. -/
def unitAt? (t : Text) (i : Nat) : Option UInt16 := t.units[i]?

/-- The code unit at `i` as a text of length one. -/
def charAt? (t : Text) (i : Nat) : Option Text := (t.unitAt? i).map fun u => ⟨#[u]⟩

/-- The code units from `i` up to but not including `j`, cut to the length of the text. -/
def substring (t : Text) (i j : Nat) : Text := ⟨t.units.extract i j⟩

/-- Whether `count` units of `needle` from offset `k` on stand in `t` at offset `i + k`. -/
def agreesFrom (t needle : Text) (i : Nat) : Nat → Nat → Bool
  | 0, _ => true
  | count + 1, k => t.units[i + k]? == needle.units[k]? && agreesFrom t needle i count (k + 1)

/-- Whether `needle` stands in `t` at offset `i`. -/
def occursAt (t needle : Text) (i : Nat) : Bool :=
  decide (i + needle.length ≤ t.length) && t.agreesFrom needle i needle.length 0

/-- The first of `count` offsets from `i` on where `needle` stands in `t`. -/
def indexFrom? (t needle : Text) : Nat → Nat → Option Nat
  | 0, _ => none
  | count + 1, i => if t.occursAt needle i then some i else indexFrom? t needle count (i + 1)

/-- The first offset at or after `start` where `needle` stands in `t`. -/
def indexOf? (t needle : Text) (start : Nat) : Option Nat :=
  t.indexFrom? needle (t.length + 1 - needle.length - start) start

/-- The text written `n` times. -/
def replicate (t : Text) (n : Nat) : Text :=
  if t.isEmpty then empty
  else ⟨n.fold (fun _ _ acc => acc ++ t.units) (Array.mkEmpty (n * t.length))⟩

/-- Order by code units: the first differing unit decides, and a shorter text comes first. -/
def compare (s t : Text) : Ordering :=
  go (s.length + 1) 0
where
  /-- Compares from offset `i` on; `fuel` bounds the units still to be compared. -/
  go : Nat → Nat → Ordering
    | 0, _ => .eq
    | fuel + 1, i =>
      match s.units[i]?, t.units[i]? with
      | some a, some b => if a < b then .lt else if b < a then .gt else go fuel (i + 1)
      | some _, none => .gt
      | none, some _ => .lt
      | none, none => .eq

instance : Ord Text := ⟨compare⟩

/-- Appends to `acc` the code points of a list of units: a high surrogate followed by a low one is
one code point, and every other unit stands for itself. -/
def decodeUnits (acc : Array Nat) : List UInt16 → Array Nat
  | [] => acc
  | [u] => acc.push u.toNat
  | u :: v :: rest =>
    if isHighSurrogate u && isLowSurrogate v then decodeUnits (acc.push (surrogatePair u v)) rest
    else decodeUnits (acc.push u.toNat) (v :: rest)

/-- The code points, a lone surrogate standing for itself. -/
def codePoints (t : Text) : Array Nat := decodeUnits #[] t.units.toList

/-- Whether a code point is a surrogate, which is no character. -/
def isSurrogatePoint (p : Nat) : Bool := 0xD800 ≤ p && p < 0xE000

/-- The character with code point `p`, or U+FFFD for a surrogate. -/
def charOfPoint (p : Nat) : Char := if isSurrogatePoint p then '\uFFFD' else Char.ofNat p

/-- No surrogate is unpaired. -/
def isWellFormed (t : Text) : Bool := t.codePoints.all fun p => !isSurrogatePoint p

/-- The text as Unicode text; a lone surrogate reads as U+FFFD. -/
def toString (t : Text) : String :=
  t.codePoints.foldl (fun s p => s.push (charOfPoint p)) ""

instance : ToString Text := ⟨toString⟩

/-- Whether the text is the encoding of `s`. -/
def isString (t : Text) (s : String) : Bool := t == ofString s

/-- Texts joined without separator. -/
def concat (ts : List Text) : Text := ⟨ts.foldl (fun acc t => acc ++ t.units) #[]⟩

/-! ### Spellings with escaped surrogates -/

/-- The value of a hexadecimal digit. -/
def hexDigit? (c : Char) : Option Nat :=
  if '0' ≤ c && c ≤ '9' then some (c.toNat - 48)
  else if 'a' ≤ c && c ≤ 'f' then some (c.toNat - 87)
  else if 'A' ≤ c && c ≤ 'F' then some (c.toNat - 55)
  else none

/-- The value of four characters read as a hexadecimal number; the first may be a plus sign. -/
def hexQuad? (a b c d : Char) : Option Nat := do
  let h ← if a = '+' then some 0 else hexDigit? a
  let x ← hexDigit? b
  let y ← hexDigit? c
  let z ← hexDigit? d
  pure (((h * 16 + x) * 16 + y) * 16 + z)

/-- Decodes a spelling in which each escaped unit is U+FFFD followed by four hexadecimal digits.
A U+FFFD with no such digits behind it stands for itself. -/
def decodeEscaped (acc : Text) : List Char → Text
  | [] => acc
  | '\uFFFD' :: a :: b :: c :: d :: rest =>
    match hexQuad? a b c d with
    | some p => decodeEscaped (acc.pushPoint p) rest
    | none => decodeEscaped (acc.pushPoint 0xFFFD) (a :: b :: c :: d :: rest)
  | c :: rest => decodeEscaped (acc.pushPoint c.toNat) rest

/-- The text of a spelling; `escaped` says whether surrogates are escaped in it. -/
def ofLiteral (s : String) (escaped : Bool) : Text :=
  if escaped then decodeEscaped empty s.toList else ofString s

end Text

end Scriptlet
