import Scriptlet.Text.Basic

/-!
# Blanks

The two classes of white space that the language refers to, and trimming by them.

## Main definitions

* `isWhiteSpace` — the Unicode property `White_Space`, which delimits wrapped expressions.
* `isBlank` — the characters that trimming and the reading of numbers skip.
* `Text.trimAt` — removal of blanks at one end or at both.
-/

namespace Scriptlet

/-- Code points with the Unicode property `White_Space`. -/
def isWhiteSpacePoint (p : Nat) : Bool :=
  (0x09 ≤ p && p ≤ 0x0D) || p == 0x20 || p == 0x85 || p == 0xA0 || p == 0x1680 ||
    (0x2000 ≤ p && p ≤ 0x200A) || p == 0x2028 || p == 0x2029 || p == 0x202F || p == 0x205F ||
    p == 0x3000

/-- Code points that trimming removes: blanks and ends of lines that are listed, and what is white
space besides. -/
def isBlankPoint (p : Nat) : Bool :=
  [0x09, 0x0B, 0x0C, 0xFEFF, 0x0A, 0x0D, 0x2028, 0x2029].contains p || isWhiteSpacePoint p

/-- Characters with the Unicode property `White_Space`. -/
def isWhiteSpace (c : Char) : Bool := isWhiteSpacePoint c.toNat

/-- Characters that trimming removes. -/
def isBlank (c : Char) : Bool := isBlankPoint c.toNat

namespace Text

/-- Code units that trimming removes. -/
def isBlankUnit (u : UInt16) : Bool := isBlankPoint u.toNat

/-- The ends of a text at which it is trimmed. -/
inductive Ends where
  /-- The front only. -/
  | front
  /-- The back only. -/
  | back
  /-- Both ends. -/
  | both
deriving DecidableEq

/-- The text without the blanks at the given ends.  From the back only what is not removed at the
front can be removed. -/
def trimAt (ends : Ends) (t : Text) : Text :=
  let us := t.units.toList
  let isKept (u : UInt16) : Bool := !isBlankUnit u
  let start := if ends = .back then 0 else (us.findIdx? isKept).getD us.length
  let stop :=
    if ends = .front then us.length
    else
      match us.reverse.findIdx? isKept with
      | some i => us.length - i
      | none => start
  t.substring start stop

/-- The text without the blanks that it starts with. -/
def trimStart (t : Text) : Text := t.trimAt .front

/-- The text without the blanks that it ends with. -/
def trimEnd (t : Text) : Text := t.trimAt .back

/-- The text without the blanks at either end. -/
def trim (t : Text) : Text := t.trimAt .both

end Text

end Scriptlet
