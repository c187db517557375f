/-!
# Slices of encoded text

Offsets into encoded text count bytes.  Text is cut at an offset only where a character ends, and a
list of bytes only at an offset that is not behind its end.

## Main definitions

* `skipBytes?`, `keepBytes?` — Unicode text cut at an offset in bytes.
* `bytesFrom?` — bytes from an offset on.
-/

namespace Scriptlet

/-- The characters behind the first bytes, if the bytes end with a character. -/
def skipBytes? : Nat → List Char → Option (List Char)
  | 0, cs => some cs
  | _ + 1, [] => none
  | n + 1, c :: cs => if c.utf8Size ≤ n + 1 then skipBytes? (n + 1 - c.utf8Size) cs else none

/-- The characters in the first bytes, if the bytes end with a character. -/
def keepBytes? : Nat → List Char → Option (List Char)
  | 0, _ => some []
  | _ + 1, [] => none
  | n + 1, c :: cs =>
    if c.utf8Size ≤ n + 1 then (keepBytes? (n + 1 - c.utf8Size) cs).map (c :: ·) else none

/-- The bytes from an offset on, unless it is behind the end. -/
def bytesFrom? (bs : List UInt8) (i : Nat) : Option (List UInt8) :=
  if i ≤ bs.length then some (bs.drop i) else none

end Scriptlet
