import Scriptlet.Text.Basic
import Scriptlet.Unicode.CaseTable

/-!
# Case conversion

Unicode's full case mappings.  The only rule that looks at its surroundings is the one for the
capital sigma, which becomes a final sigma behind a cased letter unless another one follows; it
holds for texts without lone surrogates, and a text with one is converted point by point.

## Main definitions

* `Text.toLower`, `Text.toUpper` — the conversions.
-/

namespace Scriptlet

namespace Text

/-- The text of a list of code points. -/
def ofPoints (ps : List Nat) : Text := ps.foldl pushPoint empty

/-- The nearest point that is not ignorable for case is cased. -/
def casedNext (ps : List Nat) : Bool :=
  match ps.dropWhile Unicode.isCaseIgnorable with
  | [] => false
  | p :: _ => Unicode.isCased p

/-- The lower case of a list of points, `before` being the points to its left, nearest first. -/
def lowerFrom (before : List Nat) : List Nat → List Nat
  | [] => []
  | p :: rest =>
    let image :=
      if p = 0x3A3 then if casedNext before && !casedNext rest then [0x3C2] else [0x3C3]
      else Unicode.lowerPoints p
    image ++ lowerFrom (p :: before) rest

/-- Maps every code point but lone surrogates. -/
def mapPoints (f : Nat → List Nat) (t : Text) : Text :=
  ofPoints (t.codePoints.toList.flatMap fun p => if isSurrogatePoint p then [p] else f p)

/-- The text in lower case. -/
def toLower (t : Text) : Text :=
  if t.isWellFormed then ofPoints (lowerFrom [] t.codePoints.toList)
  else t.mapPoints Unicode.lowerPoints

/-- The text in upper case. -/
def toUpper (t : Text) : Text := t.mapPoints Unicode.upperPoints

end Text

end Scriptlet
