import Scriptlet.Source
import Scriptlet.Text.Blank

/-!
# Marked expressions

A text is marked as an expression by `<%` and `%>` with blanks inside them; `<%~` says besides that
what comes out may be evaluated again.

## Main definitions

* `marked?` — the expression of a marked text, blanks included.
* `isRecursive` — whether the result may be evaluated again.
* `readMarked` — the source and the expression of a marked text.
-/

namespace Scriptlet

/-- The characters without blanks at their start. -/
def trimStart (cs : List Char) : List Char := cs.dropWhile isWhiteSpace

/-- The characters without blanks at their end. -/
def trimEnd (cs : List Char) : List Char := (cs.reverse.dropWhile isWhiteSpace).reverse

/-- Whether there is a blank at the start. -/
def startsBlank (cs : List Char) : Bool := cs.head?.any isWhiteSpace

/-- What follows the given characters, if the list starts with them. -/
def following? : List Char → List Char → Option (List Char)
  | [], cs => some cs
  | _ :: _, [] => none
  | m :: mark, c :: cs => if m = c then following? mark cs else none

/-- The expression of a marked text: what is between the marks, which has blanks at both ends. -/
def marked? (cs : List Char) : Option (List Char) := do
  let cs ← following? ['<', '%'] (trimStart cs)
  let cs := (following? ['~'] cs).getD cs
  let inner ← (following? ['>', '%'] (trimEnd cs).reverse).map List.reverse
  if startsBlank inner && startsBlank inner.reverse then some inner else none

/-- Whether a text is marked as an expression. -/
def isMarked (cs : List Char) : Bool := (marked? cs).isSome

/-- Whether a text is marked so that its result may be evaluated again. -/
def isRecursive (cs : List Char) : Bool :=
  match following? ['<', '%', '~'] (trimStart cs) with
  | some rest => startsBlank rest
  | none => false

/-- The source and the expression of a marked text. -/
def readMarked (text : String) (typescript : Bool) : Except Rejection (Source × Expr) := do
  match marked? text.toList with
  | none => .error (.faulty (.notMarked text) [])
  | some cs =>
    let source := Source.ofString (String.ofList cs)
    return (source, ← source.expression typescript)

end Scriptlet
