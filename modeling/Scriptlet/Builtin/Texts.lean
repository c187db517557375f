import Scriptlet.Builtin.Arguments
import Scriptlet.Text.Blank
import Scriptlet.Text.CaseMap

/-!
# Methods of texts

## Main definitions

* `Text.split`, `Text.filling` — pieces of a text, and a text repeated up to a length.
* `Machine.textMethod` — the methods.
-/

namespace Scriptlet

namespace Text

/-- The pieces from offset `i` on between the places where `separator` stands, at most `fuel` cuts
later. -/
def splitFrom (t separator : Text) : Nat → Nat → List Text
  | 0, i => [t.substring i t.length]
  | fuel + 1, i =>
    match t.indexOf? separator i with
    | some j => t.substring i j :: splitFrom t separator fuel (j + separator.length)
    | none => [t.substring i t.length]

/-- The code units as texts. -/
def characters (t : Text) : List Text := t.units.toList.map fun u => ⟨#[u]⟩

/-- The pieces between the places where `separator` stands; between code units stands the text
without any. -/
def split (t separator : Text) : List Text :=
  if separator.isEmpty then t.characters else t.splitFrom separator t.length 0

/-- The text repeated up to a length. -/
def filling (t : Text) (length : Nat) : Text :=
  (t.replicate (length / t.length + 1)).substring 0 length

end Text

namespace Eval

/-- Throws the error for a method that is called on what is no text. -/
def requireText (f : TextMethod) (this : Value) : Eval Value :=
  if this.isText then return this
  else raise .typeError ("String.prototype." ++ f.name ++ " requires that 'this' be a String")

end Eval

open Eval

namespace Machine

/-- The text that a method is called on. -/
def thisText (m : Machine) (f : TextMethod) (this : Value) : Eval Text :=
  if this.isNullish then
    raise .typeError ("String.prototype." ++ f.name ++ " called on null or undefined")
  else m.toText this

/-- What a text is filled up with to the length in the first argument: the second argument or
blanks. -/
def padding (m : Machine) (t : Text) (args : List Value) : Eval Text := do
  let length ← m.toLength (argument args 0)
  if length ≤ t.length then return .empty
  else
    let filler ← m.textOr (argument args 1) " "
    if filler.isEmpty then return .empty
    else if maxTextLength < length then tooLong
    else return filler.filling (length - t.length)

/-- A text repeated as often as a value says. -/
def repeated (m : Machine) (t : Text) (v : Value) : Eval Text := do
  let x ← m.toInteger v
  match Double.naturalPart? x with
  | none => raise .rangeError ("Invalid count value: " ++ Double.toText x)
  | some n =>
    if x < 0 then raise .rangeError ("Invalid count value: " ++ Double.toText x)
    else if maxTextLength < t.length * n then tooLong
    else return t.replicate n

/-- How many pieces a value allows. -/
def limitOf (m : Machine) (v : Value) : Eval Nat := do
  if v.isUndefined then return maxArrayLength else return Double.toUInt32 (← m.toNumber v)

/-- The pieces of a text between separators, at most as many as the second argument says. -/
def pieces (m : Machine) (t : Text) (args : List Value) : Eval (List Text) := do
  let limit ← m.limitOf (argument args 1)
  if (argument args 0).isUndefined then return [t].take limit
  else
    let separator ← m.toText (argument args 0)
    return (t.split separator).take limit

/-- The character at an index. -/
def charAt (m : Machine) (t : Text) (v : Value) : Eval Text := do
  let x ← m.toInteger v
  if x < 0 then return .empty
  else return ((Double.naturalPart? x).bind t.charAt?).getD .empty

/-- The place from which a text is searched, and what for. -/
def search (m : Machine) (t : Text) (args : List Value) : Eval (Text × Nat) := do
  let needle ← m.toText (argument args 0)
  return (needle, clampedIndex (← m.toInteger (argument args 1)) t.length)

/-- Calls a method on a text. -/
def textMethodOn (m : Machine) (f : TextMethod) (t : Text) (args : List Value) : Eval Value := do
  match f with
  | .charAt => return .text (← m.charAt t (argument args 0))
  | .endsWith =>
    let needle ← m.toText (argument args 0)
    -- The needle can only stand right in front of the end.
    let stop ← m.indexOr (argument args 1) (clampedIndex · t.length) t.length
    return .boolean (needle.length ≤ stop && t.substring (stop - needle.length) stop == needle)
  | .includes =>
    let (needle, start) ← m.search t args
    return .boolean (t.indexOf? needle start).isSome
  | .indexOf =>
    let (needle, start) ← m.search t args
    match t.indexOf? needle start with
    | some i => return .ofNat i
    | none => return .number (-1)
  | .padEnd => return .text (t ++ (← m.padding t args))
  | .padStart => return .text ((← m.padding t args) ++ t)
  | .repeat => return .text (← m.repeated t (argument args 0))
  | .slice =>
    let start := relativeIndex (← m.toInteger (argument args 0)) t.length
    let stop ← m.indexOr (argument args 1) (relativeIndex · t.length) t.length
    return .text (t.substring start stop)
  | .split => arrayOf ((← m.pieces t args).map .text)
  | .startsWith =>
    let (needle, start) ← m.search t args
    return .boolean (t.occursAt needle start)
  | .substring =>
    let start := clampedIndex (← m.toInteger (argument args 0)) t.length
    let stop ← m.indexOr (argument args 1) (clampedIndex · t.length) t.length
    -- Positions in the wrong order are exchanged, unlike those of `slice`.
    return .text (t.substring (min start stop) (max start stop))
  | .toLowerCase => return .text t.toLower
  | .toUpperCase => return .text t.toUpper
  | .trim => return .text t.trim
  | .trimEnd => return .text t.trimEnd
  | .trimStart => return .text t.trimStart
  | .toString | .valueOf => return .text t

/-- Calls a method of texts. -/
def textMethod (m : Machine) (f : TextMethod) (this : Value) (args : List Value) :
    Eval Value := do
  match f with
  | .toString | .valueOf => requireText f this
  | _ => m.textMethodOn f (← m.thisText f this) args

end Machine

end Scriptlet
