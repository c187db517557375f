import Scriptlet.Evaluation.Machine
import Scriptlet.Value.Conversion

/-!
# Conversions

Objects are converted by methods of their own, or else by what kind of object they are; all other
values convert by themselves.

## Main definitions

* `Machine.toPrimitive`, `Machine.toNumber`, `Machine.toText`, `Machine.toKey` — conversions.
* `Machine.join` — the texts of the elements of an array.
* `Machine.primitiveOf` — the value that an object stands for.
* `Machine.isLess?`, `Machine.isLoosely` — order and equality with conversion.
-/

namespace Scriptlet

/-- The length that no text exceeds. -/
def maxTextLength : Nat := 2 ^ 29 - 24

/-- The names of the methods that convert an object, in the order in which they are tried. -/
def Hint.methods : Hint → String × String
  | .text => ("toString", "valueOf")
  | .number => ("valueOf", "toString")

namespace Eval

/-- The number of a value that is no object. -/
def numberOf (v : Value) : Eval Float :=
  match v.toNumber? with
  | some x => return x
  | none => raise .typeError "Cannot convert a Symbol value to a number"

/-- The text of a value that is no object. -/
def textOf (v : Value) : Eval Text :=
  match v.toText? with
  | some t => return t
  | none => raise .typeError "Cannot convert a Symbol value to a string"

/-- Throws the error for a text that would be too long. -/
def tooLong {α : Type} : Eval α := raise .rangeError "Invalid string length"

end Eval

open Eval

namespace Machine

/-- The value that a value stands for, which is no object. -/
def toPrimitive (m : Machine) (v : Value) (hint : Hint) : Eval Value :=
  match v with
  | .object o => m.run (.primitive o hint)
  | _ => return v

/-- The number of a value. -/
def toNumber (m : Machine) (v : Value) : Eval Float := do numberOf (← m.toPrimitive v .number)

/-- The text of a value. -/
def toText (m : Machine) (v : Value) : Eval Text := do textOf (← m.toPrimitive v .text)

/-- The integer towards zero of a value; an infinity is one. -/
def toInteger (m : Machine) (v : Value) : Eval Float := do
  let x ← m.toNumber v
  return if x.isNaN || x == 0 then 0 else Double.trunc x

/-- The greatest length that a value can stand for. -/
def maxLength : Nat := 2 ^ 53 - 1

/-- The length that a value stands for. -/
def toLength (m : Machine) (v : Value) : Eval Nat := do
  let x ← m.toInteger v
  return if x ≤ 0 then 0 else min ((Double.naturalPart? x).getD maxLength) maxLength

/-- The property key of a value. -/
def toKey (m : Machine) (v : Value) : Eval PropertyKey := do
  match ← m.toPrimitive v .text with
  | .symbol s => return .symbol s
  | w => return .text (← textOf w)

/-! ### Texts of objects -/

/-- How far an array has been put together. -/
structure Joining where
  /-- The text so far. -/
  text : Text
  /-- The length of the whole text as far as it is known. -/
  length : Nat
  /-- How many separators there are so far. -/
  separators : Nat
  /-- The index at which to go on. -/
  next : Nat

/-- The text with the separators up to the given number of them. -/
def Joining.separated (j : Joining) (separator : Text) (count : Nat) : Text :=
  j.text ++ separator.replicate (count - j.separators)

/-- Adds the next element of an array, unless there is none below the given length. -/
def joinNext (m : Machine) (o : ObjectId) (separator : Text) (length : Nat) (j : Joining) :
    Eval (Sum Joining Text) := do
  match ((← get).elements o).nextPresent? j.next with
  | none => return .inr (j.separated separator (length - 1))
  | some (i, v) =>
    if length ≤ i then return .inr (j.separated separator (length - 1))
    else if v.isNullish then return .inl { j with next := i + 1 }
    else
      let t ← m.toText v
      let total := j.length + t.length
      if maxTextLength < total then tooLong
      else return .inl ⟨j.separated separator i ++ t, total, i, i + 1⟩

/-- The texts of the elements of an array with a separator between them. -/
def joinElements (m : Machine) (o : ObjectId) (separator : Text) : Eval Text := do
  let length := ((← get).elements o).length
  let separators := (length - 1) * separator.length
  if maxTextLength < separators then tooLong
  else iterate (m.joinNext o separator length) (length + 1) ⟨.empty, separators, 0, 0⟩

/-- The texts of the elements of an array with a separator between them; an array inside itself has
no text. -/
def join (m : Machine) (o : ObjectId) (separator : Text) : Eval Text := do
  if (← get).joining.contains o then return .empty
  else
    modify fun a => { a with joining := o :: a.joining }
    ending (m.joinElements o separator) fun a => { a with joining := a.joining.erase o }

/-- The text of a property of an error, or another one if it is undefined. -/
def errorPart (m : Machine) (o : ObjectId) (name : String) (missing : Text) : Eval Text := do
  match ← getFrom o name with
  | .undefined => return missing
  | v => m.toText v

/-- The name and the message of an error. -/
def errorText (m : Machine) (o : ObjectId) : Eval Text := do
  let name ← m.errorPart o "name" "Error"
  let message ← m.errorPart o "message" .empty
  return if name.isEmpty then message
    else if message.isEmpty then name
    else Text.ofString (name.toString ++ ": " ++ message.toString)

/-- The text of an object that has no method of its own for it. -/
def contentText (m : Machine) (o : ObjectId) : Eval Text := do
  match (← object o).kind with
  | .array _ => m.join o ","
  | .error _ => m.errorText o
  | .closure _ | .builtin _ => return Text.ofString ((← get).functionSource o)
  | .ordinary => return "[object Object]"

/-- What a method that an object itself has makes of it, if there is one and the result is no
object. -/
def convertedBy (m : Machine) (o : ObjectId) (name : String) : Eval (Option Value) := do
  match (← object o).ownValue? name with
  | none => return none
  | some method =>
    match (← get).function? method with
    | none => return none
    | some f =>
      match ← m.call f (.object o) [] with
      | .object _ => return none
      | v => return some v

/-- The value other than an object that an object stands for. -/
def primitiveOf (m : Machine) (o : ObjectId) (hint : Hint) : Eval Value := do
  match ← m.convertedBy o hint.methods.1 with
  | some v => return v
  | none =>
    match ← m.convertedBy o hint.methods.2 with
    | some v => return v
    | none => return .text (← m.contentText o)

/-! ### Comparison -/

/-- Whether one value that is no object is less than another; nothing if they have no order. -/
def isLessPrimitive? (v w : Value) : Eval (Option Bool) := do
  match v, w with
  | .text s, .text t => return some (s.compare t == .lt)
  | _, _ =>
    let x ← numberOf v
    let y ← numberOf w
    return if x.isNaN || y.isNaN then none else some (x < y)

/-- Whether one value is less than another, of which the first is converted first; nothing if they
have no order. -/
def isLess? (m : Machine) (v w : Value) : Eval (Option Bool) := do
  let p ← m.toPrimitive v .number
  isLessPrimitive? p (← m.toPrimitive w .number)

/-- Whether the second of two values is less than the first one, which is converted first; nothing
if they have no order. -/
def isGreater? (m : Machine) (v w : Value) : Eval (Option Bool) := do
  let p ← m.toPrimitive v .number
  isLessPrimitive? (← m.toPrimitive w .number) p

/-- Equality with conversion: an object is converted if the other value is none and not nullish. -/
def isLoosely (m : Machine) (v w : Value) : Eval Bool := do
  match v, w with
  | .object _, .object _ => return v.isStrictly w
  | .object _, _ =>
    if w.isNullish then return false
    else return (← m.toPrimitive v .number).isLoosely w
  | _, .object _ =>
    if v.isNullish then return false
    else return v.isLoosely (← m.toPrimitive w .number)
  | _, _ => return v.isLoosely w

end Machine

end Scriptlet
