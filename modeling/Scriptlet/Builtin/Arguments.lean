import Scriptlet.Evaluation.Conversion

/-!
# Arguments of built-in functions

## Main definitions

* `argument` — an argument by its place.
* `relativeIndex`, `clampedIndex` — numbers as indices below a length.
* `Eval.callable` — a value as a function.
-/

namespace Scriptlet

/-- The argument at a place; undefined if it is missing. -/
def argument (args : List Value) (i : Nat) : Value := args.getD i .undefined

/-- An integer or an infinity as an index up to a length: what is negative counts from the end. -/
def relativeIndex (x : Float) (length : Nat) : Nat :=
  match Double.naturalPart? x with
  | some n => if x < 0 then length - n else min n length
  | none => if x < 0 then 0 else length

/-- An integer or an infinity as an index up to a length: what is negative counts as zero. -/
def clampedIndex (x : Float) (length : Nat) : Nat :=
  if x < 0 then 0 else min ((Double.naturalPart? x).getD length) length

namespace Eval

/-- The function that a value is. -/
def callable (v : Value) : Eval ObjectId := do
  match (← get).function? v with
  | some id => return id
  | none => raise .typeError ((← get).display v ++ " is not a function")

/-- Throws the error for a value that stands for the lack of one. -/
def notAnObject {α : Type} : Eval α :=
  raise .typeError "Cannot convert undefined or null to object"

end Eval

open Eval

namespace Machine

/-- An integer argument, or the given one if it is undefined. -/
def integerOr (m : Machine) (v : Value) (missing : Float) : Eval Float :=
  if v.isUndefined then return missing else m.toInteger v

/-- An index argument, or the given one if it is undefined. -/
def indexOr (m : Machine) (v : Value) (convert : Float → Nat) (missing : Nat) : Eval Nat := do
  if v.isUndefined then return missing else return convert (← m.toInteger v)

/-- A text argument, or the given one if it is undefined. -/
def textOr (m : Machine) (v : Value) (missing : Text) : Eval Text :=
  if v.isUndefined then return missing else m.toText v

end Machine

end Scriptlet
