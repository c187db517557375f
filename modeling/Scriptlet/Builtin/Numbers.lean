import Scriptlet.Builtin.Arguments
import Scriptlet.Number.Fixed
import Scriptlet.Number.Radix

/-!
# Built-in functions on numbers and truth values

## Main definitions

* `NumberFunction.holds`, `Machine.mathFunction`, `Machine.globalFunction` — functions.
* `Machine.numberMethod`, `Eval.booleanMethod` — methods.
-/

namespace Scriptlet

/-- The greatest integer up to which all integers are numbers. -/
def maxSafeInteger : Float := 9007199254740991

/-- The value of a function that classifies numbers. -/
def NumberFunction.holds (f : NumberFunction) (v : Value) : Bool :=
  match v with
  | .number x =>
    match f with
    | .isFinite => x.isFinite
    | .isInteger => Double.isIntegral x
    | .isNaN => x.isNaN
    | .isSafeInteger => Double.isIntegral x && x.abs ≤ maxSafeInteger
  | _ => false

namespace Eval

/-- Calls a method of truth values. -/
def booleanMethod (f : BooleanMethod) (this : Value) : Eval Value :=
  match this with
  | .boolean b =>
    match f with
    | .toString => return .ofString (if b then "true" else "false")
    | .valueOf => return this
  | _ =>
    raise .typeError ("Boolean.prototype." ++ f.name ++ " requires that 'this' be a Boolean")

end Eval

open Eval

namespace Machine

/-- The numbers of values. -/
def numbers (m : Machine) : List Value → Eval (List Float)
  | [] => return []
  | v :: rest => do
    let x ← m.toNumber v
    return x :: (← m.numbers rest)

/-- Applies a function to the number of the first argument. -/
def onNumber (m : Machine) (f : Float → Float) (args : List Value) : Eval Value := do
  return .number (f (← m.toNumber (argument args 0)))

/-- Calls a mathematical function. -/
def mathFunction (m : Machine) (f : MathFunction) (args : List Value) : Eval Value := do
  match f with
  | .abs => m.onNumber Float.abs args
  | .ceil => m.onNumber Double.ceil args
  | .floor => m.onNumber Double.floor args
  | .max => return .number ((← m.numbers args).foldl Double.maximum (-Double.infinity))
  | .min => return .number ((← m.numbers args).foldl Double.minimum Double.infinity)
  | .pow =>
    let x ← m.toNumber (argument args 0)
    return .number (Double.power x (← m.toNumber (argument args 1)))
  | .round => m.onNumber Double.roundHalfUp args
  | .sign => m.onNumber Double.sign args
  | .sqrt => m.onNumber Float.sqrt args
  | .trunc => m.onNumber Double.trunc args

/-- Calls a function that is global itself. -/
def globalFunction (m : Machine) (f : GlobalFunction) (args : List Value) : Eval Value := do
  match f with
  | .isFinite => return .boolean (← m.toNumber (argument args 0)).isFinite
  | .isNaN => return .boolean (← m.toNumber (argument args 0)).isNaN
  | .parseFloat => return .number (readDecimal (← m.toText (argument args 0)).toString.toList)
  | .parseInt =>
    let t ← m.toText (argument args 0)
    let radix := Double.toInt32 (← m.toNumber (argument args 1))
    return .number (readInteger t.toString.toList radix)

/-- The text of a number with as many digits behind the point as a value says. -/
def fixedText (m : Machine) (x : Float) (v : Value) : Eval Value := do
  let places ← m.toInteger v
  if places < 0 || 100 < places then
    raise .rangeError "toFixed() digits argument must be between 0 and 100"
  else return .ofString (Double.toFixed x ((Double.naturalPart? places).getD 0))

/-- The text of a number in a radix. -/
def radixText (m : Machine) (x : Float) (v : Value) : Eval Value := do
  let radix ← m.integerOr v 10
  if radix < 2 || 36 < radix then raise .rangeError "toString() radix must be between 2 and 36"
  else if radix == 10 || !x.isFinite then return .ofString (Double.toText x)
  else return .ofString (Double.toRadix x ((Double.naturalPart? radix).getD 10))

/-- Calls a method of numbers. -/
def numberMethod (m : Machine) (f : NumberMethod) (this : Value) (args : List Value) :
    Eval Value := do
  match this with
  | .number x =>
    match f with
    | .toFixed => m.fixedText x (argument args 0)
    | .toString => m.radixText x (argument args 0)
    | .valueOf => return this
  | _ => raise .typeError ("Number.prototype." ++ f.name ++ " requires that 'this' be a Number")

end Machine

end Scriptlet
