import Scriptlet.Builtin.Arrays
import Scriptlet.Builtin.Numbers
import Scriptlet.Builtin.Objects
import Scriptlet.Builtin.Texts

/-!
# Calling built-in functions

## Main definitions

* `Machine.make` — constructors, called with `new` or without.
* `Machine.callBuiltin` — all built-in functions.
-/

namespace Scriptlet

namespace Eval

/-- The cause that a value gives for an error, if it gives one. -/
def causeOf (v : Value) : Eval (Option Value) :=
  match v with
  | .object id => do return (← object id).ownValue? "cause"
  | _ => return none

/-- Gives an error its cause, if there is one. -/
def setCause (id : ObjectId) : Option Value → Eval Unit
  | none => return
  | some v =>
    modifyObject id fun o => { o with properties := o.properties.push (.hidden "cause" v) }

end Eval

open Eval

namespace Machine

/-- The message that a value gives for an error, unless it is undefined. -/
def messageOf (m : Machine) (v : Value) : Eval (Option Text) := do
  if v.isUndefined then return none else return some (← m.toText v)

/-- A new error with a message and a cause. -/
def makeError (m : Machine) (kind : ErrorKind) (args : List Value) : Eval Value := do
  let message ← m.messageOf (argument args 0)
  let cause ← causeOf (argument args 1)
  let id ← errorObject kind message
  setCause id cause
  return .object id

/-- A new array: of the length that the only argument is, or of the arguments. -/
def makeArray (args : List Value) : Eval Value := do
  match args with
  | [.number x] =>
    let n := Double.toUInt32 x
    if Float.ofNat n == x then return .object (← allocateArray (.ofLength n)) else invalidLength
  | _ => arrayOf args

/-- Calls a constructor; a symbol has a text only without `new`. -/
def make (m : Machine) (c : Constructor) (isNew : Bool) (args : List Value) : Eval Value := do
  match c, args with
  | .object, _ =>
    if (argument args 0).isNullish then return .object (← emptyObject) else return argument args 0
  | .array, _ => makeArray args
  | .string, [] => return .text .empty
  | .string, .symbol s :: _ =>
    if isNew then return .text (← m.toText (.symbol s)) else return .ofString s.display
  | .string, v :: _ => return .text (← m.toText v)
  | .number, [] => return .number 0
  | .number, v :: _ => return .number (← m.toNumber v)
  | .boolean, _ => return .boolean (argument args 0).isTrue
  | .error kind, _ => m.makeError kind args

/-- Calls a built-in function. -/
def callBuiltin (m : Machine) (b : Builtin) (this : Value) (args : List Value) : Eval Value :=
  match b with
  | .constructor c => m.make c false args
  | .object f => m.objectFunction f args
  | .array f => m.arrayFunction f args
  | .number f => return .boolean (f.holds (argument args 0))
  | .math f => m.mathFunction f args
  | .global f => m.globalFunction f args
  | .arrayMethod f => m.arrayMethod f this args
  | .textMethod f => m.textMethod f this args
  | .numberMethod f => m.numberMethod f this args
  | .booleanMethod f => booleanMethod f this
  | .functionMethod f => m.functionMethod f this args
  | .objectMethod f => m.objectMethod f this args
  | .errorToString => m.errorToString this

end Machine

end Scriptlet
