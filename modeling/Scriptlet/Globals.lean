import Scriptlet.Agent.Basic
import Scriptlet.Builtin.Basic

/-!
# Standard globals

## Main definitions

* `standardGlobals` — the names that programs usually get, with new values for them.
-/

namespace Scriptlet

namespace Eval

/-- A new function object for a built-in function. -/
def builtin (b : Builtin) : Eval Value := do return .object (← allocate (.ofKind (.builtin b)))

/-- The property for a built-in function, which is not listed. -/
def builtinSlot (b : Builtin) : Eval Slot := do return .hidden b.name (← builtin b)

/-- A new object with constants and built-in functions. -/
def library (kind : ObjectKind) (constants : List (String × Float)) (functions : List Slot) :
    Eval Value := do
  let slots := constants.map (fun (name, x) => Slot.fixed name (.number x)) ++ functions
  return .object (← allocate { Object.ofKind kind with properties := slots.toArray })

/-- The constructor with the given functions. -/
def constructorWith (c : Constructor) (functions : List Builtin) : Eval Value := do
  library (.builtin (.constructor c)) [] (← functions.mapM builtinSlot)

end Eval

/-- The constants that belong to numbers. -/
def numberConstants : List (String × Float) :=
  [("EPSILON", Float.ofBits 0x3CB0000000000000), ("MAX_SAFE_INTEGER", 9007199254740991),
   ("MAX_VALUE", Float.ofBits 0x7FEFFFFFFFFFFFFF), ("MIN_SAFE_INTEGER", -9007199254740991),
   ("MIN_VALUE", Float.ofBits 1), ("NaN", Double.nan),
   ("NEGATIVE_INFINITY", -Double.infinity), ("POSITIVE_INFINITY", Double.infinity)]

/-- The mathematical constants. -/
def mathConstants : List (String × Float) :=
  [("E", 2.718281828459045), ("PI", 3.141592653589793)]

/-- The kinds of errors that have a constructor. -/
def globalErrors : List ErrorKind :=
  [.error, .rangeError, .referenceError, .syntaxError, .typeError]

open Eval in
/-- The names that programs usually get, with new values for them. -/
def standardGlobals : Eval (List (String × Value)) := do
  let parseInt ← builtin (.global .parseInt)
  -- The two functions are the same objects as those of `Number` below.
  let parseFloat ← builtin (.global .parseFloat)
  let object ← constructorWith .object (ObjectFunction.all.map .object)
  let array ← constructorWith .array (ArrayFunction.all.map .array)
  let functions ← MathFunction.all.mapM fun f => builtinSlot (.math f)
  let math ← library .ordinary mathConstants functions
  let number ←
    library (.builtin (.constructor .number)) numberConstants
      ((← NumberFunction.all.mapM fun f => builtinSlot (.number f))
        ++ [.hidden "parseFloat" parseFloat, .hidden "parseInt" parseInt])
  let string ← constructorWith .string []
  let boolean ← constructorWith .boolean []
  let errors ← globalErrors.mapM fun k => do return (k.name, ← constructorWith (.error k) [])
  let isNaN ← builtin (.global .isNaN)
  let isFinite ← builtin (.global .isFinite)
  return [("Object", object), ("Array", array), ("Math", math), ("Number", number),
      ("String", string), ("Boolean", boolean)]
    ++ errors
    ++ [("parseInt", parseInt), ("parseFloat", parseFloat), ("isNaN", isNaN),
      ("isFinite", isFinite), ("NaN", .number Double.nan),
      ("Infinity", .number Double.infinity), ("undefined", .undefined)]

end Scriptlet
