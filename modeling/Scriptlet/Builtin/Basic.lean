import Scriptlet.Value.Basic

/-!
# Built-in functions

The functions that exist before any program runs, with their names and lengths.  Those that are
methods are properties of all values of a kind; the others are properties of global objects, or
global themselves.

## Main definitions

* `Builtin` — all built-in functions.
* `Builtin.name`, `Builtin.length` — what the properties of these names hold.
* `ArrayMethod.ofName?` and its like — the methods by their names.
-/

namespace Scriptlet

/-- Functions that can be called with `new`. -/
inductive Constructor
  | object | array | string | number | boolean
  | error (kind : ErrorKind)
deriving DecidableEq, Repr

/-- The name of the constructor. -/
def Constructor.name : Constructor → String
  | .object => "Object"
  | .array => "Array"
  | .string => "String"
  | .number => "Number"
  | .boolean => "Boolean"
  | .error kind => kind.name

/-- Functions on objects. -/
inductive ObjectFunction
  | assign | entries | freeze | fromEntries | isFrozen | keys | values
deriving DecidableEq, Repr

/-- The functions on objects, by name. -/
def ObjectFunction.all : List ObjectFunction :=
  [.assign, .entries, .freeze, .fromEntries, .isFrozen, .keys, .values]

/-- The name of the function. -/
def ObjectFunction.name : ObjectFunction → String
  | .assign => "assign"
  | .entries => "entries"
  | .freeze => "freeze"
  | .fromEntries => "fromEntries"
  | .isFrozen => "isFrozen"
  | .keys => "keys"
  | .values => "values"

/-- The number of arguments that the function expects. -/
def ObjectFunction.length : ObjectFunction → Nat
  | .assign => 2
  | _ => 1

/-- Functions that make or recognise arrays. -/
inductive ArrayFunction
  | from | isArray | of
deriving DecidableEq, Repr

/-- The functions that make or recognise arrays, by name. -/
def ArrayFunction.all : List ArrayFunction := [.from, .isArray, .of]

/-- The name of the function. -/
def ArrayFunction.name : ArrayFunction → String
  | .from => "from"
  | .isArray => "isArray"
  | .of => "of"

/-- The number of arguments that the function expects. -/
def ArrayFunction.length : ArrayFunction → Nat
  | .of => 0
  | _ => 1

/-- Functions that classify numbers. -/
inductive NumberFunction
  | isFinite | isInteger | isNaN | isSafeInteger
deriving DecidableEq, Repr

/-- The functions that classify numbers, by name. -/
def NumberFunction.all : List NumberFunction := [.isFinite, .isInteger, .isNaN, .isSafeInteger]

/-- The name of the function. -/
def NumberFunction.name : NumberFunction → String
  | .isFinite => "isFinite"
  | .isInteger => "isInteger"
  | .isNaN => "isNaN"
  | .isSafeInteger => "isSafeInteger"

/-- Mathematical functions. -/
inductive MathFunction
  | abs | ceil | floor | max | min | pow | round | sign | sqrt | trunc
deriving DecidableEq, Repr

/-- The mathematical functions, by name. -/
def MathFunction.all : List MathFunction :=
  [.abs, .ceil, .floor, .max, .min, .pow, .round, .sign, .sqrt, .trunc]

/-- The name of the function. -/
def MathFunction.name : MathFunction → String
  | .abs => "abs"
  | .ceil => "ceil"
  | .floor => "floor"
  | .max => "max"
  | .min => "min"
  | .pow => "pow"
  | .round => "round"
  | .sign => "sign"
  | .sqrt => "sqrt"
  | .trunc => "trunc"

/-- The number of arguments that the function expects. -/
def MathFunction.length : MathFunction → Nat
  | .max | .min | .pow => 2
  | _ => 1

/-- Functions that are global themselves. -/
inductive GlobalFunction
  | parseInt | parseFloat | isNaN | isFinite
deriving DecidableEq, Repr

/-- The name of the function. -/
def GlobalFunction.name : GlobalFunction → String
  | .parseInt => "parseInt"
  | .parseFloat => "parseFloat"
  | .isNaN => "isNaN"
  | .isFinite => "isFinite"

/-- The number of arguments that the function expects. -/
def GlobalFunction.length : GlobalFunction → Nat
  | .parseInt => 2
  | _ => 1

/-- Methods of arrays. -/
inductive ArrayMethod
  | concat | every | filter | find | findIndex | forEach | includes | indexOf | join | map | pop
  | push | reduce | reverse | shift | slice | some | toString | unshift
deriving DecidableEq, Repr

namespace ArrayMethod

/-- The methods, by name. -/
def all : List ArrayMethod :=
  [concat, every, filter, find, findIndex, forEach, includes, indexOf, join, map, pop, push, reduce,
   reverse, shift, slice, some, toString, unshift]

/-- The name of the method. -/
def name : ArrayMethod → String
  | concat => "concat"
  | every => "every"
  | filter => "filter"
  | find => "find"
  | findIndex => "findIndex"
  | forEach => "forEach"
  | includes => "includes"
  | indexOf => "indexOf"
  | join => "join"
  | map => "map"
  | pop => "pop"
  | push => "push"
  | reduce => "reduce"
  | reverse => "reverse"
  | shift => "shift"
  | slice => "slice"
  | some => "some"
  | toString => "toString"
  | unshift => "unshift"

/-- The number of arguments that the method expects. -/
def length : ArrayMethod → Nat
  | pop | reverse | shift | toString => 0
  | slice => 2
  | _ => 1

/-- The method with the given name. -/
def ofName? (n : String) : Option ArrayMethod := all.find? fun m => m.name == n

end ArrayMethod

/-- Methods of texts. -/
inductive TextMethod
  | charAt | endsWith | includes | indexOf | padEnd | padStart | repeat | slice | split | startsWith
  | substring | toLowerCase | toString | toUpperCase | trim | trimEnd | trimStart | valueOf
deriving DecidableEq, Repr

namespace TextMethod

/-- The methods, by name. -/
def all : List TextMethod :=
  [charAt, endsWith, includes, indexOf, padEnd, padStart, «repeat», slice, split, startsWith,
   substring, toLowerCase, toString, toUpperCase, trim, trimEnd, trimStart, valueOf]

/-- The name of the method. -/
def name : TextMethod → String
  | charAt => "charAt"
  | endsWith => "endsWith"
  | includes => "includes"
  | indexOf => "indexOf"
  | padEnd => "padEnd"
  | padStart => "padStart"
  | «repeat» => "repeat"
  | slice => "slice"
  | split => "split"
  | startsWith => "startsWith"
  | substring => "substring"
  | toLowerCase => "toLowerCase"
  | toString => "toString"
  | toUpperCase => "toUpperCase"
  | trim => "trim"
  | trimEnd => "trimEnd"
  | trimStart => "trimStart"
  | valueOf => "valueOf"

/-- The number of arguments that the method expects. -/
def length : TextMethod → Nat
  | toLowerCase | toString | toUpperCase | trim | trimEnd | trimStart | valueOf => 0
  | slice | split | substring => 2
  | _ => 1

/-- The method with the given name. -/
def ofName? (n : String) : Option TextMethod := all.find? fun m => m.name == n

end TextMethod

/-- Methods of numbers. -/
inductive NumberMethod
  | toFixed | toString | valueOf
deriving DecidableEq, Repr

namespace NumberMethod

/-- The methods, by name. -/
def all : List NumberMethod := [toFixed, toString, valueOf]

/-- The name of the method. -/
def name : NumberMethod → String
  | toFixed => "toFixed"
  | toString => "toString"
  | valueOf => "valueOf"

/-- The number of arguments that the method expects. -/
def length : NumberMethod → Nat
  | valueOf => 0
  | _ => 1

/-- The method with the given name. -/
def ofName? (n : String) : Option NumberMethod := all.find? fun m => m.name == n

end NumberMethod

/-- Methods of truth values. -/
inductive BooleanMethod
  | toString | valueOf
deriving DecidableEq, Repr

namespace BooleanMethod

/-- The methods, by name. -/
def all : List BooleanMethod := [toString, valueOf]

/-- The name of the method. -/
def name : BooleanMethod → String
  | toString => "toString"
  | valueOf => "valueOf"

/-- The method with the given name. -/
def ofName? (n : String) : Option BooleanMethod := all.find? fun m => m.name == n

end BooleanMethod

/-- Methods of functions. -/
inductive FunctionMethod
  | apply | call | toString
deriving DecidableEq, Repr

namespace FunctionMethod

/-- The methods, by name. -/
def all : List FunctionMethod := [apply, call, toString]

/-- The name of the method. -/
def name : FunctionMethod → String
  | apply => "apply"
  | call => "call"
  | toString => "toString"

/-- The number of arguments that the method expects. -/
def length : FunctionMethod → Nat
  | apply => 2
  | call => 1
  | toString => 0

/-- The method with the given name. -/
def ofName? (n : String) : Option FunctionMethod := all.find? fun m => m.name == n

end FunctionMethod

/-- Methods of all objects. -/
inductive ObjectMethod
  | hasOwnProperty | toString
deriving DecidableEq, Repr

namespace ObjectMethod

/-- The methods, by name. -/
def all : List ObjectMethod := [hasOwnProperty, toString]

/-- The name of the method. -/
def name : ObjectMethod → String
  | hasOwnProperty => "hasOwnProperty"
  | toString => "toString"

/-- The number of arguments that the method expects. -/
def length : ObjectMethod → Nat
  | hasOwnProperty => 1
  | toString => 0

/-- The method with the given name. -/
def ofName? (n : String) : Option ObjectMethod := all.find? fun m => m.name == n

end ObjectMethod

/-- The built-in functions. -/
inductive Builtin
  | constructor (c : Constructor)
  | object (f : ObjectFunction)
  | array (f : ArrayFunction)
  | number (f : NumberFunction)
  | math (f : MathFunction)
  | global (f : GlobalFunction)
  | arrayMethod (m : ArrayMethod)
  | textMethod (m : TextMethod)
  | numberMethod (m : NumberMethod)
  | booleanMethod (m : BooleanMethod)
  | functionMethod (m : FunctionMethod)
  | objectMethod (m : ObjectMethod)
  | errorToString
deriving DecidableEq, Repr

namespace Builtin

/-- The name of the function. -/
def name : Builtin → String
  | constructor c => c.name
  | object f => f.name
  | array f => f.name
  | number f => f.name
  | math f => f.name
  | global f => f.name
  | arrayMethod m => m.name
  | textMethod m => m.name
  | numberMethod m => m.name
  | booleanMethod m => m.name
  | functionMethod m => m.name
  | objectMethod m => m.name
  | errorToString => "toString"

/-- The number of arguments that the function expects. -/
def length : Builtin → Nat
  | constructor _ => 1
  | object f => f.length
  | array f => f.length
  | number _ => 1
  | math f => f.length
  | global f => f.length
  | arrayMethod m => m.length
  | textMethod m => m.length
  | numberMethod m => m.length
  | booleanMethod _ => 0
  | functionMethod m => m.length
  | objectMethod m => m.length
  | errorToString => 0

/-- Whether the function can be called with `new`. -/
def isConstructor : Builtin → Bool
  | constructor _ => true
  | _ => false

end Builtin

end Scriptlet
