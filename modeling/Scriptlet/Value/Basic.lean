import Scriptlet.Text.Basic
import Scriptlet.Number.Double

/-!
# Values

## Main definitions

* `ErrorKind` — the kinds of errors, with their names.
* `Symbol`, `ObjectId`, `Value` — the values of the language.
* `EnvironmentId`, `RealmId` — the places of what values refer to besides.
* `PropertyKey` — what properties are found by, with `PropertyKey.arrayIndex?`.
* `Value.isStrictly`, `Value.isSame` — equality without conversion.
-/

namespace Scriptlet

/-- The kinds of errors. -/
inductive ErrorKind
  | error | evalError | rangeError | referenceError | syntaxError | typeError | uriError
deriving DecidableEq, Repr

namespace ErrorKind

/-- The name of the kind. -/
def name : ErrorKind → String
  | error => "Error"
  | evalError => "EvalError"
  | rangeError => "RangeError"
  | referenceError => "ReferenceError"
  | syntaxError => "SyntaxError"
  | typeError => "TypeError"
  | uriError => "URIError"

/-- All kinds. -/
def all : List ErrorKind :=
  [error, evalError, rangeError, referenceError, syntaxError, typeError, uriError]

/-- The kind with the given name. -/
def ofName? (name : String) : Option ErrorKind := all.find? fun k => k.name == name

end ErrorKind

/-- A value that is equal to itself only.  No two symbols have the same number. -/
structure Symbol where
  /-- The number of the symbol. -/
  id : Nat
  /-- What describes it to a reader. -/
  description : Option Text
deriving DecidableEq

/-- The symbol as readers see it. -/
def Symbol.display (s : Symbol) : String :=
  "Symbol(" ++ (s.description.getD .empty).toString ++ ")"

/-- The place of an object. -/
structure ObjectId where
  /-- The number of objects that are older. -/
  index : Nat
deriving DecidableEq, Hashable, Repr, Inhabited

/-- The place of an environment. -/
structure EnvironmentId where
  /-- The index of the place. -/
  index : Nat
deriving DecidableEq, Repr, Inhabited

/-- The place of a realm. -/
structure RealmId where
  /-- The number of realms that are older. -/
  index : Nat
deriving DecidableEq, Repr, Inhabited

/-- The values of the language. -/
inductive Value
  | undefined
  | null
  | boolean (b : Bool)
  | number (x : Float)
  | text (t : Text)
  | symbol (s : Symbol)
  | object (o : ObjectId)
deriving Inhabited

namespace Value

/-- Whether the value is undefined. -/
def isUndefined : Value → Bool
  | undefined => true
  | _ => false

/-- Whether the value is null. -/
def isNull : Value → Bool
  | null => true
  | _ => false

/-- Whether the value stands for the lack of one. -/
def isNullish : Value → Bool
  | undefined | null => true
  | _ => false

/-- The word for a value that stands for the lack of one. -/
def nullishWord (v : Value) : String := if v.isNull then "null" else "undefined"

/-- Whether the value counts as true. -/
def isTrue : Value → Bool
  | undefined | null => false
  | boolean b => b
  | number x => !(x == 0 || x.isNaN)
  | text t => !t.isEmpty
  | symbol _ | object _ => true

/-- The value of a natural number. -/
def ofNat (n : Nat) : Value := number (Float.ofNat n)

/-- The value of a text in Unicode. -/
def ofString (s : String) : Value := text (Text.ofString s)

/-- Equality of values other than numbers. -/
def isSameNonNumber : Value → Value → Bool
  | undefined, undefined | null, null => true
  | boolean a, boolean b => a == b
  | text s, text t => s == t
  | symbol s, symbol t => s == t
  | object o, object p => o == p
  | _, _ => false

/-- Equality without conversion: no number equals the one that is none. -/
def isStrictly : Value → Value → Bool
  | number x, number y => x == y
  | v, w => isSameNonNumber v w

/-- Equality for which the number that is none equals itself. -/
def isSame : Value → Value → Bool
  | number x, number y => (x.isNaN && y.isNaN) || x == y
  | v, w => isSameNonNumber v w

end Value

/-! ### Property keys -/

/-- What properties are found by. -/
inductive PropertyKey
  | text (t : Text)
  | symbol (s : Symbol)
deriving DecidableEq

/-- The decimal digits of a number as a text. -/
def Text.ofNat (n : Nat) : Text := Text.ofString (ToString.toString n)

/-- Whether a code unit is a decimal digit. -/
def isDigitUnit (u : UInt16) : Bool := 48 ≤ u && u ≤ 57

/-- The number that decimal digits denote. -/
def unitsValue (us : List UInt16) : Nat := us.foldl (fun n u => n * 10 + (u.toNat - 48)) 0

/-- The length that no array exceeds. -/
def maxArrayLength : Nat := 2 ^ 32 - 1

/-- The number below the greatest length of an array that the text is the decimal form of. -/
def Text.arrayIndex? (t : Text) : Option Nat :=
  if t.isEmpty || t.length > 10 || !t.units.all isDigitUnit then none
  else if t.length > 1 && t.units[0]? == some 48 then none
  else
    let n := unitsValue t.units.toList
    if n < maxArrayLength then some n else none

namespace PropertyKey

instance : Coe String PropertyKey := ⟨fun s => .text (Text.ofString s)⟩

/-- The key of an index. -/
def ofNat (n : Nat) : PropertyKey := text (Text.ofNat n)

/-- The index that the key is the decimal form of. -/
def arrayIndex? : PropertyKey → Option Nat
  | text t => t.arrayIndex?
  | symbol _ => none

/-- Whether the key is a symbol. -/
def isSymbol : PropertyKey → Bool
  | symbol _ => true
  | text _ => false

/-- Whether the key is the given text. -/
@[inline] def isNamed (k : PropertyKey) (name : String) : Bool :=
  match k with
  | text t => t.isString name
  | symbol _ => false

/-- The key as readers see it. -/
def display : PropertyKey → String
  | text t => t.toString
  | symbol s => s.display

/-- The name of a function that is the value of a property with this key. -/
def functionName : PropertyKey → String
  | text t => t.toString
  | symbol _ => ""

end PropertyKey

end Scriptlet
