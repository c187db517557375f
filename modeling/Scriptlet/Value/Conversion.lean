import Scriptlet.Number.Reading
import Scriptlet.Number.Shortest
import Scriptlet.Value.Basic

/-!
# Conversions of values that are no objects

## Main definitions

* `Value.toNumber?`, `Value.toText?` — the number and the text of a value.
* `Value.isLoosely` — equality after conversion to numbers.
-/

namespace Scriptlet

namespace Value

/-- The number that a value stands for; none for symbols and objects. -/
def toNumber? : Value → Option Float
  | undefined => some Double.nan
  | null => some 0
  | boolean b => some (if b then 1 else 0)
  | number x => some x
  | text t => some (readNumber t.toString.toList)
  | symbol _ | object _ => none

/-- The text that a value stands for; none for symbols and objects. -/
def toText? : Value → Option Text
  | undefined => some "undefined"
  | null => some "null"
  | boolean b => some (if b then "true" else "false")
  | number x => some (Text.ofString (Double.toText x))
  | text t => some t
  | symbol _ | object _ => none

/-- Whether a value is a number, a text or a truth value. -/
def isConvertible : Value → Bool
  | boolean _ | number _ | text _ => true
  | _ => false

/-- Whether two values are of the same type. -/
def isSameType : Value → Value → Bool
  | undefined, undefined | null, null | boolean _, boolean _ | number _, number _ | text _, text _
  | symbol _, symbol _ | object _, object _ => true
  | _, _ => false

/-- Equality of values of which none or both are objects: those of different types are compared as
numbers, and the two that stand for the lack of a value are equal. -/
def isLoosely (v w : Value) : Bool :=
  if v.isSameType w then v.isStrictly w
  else if v.isConvertible && w.isConvertible then
    match v.toNumber?, w.toNumber? with
    | some x, some y => x == y
    | _, _ => false
  else v.isNullish && w.isNullish

/-- Whether the value is a text. -/
def isText : Value → Bool
  | text _ => true
  | _ => false

end Value

end Scriptlet
