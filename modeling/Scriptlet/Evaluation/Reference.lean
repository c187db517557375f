import Scriptlet.Evaluation.Conversion

/-!
# References

An expression on the left of an assignment stands for a place: a variable or a property.

## Main definitions

* `Eval.resolve` — the variable that a name stands for.
* `Machine.setOn`, `Machine.assignOn` — assignments to properties of objects.
* `Eval.readReference`, `Machine.writeReference`, `Eval.deleteReference` — reading, assigning and
  deleting.
-/

namespace Scriptlet

namespace Eval

/-- The place that a name stands for. -/
def resolve (name : String) : Eval Reference := do
  let id ← environment
  match (← get).environments.holder name id with
  | .environment e => return .variable e name
  | .nowhere => return .unresolvable name
  | .dangling => throw (.broken .missingEnvironment)

/-- The value at a place. -/
def readReference : Reference → Eval Value
  | .variable e name => readVariable e name
  | .unresolvable name => raise .referenceError (name ++ " is not defined")
  | .property base k => getOf base k

/-- Gives the variable at a place its first value. -/
def initializeReference (r : Reference) (v : Value) : Eval Unit :=
  match r with
  | .variable e name => initializeVariable e name v
  | .unresolvable _ | .property _ _ => throw (.broken .missingVariable)

/-- The object as messages about it call it. -/
def objectWord (a : Agent) (base : Value) : String :=
  match base with
  | .text _ => "[object String]"
  | _ => if (a.array? base).isSome then "[object Array]" else "#<Object>"

/-- Deletes a property of a value; true if there is none afterwards. -/
def deleteProperty (base : Value) (k : PropertyKey) : Eval Bool :=
  match base with
  | .object id => changeObject id (·.delete k) true
  | .undefined | .null => raise .typeError "Cannot convert undefined or null to object"
  | .text t => return (t.feature? k).isNone
  | _ => return true

/-- Deletes what is at a place; it is an error if a property cannot be deleted. -/
def deleteReference : Reference → Eval Bool
  | .variable e name => deleteVariable e name
  | .unresolvable _ => return true
  | .property base k => do
    if ← deleteProperty base k then return true
    else
      raise .typeError
        ("Cannot delete property '" ++ k.display ++ "' of " ++ objectWord (← get) base)

/-- The text without quotes at both ends. -/
def withoutQuotes (s : String) : String :=
  let cs := s.toList.dropWhile (· == '"')
  String.ofList (cs.reverse.dropWhile (· == '"')).reverse

end Eval

open Eval

namespace Machine

/-- Assigns to a property of an object; false if that is impossible. -/
def setOn (m : Machine) (id : ObjectId) (k : PropertyKey) (v : Value) : Eval Bool := do
  if k.isNamed "length" && (← object id).isArray then
    let x ← m.toNumber v
    let n := Double.toUInt32 x
    if Float.ofNat n == x then changeObject id (·.setLength n) false
    else raise .rangeError "Invalid array length"
  else changeObject id (·.write k v) false

/-- Assigns to a property of an object. -/
def assignOn (m : Machine) (id : ObjectId) (k : PropertyKey) (v : Value) : Eval Unit := do
  unless ← m.setOn id k v do
    if (← object id).hasOwn k then
      raise .typeError ("Cannot assign to read only property '" ++ k.display ++ "' of object")
    else raise .typeError ("Cannot add property " ++ k.display ++ ", object is not extensible")

/-- Assigns to a place. -/
def writeReference (m : Machine) (r : Reference) (v : Value) : Eval Unit := do
  match r with
  | .variable e name => writeVariable e name v true
  | .unresolvable name => raise .referenceError (name ++ " is not defined")
  -- Only an object takes properties; everything else refuses, with a message of its own.
  | .property (.object id) k => m.assignOn id k v
  | .property base k =>
    if base.isNullish then
      raise .typeError
        ("Cannot set properties of " ++ base.nullishWord ++ " (setting '" ++ k.display ++ "')")
    else
      let a ← get
      raise .typeError
        ("Cannot create property '" ++ k.display ++ "' on " ++ a.typeName base ++ " '"
          ++ withoutQuotes (a.display base) ++ "'")

end Machine

end Scriptlet
