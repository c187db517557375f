import Scriptlet.Builtin.Arguments
import Scriptlet.Evaluation.Reference

/-!
# Built-in functions on objects

## Main definitions

* `Machine.objectFunction` — functions on objects.
* `Machine.objectMethod` — methods of all objects.
* `Machine.functionMethod` — methods of functions.
-/

namespace Scriptlet

namespace Eval

/-- The listed properties of a value. -/
def listedOf (v : Value) : Eval (List (Text × Value)) := do
  match v with
  | .undefined | .null => notAnObject
  | .object id => return (← get).listed id
  | .text t => return t.units.toList.zipIdx.map fun (u, i) => (Text.ofNat i, .text ⟨#[u]⟩)
  | _ => return []

/-- Whether there is no room for change in a value. -/
def isFrozen (v : Value) : Eval Bool := do
  match v with
  | .object id => return (← object id).isFrozen
  | _ => return true

/-- Leaves no room for change in a value. -/
def freeze (v : Value) : Eval Unit :=
  match v with
  | .object id => modifyObject id (·.freeze)
  | _ => return

/-- Whether a value has a property of its own. -/
def hasOwn (v : Value) (k : PropertyKey) : Eval Bool := do
  match v with
  | .undefined | .null => notAnObject
  | .object id => return (← object id).hasOwn k
  | .text t => return (t.feature? k).isSome
  | _ => return false

/-- The word for what kind of value a value is. -/
def kindWord (a : Agent) : Value → String
  | .undefined => "Undefined"
  | .null => "Null"
  | .boolean _ => "Boolean"
  | .number _ => "Number"
  | .text _ => "String"
  | .symbol _ => "Symbol"
  | .object id =>
    match (a.object id).kind with
    | .array _ => "Array"
    | .closure _ | .builtin _ => "Function"
    | .error _ => "Error"
    | .ordinary => "Object"

end Eval

open Eval

namespace Machine

/-! ### Objects -/

/-- Assigns the listed properties of an object to another one. -/
def assignKeys (m : Machine) (target source : ObjectId) : List PropertyKey → Eval Unit
  | [] => return
  | k :: rest => do
    match (← object source).ownProperty? k with
    | some p => if p.isEnumerable then m.assignOn target k p.value
    | none => pure ()
    m.assignKeys target source rest

/-- Assigns values to properties of an object. -/
def assignEntries (m : Machine) (target : ObjectId) : List (PropertyKey × Value) → Eval Unit
  | [] => return
  | (k, v) :: rest => do
    m.assignOn target k v
    m.assignEntries target rest

/-- Assigns the listed properties of values to an object. -/
def assignSources (m : Machine) (target : ObjectId) : List Value → Eval Unit
  | [] => return
  | v :: rest => do
    match v with
    | .object source => m.assignKeys target source (← object source).ownKeys
    | v => m.assignEntries target (← copied v)
    m.assignSources target rest

/-- The object whose properties the pairs of a value are. -/
def objectOfEntries (m : Machine) (v : Value) : Eval Value := do
  -- What cannot be iterated is refused before the object is made.
  let w ← startWalk v
  let o ← emptyObject
  iterate (fun w => do
    match ← nextOf w with
    | (none, _) => return .inr (.object o)
    | (some (.object pair), w) =>
      let k ← getFrom pair "0"
      let v ← getFrom pair "1"
      defineOn o (← m.toKey k) v
      return .inl w
    | (some v, _) =>
      raise .typeError ("Iterator value " ++ (← get).display v ++ " is not an entry object"))
    m.fuel w

/-- Calls a function on objects. -/
def objectFunction (m : Machine) (f : ObjectFunction) (args : List Value) : Eval Value := do
  let v := argument args 0
  match f with
  | .assign =>
    match v with
    | .object target =>
      m.assignSources target args.tail
      return v
    | .undefined | .null => notAnObject
    | _ => raise .typeError "Object.assign target must be an object"
  | .entries => arrayOf (← (← listedOf v).mapM fun (t, v) => arrayOf [.text t, v])
  | .freeze =>
    freeze v
    return v
  | .fromEntries => m.objectOfEntries v
  | .isFrozen => return .boolean (← isFrozen v)
  | .keys => arrayOf ((← listedOf v).map fun (t, _) => .text t)
  | .values => arrayOf ((← listedOf v).map (·.2))

/-- Calls a method of all objects. -/
def objectMethod (m : Machine) (f : ObjectMethod) (this : Value) (args : List Value) :
    Eval Value := do
  match f with
  | .hasOwnProperty =>
    let k ← m.toKey (argument args 0)
    return .boolean (← hasOwn this k)
  | .toString => return .ofString ("[object " ++ kindWord (← get) this ++ "]")

/-! ### Functions -/

/-- The number of arguments that no call exceeds. -/
def maxArguments : Nat := 65535

/-- The elements of an object as arguments. -/
def argumentsOf (m : Machine) (v : Value) : Eval (List Value) := do
  match v with
  | .object id =>
    let length ← m.toLength (← getFrom id "length")
    if maxArguments < length then
      raise .rangeError
        ("Too many arguments in function call (only " ++ toString maxArguments ++ " allowed)")
    else
      match (← object id).elements? with
      | some e => return e.toList
      | none => (List.range length).mapM fun i => getFrom id (.ofNat i)
  | _ => raise .typeError "CreateListFromArrayLike called on non-object"

/-- Calls a method of functions. -/
def functionMethod (m : Machine) (f : FunctionMethod) (this : Value) (args : List Value) :
    Eval Value := do
  match (← get).function? this with
  | none =>
    raise .typeError
      ("Function.prototype." ++ f.name ++ " called on a value that is not a function")
  | some id =>
    match f with
    | .apply =>
      let list := argument args 1
      -- A missing list of arguments is an empty one.
      if list.isNullish then m.call id (argument args 0) []
      else m.call id (argument args 0) (← m.argumentsOf list)
    | .call => m.call id (argument args 0) args.tail
    | .toString => return .ofString ((← get).functionSource id)

/-- The text of an error, as its method gives it. -/
def errorToString (m : Machine) (this : Value) : Eval Value := do
  match this with
  | .object id => return .text (← m.errorText id)
  | _ => raise .typeError "Error.prototype.toString called on a non-object"

end Machine

end Scriptlet
