import Scriptlet.Agent.Display

/-!
# Properties of values

An object has the properties of its own; besides, the values of each kind have properties in common:
methods, and some that depend on the value.  Own properties come first.

## Main definitions

* `Agent.method?`, `Agent.feature?` — the properties in common.
* `Eval.getFrom`, `Eval.getOf` — the value of a property, of an object and of any value.
* `Eval.defineOn`, `Eval.copyProperties` — creating properties.
* `Agent.listed`, `Eval.keysOf` — the listed properties.
-/

namespace Scriptlet

/-- Whether a parameter has to have an argument. -/
def Binding.isPlain (b : Binding) : Bool :=
  b.initializer.isNone && !(b.pattern matches .withDefault _ _)

/-- The number of arguments that a function expects. -/
def Function.length (f : Function) : Nat := (f.parameters.takeWhile (·.isPlain)).length

namespace Object

/-- The number of arguments that a function expects; zero if the object is none. -/
def functionLength (o : Object) : Nat :=
  match o.kind with
  | .closure c => c.code.length
  | .builtin b => b.length
  | _ => 0

/-- The method of a name that all objects of the same kind have. -/
def method? (o : Object) (name : String) : Option Builtin :=
  let special :=
    match o.kind with
    | .ordinary => none
    | .array _ => (ArrayMethod.ofName? name).map .arrayMethod
    | .closure _ | .builtin _ => (FunctionMethod.ofName? name).map .functionMethod
    | .error _ => if name = "toString" then some .errorToString else none
  special <|> (ObjectMethod.ofName? name).map .objectMethod

/-- What an object has under a key besides methods and its own properties. -/
def feature? (o : Object) (k : PropertyKey) : Option Value :=
  match o.kind with
  | .closure _ | .builtin _ =>
    if k.isNamed "name" then some (.ofString o.functionName)
    else if k.isNamed "length" then some (.ofNat o.functionLength)
    else none
  | .error kind =>
    if k.isNamed "name" then some (.ofString kind.name)
    else if k.isNamed "message" then some (.text .empty)
    else none
  | _ => none

end Object

/-- What a text has under a key besides methods. -/
def Text.feature? (t : Text) (k : PropertyKey) : Option Value :=
  match k.arrayIndex? with
  | some i => (t.charAt? i).map .text
  | none => if k.isNamed "length" then some (.ofNat t.length) else none

/-- What describes a symbol to a reader. -/
def Symbol.feature? (s : Symbol) (k : PropertyKey) : Option Value :=
  if k.isNamed "description" then some ((s.description.map Value.text).getD .undefined) else none

namespace Agent

/-- The method of a name that all values of the same kind have. -/
def method? (a : Agent) (v : Value) (name : String) : Option Builtin :=
  match v with
  | .undefined | .null | .symbol _ => none
  | .boolean _ => (BooleanMethod.ofName? name).map .booleanMethod
  | .number _ => (NumberMethod.ofName? name).map .numberMethod
  | .text _ => (TextMethod.ofName? name).map .textMethod
  | .object id => (a.object id).method? name

/-- What a value has under a key besides methods and its own properties. -/
def feature? (a : Agent) (v : Value) (k : PropertyKey) : Option Value :=
  match v with
  | .undefined | .null | .boolean _ | .number _ => none
  | .text t => t.feature? k
  | .symbol s => s.feature? k
  | .object id => (a.object id).feature? k

/-- The keys of the listed properties of an object that are texts, with their values. -/
def listed (a : Agent) (id : ObjectId) : List (Text × Value) :=
  let o := a.object id
  o.ownKeys.filterMap fun k =>
    match k, o.ownProperty? k with
    | .text t, some p => if p.isEnumerable then some (t, p.value) else none
    | _, _ => none

end Agent

namespace Eval

/-! ### Reading -/

/-- The object for a method, created when it is first used. -/
def method (b : Builtin) : Eval Value := do
  match (← get).methods.find? (·.1 == b) with
  | some (_, id) => return .object id
  | none =>
    let id ← allocate (.ofKind (.builtin b))
    modify fun a => { a with methods := (b, id) :: a.methods }
    return .object id

/-- The property under a key that values of the kind of the given one have in common. -/
def common? (v : Value) (k : PropertyKey) : Eval (Option Value) := do
  match (← get).feature? v k, k with
  | some w, _ => return some w
  | none, .symbol _ => return none
  | none, .text t =>
    match (← get).method? v t.toString with
    | some b => return some (← method b)
    | none => return none

/-- The value of a property of an object. -/
def getFrom (id : ObjectId) (k : PropertyKey) : Eval Value := do
  match (← object id).ownValue? k with
  | some v => return v
  | none => return (← common? (.object id) k).getD .undefined

/-- The value of a property of any value. -/
def getOf (v : Value) (k : PropertyKey) : Eval Value := do
  match v with
  | .object id => getFrom id k
  | .undefined | .null =>
    raise .typeError
      ("Cannot read properties of " ++ v.nullishWord ++ " (reading '" ++ k.display ++ "')")
  | _ => return (← common? v k).getD .undefined

/-! ### Creating -/

/-- Creates or replaces a property of an object. -/
def defineOn (id : ObjectId) (k : PropertyKey) (v : Value) : Eval Unit := do
  unless ← changeObject id (·.define k v) false do
    raise .typeError ("Cannot define property " ++ k.display ++ ", object is not extensible")

/-- Creates or replaces several properties of an object, one after the other. -/
def defineAll (id : ObjectId) : List (PropertyKey × Value) → Eval Unit
  | [] => return
  | (k, v) :: rest => do
    defineOn id k v
    defineAll id rest

/-- The properties of a value that copying it copies. -/
def copied (v : Value) : Eval (List (PropertyKey × Value)) := do
  match v with
  | .object id =>
    let o ← object id
    return o.ownKeys.filterMap fun k =>
      match o.ownProperty? k with
      | some p => if p.isEnumerable then some (k, p.value) else none
      | none => none
  | .text t =>
    return t.units.toList.zipIdx.map fun (u, i) => (.ofNat i, .text ⟨#[u]⟩)
  | _ => return []

/-- Copies the listed properties of a value to an object, except those with the given keys. -/
def copyProperties (target : ObjectId) (source : Value) (excluded : List PropertyKey) :
    Eval Unit := do
  defineAll target ((← copied source).filter fun (k, _) => !excluded.contains k)

/-! ### Listing -/

/-- The keys of the listed properties of an object. -/
def keysOf (id : ObjectId) : Eval (List Value) := do
  return ((← get).listed id).map fun (t, _) => .text t

end Eval

end Scriptlet
