import Scriptlet.Builtin.Basic
import Scriptlet.Syntax.Tree
import Scriptlet.Value.Elements

/-!
# Objects

An object has properties, in the order in which they were created, and may have elements or be a
function or an error besides.  The elements and the length of an array are properties of it that
its list of properties does not hold.

Changes return whether they were possible, and the object after them.

## Main definitions

* `Slot`, `Closure`, `ObjectKind`, `Object` — objects and their properties.
* `Object.ownProperty?`, `Object.ownKeys` — the properties of an object.
* `Object.write`, `Object.define`, `Object.delete` — changes of single properties.
* `Object.setLength`, `Object.freeze`, `Object.isFrozen` — changes of the whole.
-/

namespace Scriptlet

/-- A property of an object. -/
structure Slot where
  /-- What it is found by. -/
  key : PropertyKey
  /-- Its value. -/
  value : Value
  /-- Whether assignments may change the value. -/
  isWritable : Bool
  /-- Whether it is listed. -/
  isEnumerable : Bool
  /-- Whether it may be deleted. -/
  isConfigurable : Bool

namespace Slot

/-- The property that an assignment creates. -/
def data (key : PropertyKey) (value : Value) : Slot := ⟨key, value, true, true, true⟩

/-- A property that is not listed. -/
def hidden (key : PropertyKey) (value : Value) : Slot := ⟨key, value, true, false, true⟩

/-- A property that never changes. -/
def fixed (key : PropertyKey) (value : Value) : Slot := ⟨key, value, false, false, false⟩

end Slot

instance : Inhabited Slot := ⟨.data (.text .empty) .undefined⟩

/-- A function with the environment that it was created in. -/
structure Closure where
  /-- The syntax of the function. -/
  code : Function
  /-- The environment. -/
  environment : EnvironmentId
  /-- The realm of its code. -/
  realm : RealmId
  /-- Its name; empty if it has none. -/
  name : String

/-- What an object is besides its properties. -/
inductive ObjectKind
  | ordinary
  | array (elements : Elements Value)
  | closure (c : Closure)
  | builtin (b : Builtin)
  | error (kind : ErrorKind)

/-- An object. -/
structure Object where
  /-- What it is besides its properties. -/
  kind : ObjectKind
  /-- Whether properties may be added. -/
  isExtensible : Bool
  /-- Its properties, in the order of their creation. -/
  properties : Array Slot

namespace Object

/-- An object without properties. -/
def ofKind (kind : ObjectKind) : Object := ⟨kind, true, #[]⟩

/-- An object that is nothing but an object, without properties. -/
def empty : Object := ofKind .ordinary

instance : Inhabited Object := ⟨empty⟩

/-- The elements, if the object is an array. -/
def elements? (o : Object) : Option (Elements Value) :=
  match o.kind with
  | .array e => some e
  | _ => none

/-- Whether the object is an array. -/
def isArray (o : Object) : Bool :=
  match o.kind with
  | .array _ => true
  | _ => false

/-- Whether the object is a function. -/
def isFunction (o : Object) : Bool :=
  match o.kind with
  | .closure _ | .builtin _ => true
  | _ => false

/-- The kind of the error, if the object is one. -/
def errorKind? (o : Object) : Option ErrorKind :=
  match o.kind with
  | .error kind => some kind
  | _ => none

/-- Whether the object can be called with `new`. -/
def isConstructor (o : Object) : Bool :=
  match o.kind with
  | .closure c => c.code.form != .arrow
  | .builtin b => b.isConstructor
  | _ => false

/-- The name of a function; empty if the object is none. -/
def functionName (o : Object) : String :=
  match o.kind with
  | .closure c => c.name
  | .builtin b => b.name
  | _ => ""

/-! ### Properties -/

/-- The property of the list with the given key. -/
def listed? (o : Object) (k : PropertyKey) : Option Slot := o.properties.find? (·.key == k)

/-- An element of an array as a property. -/
def elementProperty (e : Elements Value) (k : PropertyKey) (v : Value) : Slot :=
  ⟨k, v, !e.isFrozen, true, !e.isFrozen⟩

/-- The length of an array as a property. -/
def lengthProperty (e : Elements Value) (k : PropertyKey) : Slot :=
  ⟨k, .ofNat e.length, !e.isFrozen, false, false⟩

/-- The property with the given key. -/
def ownProperty? (o : Object) (k : PropertyKey) : Option Slot :=
  match o.kind with
  | .array e =>
    match k.arrayIndex? with
    | some i => (e.get? i).map (elementProperty e k)
    | none => if k.isNamed "length" then some (lengthProperty e k) else o.listed? k
  | _ => o.listed? k

/-- The value of the property with the given key. -/
def ownValue? (o : Object) (k : PropertyKey) : Option Value := (o.ownProperty? k).map (·.value)

/-- Whether there is a property with the given key. -/
def hasOwn (o : Object) (k : PropertyKey) : Bool := (o.ownProperty? k).isSome

/-- Inserts an index into an ascending list. -/
def insertIndex (i : Nat) : List Nat → List Nat
  | [] => [i]
  | j :: rest => if i ≤ j then i :: j :: rest else j :: insertIndex i rest

/-- The list in ascending order. -/
def sortIndices (l : List Nat) : List Nat := l.foldr insertIndex []

/-- The keys of all properties: the elements, the length of an array, then the other indices
ascending, the other texts and the symbols in the order of their creation. -/
def ownKeys (o : Object) : List PropertyKey :=
  let keys := (o.properties.map (·.key)).toList
  let elements :=
    match o.kind with
    | .array e => e.present.map (fun (i, _) => PropertyKey.ofNat i) ++ [("length" : PropertyKey)]
    | _ => ([] : List PropertyKey)
  elements ++ (sortIndices (keys.filterMap (·.arrayIndex?))).map .ofNat
    ++ keys.filter (fun k => !k.isSymbol && k.arrayIndex?.isNone) ++ keys.filter (·.isSymbol)

/-! ### Changes -/

/-- An array with an element at an index, unless it is frozen, or without room for a new one. -/
def writeElement (o : Object) (i : Nat) (v : Value) : Bool × Object :=
  match o with
  | ⟨.array e, isExtensible, properties⟩ =>
    if e.isFrozen || !(isExtensible || e.has i) then (false, ⟨.array e, isExtensible, properties⟩)
    else (true, ⟨.array (e.set i v), isExtensible, properties⟩)
  | o => (false, o)

/-- The index that a key stands for in an array. -/
def elementIndex? (o : Object) (k : PropertyKey) : Option Nat :=
  if o.isArray then k.arrayIndex? else none

/-- The object with another property, if there is room. -/
def add (o : Object) (p : Slot) : Bool × Object :=
  match o with
  | ⟨kind, isExtensible, properties⟩ =>
    if isExtensible then (true, ⟨kind, isExtensible, properties.push p⟩)
    else (false, ⟨kind, isExtensible, properties⟩)

/-- Assigns to a property, but not to the length of an array. -/
def write (o : Object) (k : PropertyKey) (v : Value) : Bool × Object :=
  match o.elementIndex? k with
  | some i => o.writeElement i v
  | none =>
    match o.properties.findIdx? (·.key == k) with
    | some n =>
      if (o.properties[n]?.map (·.isWritable)).getD false then
        (true, { o with properties := o.properties.modify n fun p => { p with value := v } })
      else (false, o)
    | none => o.add (.data k v)

/-- Replaces a property by one that an assignment would create. -/
def define (o : Object) (k : PropertyKey) (v : Value) : Bool × Object :=
  match o.elementIndex? k with
  | some i => o.writeElement i v
  | none =>
    if o.isArray && k.isNamed "length" then (false, o)
    else
      match o.properties.findIdx? (·.key == k) with
      | some n =>
        if (o.properties[n]?.map (·.isConfigurable)).getD false then
          (true, { o with properties := o.properties.setIfInBounds n (.data k v) })
        else (false, o)
      | none => o.add (.data k v)

/-- Removes a property from the list, if it may be removed. -/
def deleteListed (o : Object) (k : PropertyKey) : Bool × Object :=
  match o.properties.find? (·.key == k) with
  | none => (true, o)
  | some p =>
    if p.isConfigurable then
      (true, { o with properties := o.properties.filter fun p => !(p.key == k) })
    else (false, o)

/-- Deletes a property; true if there is none afterwards. -/
def delete (o : Object) (k : PropertyKey) : Bool × Object :=
  match o with
  | ⟨.array e, isExtensible, properties⟩ =>
    match k.arrayIndex? with
    | some i =>
      if e.isFrozen then (!e.has i, ⟨.array e, isExtensible, properties⟩)
      else (true, ⟨.array (e.remove i), isExtensible, properties⟩)
    | none =>
      if k.isNamed "length" then (false, ⟨.array e, isExtensible, properties⟩)
      else deleteListed ⟨.array e, isExtensible, properties⟩ k
  | o => o.deleteListed k

/-- Sets the length of an array that is not frozen. -/
def setLength (o : Object) (n : Nat) : Bool × Object :=
  match o with
  | ⟨.array e, isExtensible, properties⟩ =>
    if e.isFrozen then (false, ⟨.array e, isExtensible, properties⟩)
    else (true, ⟨.array (e.setLength n), isExtensible, properties⟩)
  | o => (false, o)

/-- The object without any room for change. -/
def freeze (o : Object) : Object :=
  { kind :=
      match o.kind with
      | .array e => .array { e with isFrozen := true }
      | kind => kind
    isExtensible := false
    properties :=
      o.properties.map fun p => { p with isWritable := false, isConfigurable := false } }

/-- Whether there is no room for change. -/
def isFrozen (o : Object) : Bool :=
  !o.isExtensible
    && (match o.kind with
      | .array e => e.isFrozen || e.present.isEmpty
      | _ => true)
    && o.properties.all fun p => !p.isConfigurable && !p.isWritable

end Object

end Scriptlet
