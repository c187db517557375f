import Scriptlet.Builtin.Arguments

/-!
# Built-in functions on arrays

Methods that call back look at the array again before each call: elements that have been removed are
left out, and those behind the length at the start are not reached.

## Main definitions

* `Elements.append`, `Elements.slice` — parts of arrays put together and cut out.
* `Eval.walkElements`, `Machine.find?` — calls for the elements of an array.
* `Machine.arrayFunction`, `Machine.arrayMethod` — the built-in functions.
-/

namespace Scriptlet

namespace Elements

variable {α : Type}

/-- The elements of an array behind others. -/
def append (e f : Elements α) : Elements α :=
  let n := e.length
  ((f.present.foldl (fun e (k, v) => e.set (n + k) v) e).setLength (n + f.length))

/-- The elements from one index up to another one. -/
def slice (e : Elements α) (start stop : Nat) : Elements α :=
  ofEntries (stop - start) false
    (((e.presentFrom start).takeWhile fun (i, _) => i < stop).map fun (i, v) => (i - start, v))

/-- The last element, and the others. -/
def pop (e : Elements α) : Option α × Elements α :=
  if e.length = 0 then (none, e)
  else (e.get? (e.length - 1), (e.remove (e.length - 1)).setLength (e.length - 1))

/-- The elements with others at the end. -/
def pushAll (e : Elements α) (values : List α) : Elements α := values.foldl push e

/-- The elements of an array that may change. -/
def thawed (e : Elements α) : Elements α := { e with isFrozen := false }

/-- Whether a value is among the elements from an index on; undefined is in a place without
element. -/
def includesFrom (e : Elements Value) (v : Value) (start : Nat) : Bool :=
  (v.isUndefined && e.hasHolesFrom start)
    || (e.presentFrom start).any fun (_, w) => v.isSame w

/-- The index of the first element from an index on that equals a value. -/
def indexFrom? (e : Elements Value) (v : Value) (start : Nat) : Option Nat :=
  ((e.presentFrom start).find? fun (_, w) => v.isStrictly w).map (·.1)

end Elements

/-- The object with its elements changed, if it is an array, and what comes of the change. -/
def Object.changeElements {α : Type} (o : Object) (f : Elements Value → α × Elements Value)
    (missing : α) : α × Object :=
  match o with
  | ⟨.array e, isExtensible, properties⟩ =>
    let (r, e) := f e
    (r, ⟨.array e, isExtensible, properties⟩)
  | o => (missing, o)

namespace Eval

/-- Throws the error for a length that no array has. -/
def invalidLength {α : Type} : Eval α := raise .rangeError "Invalid array length"

/-- The array that a method is called on. -/
def thisArray (f : ArrayMethod) (this : Value) : Eval ObjectId := do
  match (← get).array? this with
  | some id => return id
  | none =>
    raise .typeError ("Array.prototype." ++ f.name ++ " called on a value that is not an array")

/-- The elements of an array. -/
def elementsOf (id : ObjectId) : Eval (Elements Value) := do return (← get).elements id

/-- Throws an error if an array is frozen. -/
def requireThawed (id : ObjectId) : Eval Unit := do
  if (← elementsOf id).isFrozen then
    raise .typeError "Cannot assign to read only property 'length' of object '[object Array]'"

/-- Changes the elements of an array that is not frozen. -/
def changeArray {α : Type} (id : ObjectId) (f : Elements Value → α × Elements Value)
    (missing : α) : Eval α := do
  requireThawed id
  changeObject id (fun o => o.changeElements f missing) missing

/-- Throws an error if an array has no room for more elements. -/
def requireRoom (id : ObjectId) (count : Nat) : Eval Unit := do
  requireThawed id
  if maxArrayLength < (← elementsOf id).length + count then invalidLength

/-- Changes the elements of an array that has room for more of them. -/
def growArray (id : ObjectId) (count : Nat) (f : Elements Value → Elements Value) : Eval Unit := do
  requireRoom id count
  changeArray id (fun e => ((), f e)) ()

/-- The elements of a value behind others: those of an array, or the value itself. -/
def appendValue (e : Elements Value) (v : Value) : Eval (Elements Value) := do
  match (← get).array? v with
  | some id =>
    let f ← elementsOf id
    if maxArrayLength < e.length + f.length then invalidLength else return e.append f
  | none => if maxArrayLength < e.length + 1 then invalidLength else return e.push v

/-- The elements of values behind others. -/
def appendAll : Elements Value → List Value → Eval (Elements Value)
  | e, [] => return e
  | e, v :: rest => do appendAll (← appendValue e v) rest

/-- Calls a function for the elements of an array, ascending.  The state of the walk goes from call
to call; a walk can end with a result of its own. -/
def walkElements {σ : Type} (id : ObjectId)
    (visit : σ → Nat → Value → Eval (Sum σ Value)) (finish : σ → Eval Value) (start : Nat) (s : σ) :
    Eval Value := do
  let length := (← elementsOf id).length
  iterate (fun (k, s) => do
    match (← elementsOf id).nextPresent? k with
    | none => return .inr (← finish s)
    | some (i, v) =>
      if length ≤ i then return .inr (← finish s)
      else
        match ← visit s i v with
        | .inl s => return .inl (i + 1, s)
        | .inr r => return .inr r) (length + 1) (start, s)

end Eval

open Eval

namespace Machine

/-! ### Calls for elements -/

/-- Calls a function for one element of an array. -/
def visitor (m : Machine) (f : ObjectId) (this : Value) (id : ObjectId) (i : Nat) (v : Value) :
    Eval Value :=
  m.call f this [v, .ofNat i, .object id]

/-- The first of some indices for whose element, if there is any, a function gives true. -/
def find? (m : Machine) (f : ObjectId) (this : Value) (id : ObjectId) (length : Nat) :
    Eval (Option (Nat × Value)) :=
  iterate (fun i => do
    if i < length then
      let v := ((← elementsOf id).get? i).getD .undefined
      if (← m.visitor f this id i v).isTrue then return .inr (some (i, v))
      else return .inl (i + 1)
    else return .inr none) (length + 1) 0

/-- Combines the elements of an array from an index on. -/
def reduceFrom (m : Machine) (f id : ObjectId) (start : Nat) (v : Value) : Eval Value :=
  walkElements id
    (fun acc i v => do return .inl (← m.call f .undefined [acc, v, .ofNat i, .object id]))
    (fun acc => return acc) start v

/-- Combines the elements of an array; without a value to start with, the first element is it. -/
def reduce (m : Machine) (f id : ObjectId) (start : Option Value) : Eval Value := do
  match start with
  | some v => m.reduceFrom f id 0 v
  | none =>
    match (← elementsOf id).nextPresent? 0 with
    | some (i, v) => m.reduceFrom f id (i + 1) v
    | none => raise .typeError "Reduce of empty array with no initial value"

/-- The elements that an array is made from. -/
def sourceValues (m : Machine) (v : Value) : Eval (List Value) := do
  if ((← get).array? v).isSome || v.isText || v.isNullish then itemsOf v
  else
    match v with
    | .object id =>
      let length ← m.toLength (← getFrom id "length")
      if maxArrayLength < length then invalidLength
      else (List.range length).mapM fun i => getFrom id (.ofNat i)
    | _ => return []

/-- The results of a function for values. -/
def mapValues (m : Machine) (f : ObjectId) (this : Value) : Nat → List Value → Eval (List Value)
  | _, [] => return []
  | i, v :: rest => do
    let w ← m.call f this [v, .ofNat i]
    return w :: (← m.mapValues f this (i + 1) rest)

/-! ### Functions and methods -/

/-- Calls a function that makes or recognises arrays. -/
def arrayFunction (m : Machine) (f : ArrayFunction) (args : List Value) : Eval Value := do
  match f with
  | .isArray => return .boolean ((← get).array? (argument args 0)).isSome
  | .of => arrayOf args
  | .from =>
    if (argument args 1).isUndefined then arrayOf (← m.sourceValues (argument args 0))
    else
      let g ← callable (argument args 1)
      let values ← m.sourceValues (argument args 0)
      arrayOf (← m.mapValues g (argument args 2) 0 values)

/-- Calls a method of arrays that calls back. -/
def arrayVisit (m : Machine) (f : ArrayMethod) (id : ObjectId) (args : List Value) :
    Eval Value := do
  let g ← callable (argument args 0)
  let this := argument args 1
  match f with
  | .every =>
    walkElements id (fun _ i v => do
      if (← m.visitor g this id i v).isTrue then return .inl () else return .inr (.boolean false))
      (fun _ => return .boolean true) 0 ()
  | .some =>
    walkElements id (fun _ i v => do
      if (← m.visitor g this id i v).isTrue then return .inr (.boolean true) else return .inl ())
      (fun _ => return .boolean false) 0 ()
  | .filter =>
    -- The values kept are collected from the last to the first.
    walkElements id (fun acc i v => do
      if (← m.visitor g this id i v).isTrue then return .inl (v :: acc) else return .inl acc)
      (fun acc => arrayOf acc.reverse) 0 []
  | .map =>
    -- The new array has the length from before the calls, and a hole wherever nothing was visited.
    let length := (← elementsOf id).length
    walkElements id (fun e i v => do return .inl (e.set i (← m.visitor g this id i v)))
      (fun e => do return .object (← allocateArray e)) 0 (Elements.ofLength length)
  | .find =>
    match ← m.find? g this id (← elementsOf id).length with
    | some (_, v) => return v
    | none => return .undefined
  | .findIndex =>
    match ← m.find? g this id (← elementsOf id).length with
    | some (i, _) => return .ofNat i
    | none => return .number (-1)
  -- The second argument is the first value here, and no `this`.
  | .reduce => m.reduce g id (if args.length > 1 then some this else none)
  | _ =>
    walkElements id (fun _ i v => do
      let _ ← m.visitor g this id i v
      return .inl ()) (fun _ => return .undefined) 0 ()

/-- The index at which a search in an array starts. -/
def searchStart (m : Machine) (length : Nat) (v : Value) : Eval Nat := do
  return relativeIndex (← m.toInteger v) length

/-- Calls a method of arrays. -/
def arrayMethod (m : Machine) (f : ArrayMethod) (this : Value) (args : List Value) :
    Eval Value := do
  let id ← thisArray f this
  -- The length is read before the arguments are converted, which may change the array.
  let length := (← elementsOf id).length
  match f with
  | .concat =>
    let e ← elementsOf id
    return .object (← allocateArray (← appendAll e.thawed args))
  | .includes =>
    if length = 0 then return .boolean false
    else
      let start ← m.searchStart length (argument args 1)
      return .boolean ((← elementsOf id).includesFrom (argument args 0) start)
  | .indexOf =>
    if length = 0 then return .number (-1)
    else
      let start ← m.searchStart length (argument args 1)
      match (← elementsOf id).indexFrom? (argument args 0) start with
      | some i => return .ofNat i
      | none => return .number (-1)
  | .join =>
    return .text (← m.join id (← m.textOr (argument args 0) ","))
  | .toString => return .text (← m.join id ",")
  | .slice =>
    let start ← m.searchStart length (argument args 0)
    let stop ← m.indexOr (argument args 1) (relativeIndex · length) length
    return .object (← allocateArray ((← elementsOf id).slice start stop))
  | .pop => return (← changeArray id (·.pop) none).getD .undefined
  | .shift => return (← changeArray id (·.shift) none).getD .undefined
  | .push =>
    growArray id args.length (·.pushAll args)
    -- Nothing ran meanwhile: the length is still the one read above.
    return .ofNat (length + args.length)
  | .unshift =>
    growArray id args.length (·.unshift args)
    return .ofNat (length + args.length)
  | .reverse =>
    changeArray id (fun e => ((), e.reverse)) ()
    return this
  | .every | .filter | .find | .findIndex | .forEach | .map | .reduce | .some =>
    m.arrayVisit f id args

end Machine

end Scriptlet
