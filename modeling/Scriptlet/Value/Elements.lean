import Scriptlet.Value.Basic

/-!
# Elements of arrays

An array has a length and, at some of the indices below it, elements.  Those at small indices are
in a block of places one behind the other, of which some may be empty; the others are in a list,
ascending by index.  What moves elements does not look at them, so their type is left open.

## Main definitions

* `Elements` — the elements of an array.
* `Elements.get?`, `Elements.set`, `Elements.setLength`, `Elements.remove` — single elements and
  the length.
* `Elements.presentFrom` — the elements at and above an index, ascending.
* `Elements.reverse`, `Elements.shift`, `Elements.unshift` — moving all elements.
-/

namespace Scriptlet

/-- The elements of an array. -/
structure Elements (α : Type) where
  /-- The places for small indices. -/
  dense : Array (Option α)
  /-- The elements at greater indices, ascending. -/
  sparse : List (Nat × α)
  /-- The length of the array. -/
  length : Nat
  /-- Whether nothing may change. -/
  isFrozen : Bool
deriving Inhabited

namespace Elements

variable {α : Type}

/-- How far behind the block an element may be added to it. -/
def maxGap : Nat := 1024

/-- The given places, one behind the other. -/
def ofPlaces (places : Array (Option α)) : Elements α := ⟨places, [], places.size, false⟩

/-- The given elements, one behind the other. -/
def ofList (values : List α) : Elements α := ofPlaces (values.map some).toArray

/-- Only empty places. -/
def ofLength (n : Nat) : Elements α := ⟨#[], [], n, false⟩

/-- The element of the list at an index. -/
def find? (i : Nat) : List (Nat × α) → Option α
  | [] => none
  | (k, v) :: rest => if k = i then some v else find? i rest

/-- The element at an index. -/
def get? (e : Elements α) (i : Nat) : Option α :=
  if h : i < e.dense.size then e.dense[i] else find? i e.sparse

/-- Whether there is an element at an index. -/
def has (e : Elements α) (i : Nat) : Bool := (e.get? i).isSome

/-- The list with an element at an index. -/
def insert (i : Nat) (v : α) : List (Nat × α) → List (Nat × α)
  | [] => [(i, v)]
  | (k, w) :: rest =>
    if i < k then (i, v) :: (k, w) :: rest
    else if i = k then (i, v) :: rest
    else (k, w) :: insert i v rest

/-- The block with at least the given number of places. -/
def pad (dense : Array (Option α)) : Nat → Array (Option α)
  | 0 => dense
  | n + 1 => pad (dense.push none) n

/-- The elements with a block of at least the given size, which takes over those of the list that
belong to it. -/
def growDense (e : Elements α) (size : Nat) : Elements α :=
  match e with
  | ⟨dense, sparse, length, isFrozen⟩ =>
    let dense := pad dense (size - dense.size)
    ⟨(sparse.takeWhile (·.1 < size)).foldl (fun d (i, v) => d.setIfInBounds i (some v)) dense,
      sparse.dropWhile (·.1 < size), length, isFrozen⟩

/-- Places an element. -/
def place (e : Elements α) (i : Nat) (v : α) : Elements α :=
  if i < e.dense.size then
    match e with
    | ⟨dense, sparse, length, isFrozen⟩ =>
      ⟨dense.setIfInBounds i (some v), sparse, length, isFrozen⟩
  else if i - e.dense.size ≤ maxGap then
    match e.growDense (i + 1) with
    | ⟨dense, sparse, length, isFrozen⟩ =>
      ⟨dense.setIfInBounds i (some v), sparse, length, isFrozen⟩
  else
    match e with
    | ⟨dense, sparse, length, isFrozen⟩ => ⟨dense, insert i v sparse, length, isFrozen⟩

/-- The elements with one at an index, above which the length is. -/
def set (e : Elements α) (i : Nat) (v : α) : Elements α :=
  match e.place i v with
  | ⟨dense, sparse, length, isFrozen⟩ => ⟨dense, sparse, max length (i + 1), isFrozen⟩

/-- The elements with one more at the end. -/
def push (e : Elements α) (v : α) : Elements α := e.set e.length v

/-- The elements below the given length, which is the length then. -/
def setLength (e : Elements α) (n : Nat) : Elements α :=
  match e with
  | ⟨dense, sparse, _, isFrozen⟩ =>
    ⟨if n < dense.size then dense.take n else dense, sparse.filter (·.1 < n), n, isFrozen⟩

/-- The elements without the one at an index. -/
def remove (e : Elements α) (i : Nat) : Elements α :=
  match e with
  | ⟨dense, sparse, length, isFrozen⟩ =>
    if i < dense.size then ⟨dense.setIfInBounds i none, sparse, length, isFrozen⟩
    else ⟨dense, sparse.filter (·.1 != i), length, isFrozen⟩

/-- The elements of a block whose first place has the given index. -/
def densePresent (i : Nat) : List (Option α) → List (Nat × α)
  | [] => []
  | none :: rest => densePresent (i + 1) rest
  | some v :: rest => (i, v) :: densePresent (i + 1) rest

/-- The elements at and above an index with their indices, ascending. -/
def presentFrom (e : Elements α) (start : Nat) : List (Nat × α) :=
  densePresent start (e.dense.toList.drop start) ++ e.sparse.filter (start ≤ ·.1)

/-- All elements with their indices, ascending. -/
def present (e : Elements α) : List (Nat × α) := e.presentFrom 0

/-- The first element of the block among `count` places from an index on. -/
def nextDense? (dense : Array (Option α)) (i : Nat) : Nat → Option (Nat × α)
  | 0 => none
  | count + 1 =>
    match dense[i]? with
    | some (some v) => some (i, v)
    | _ => nextDense? dense (i + 1) count

/-- The first element at or above an index, with its index. -/
def nextPresent? (e : Elements α) (start : Nat) : Option (Nat × α) :=
  match nextDense? e.dense start (e.dense.size - start) with
  | some p => some p
  | none => e.sparse.find? (start ≤ ·.1)

/-- Whether an index at or above the given one and below the length has no element. -/
def hasHolesFrom (e : Elements α) (start : Nat) : Bool :=
  (e.presentFrom start).length < e.length - start

/-- The given elements at the given indices, below the given length. -/
def ofEntries (length : Nat) (isFrozen : Bool) (entries : List (Nat × α)) : Elements α :=
  entries.foldl (fun e (i, v) => e.set i v) ⟨#[], [], length, isFrozen⟩

/-- The elements in reverse order. -/
def reverse (e : Elements α) : Elements α :=
  if e.sparse.isEmpty && e.dense.size == e.length then { e with dense := e.dense.reverse }
  else
    ofEntries e.length e.isFrozen (e.present.reverse.map fun (i, v) => (e.length - 1 - i, v))

/-- The element at the first index, and the others moved down by one. -/
def shift (e : Elements α) : Option α × Elements α :=
  if e.length = 0 then (none, e)
  else if e.sparse.isEmpty then
    (e.dense[0]?.join, { e with dense := e.dense.drop 1, length := e.length - 1 })
  else
    (e.get? 0,
      ofEntries (e.length - 1) e.isFrozen ((e.presentFrom 1).map fun (i, v) => (i - 1, v)))

/-- The given elements in front of the others. -/
def unshift (e : Elements α) (values : List α) : Elements α :=
  let count := values.length
  if e.sparse.isEmpty then
    { e with dense := (values.map some).toArray ++ e.dense, length := e.length + count }
  else
    ofEntries (e.length + count) e.isFrozen
      (values.zipIdx.map (fun (v, i) => (i, v)) ++ e.present.map fun (i, v) => (i + count, v))

/-- The elements up to the length, undefined where there is none. -/
def toList (e : Elements Value) : List Value :=
  (List.range e.length).map fun i => (e.get? i).getD .undefined

end Elements

end Scriptlet
