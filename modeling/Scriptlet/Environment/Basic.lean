import Scriptlet.Value.Basic

/-!
# Environments

An environment holds variables by name and refers to the environment around it.  Environments live
in numbered places, which are used again after those that nothing reaches have been removed.

## Main definitions

* `Variable`, `Environment` — single environments.
* `Environment.find?`, `Environment.insert`, `Environment.erase` — their variables.
* `Environments` — the places of environments, with `Environments.allocate`.
* `Environments.holder` — where a name is found.
* `Environments.collect` — removal of the environments that nothing reaches.
-/

namespace Scriptlet

/-- A variable; it has no value until it is initialized. -/
structure Variable where
  /-- The value. -/
  value : Option Value
  /-- Whether every assignment to a variable that does not change is an error. -/
  isStrict : Bool
  /-- Whether assignments change the value. -/
  isMutable : Bool
  /-- Whether it may be deleted. -/
  isDeletable : Bool
deriving Inhabited

namespace Variable

/-- A variable that assignments change, without value. -/
def changing : Variable := ⟨none, false, true, false⟩

/-- A variable that assignments do not change, without value. -/
def constant (isStrict : Bool) : Variable := ⟨none, isStrict, false, false⟩

end Variable

/-- An environment. -/
structure Environment where
  /-- The environment around it. -/
  outer : Option EnvironmentId
  /-- The variables with their names. -/
  entries : List (String × Variable)
deriving Inhabited

namespace Environment

/-- The variable of the list with the given name. -/
def lookup (name : String) : List (String × Variable) → Option Variable
  | [] => none
  | (n, v) :: rest => if n == name then some v else lookup name rest

/-- The list with a variable of the given name. -/
def assign (name : String) (v : Variable) : List (String × Variable) → List (String × Variable)
  | [] => [(name, v)]
  | (n, w) :: rest => if n == name then (n, v) :: rest else (n, w) :: assign name v rest

/-- The variable with the given name. -/
def find? (e : Environment) (name : String) : Option Variable := lookup name e.entries

/-- Whether there is a variable with the given name. -/
def has (e : Environment) (name : String) : Bool := (e.find? name).isSome

/-- The environment with a variable of the given name. -/
def insert (e : Environment) (name : String) (v : Variable) : Environment :=
  { e with entries := assign name v e.entries }

/-- The environment without a variable of the given name. -/
def erase (e : Environment) (name : String) : Environment :=
  { e with entries := e.entries.filter fun p => !(p.1 == name) }

end Environment

/-! ### Places -/

/-- The places of environments. -/
structure Environments where
  /-- The environments; nothing in a place that is free. -/
  records : Array (Option Environment)
  /-- The places that are free, in the order in which they are used again. -/
  free : List Nat
  /-- How many environments there have to be for a collection. -/
  threshold : Nat
deriving Inhabited

namespace Environments

/-- No environments. -/
def empty : Environments := ⟨#[], [], 0⟩

/-- The least number of environments for a collection. -/
def leastThreshold : Nat := 1024

/-- The number of environments. -/
def count (s : Environments) : Nat := s.records.size - s.free.length

/-- The environment at a place. -/
def get? (s : Environments) (id : EnvironmentId) : Option Environment := (s.records[id.index]?).join

/-- Another environment at a place. -/
def set (s : Environments) (id : EnvironmentId) (e : Environment) : Environments :=
  { s with records := s.records.setIfInBounds id.index (some e) }

/-- Puts an environment into a place, a free one if there is any. -/
def allocate (s : Environments) (e : Environment) : EnvironmentId × Environments :=
  match s with
  | ⟨records, i :: free, threshold⟩ => (⟨i⟩, ⟨records.setIfInBounds i (some e), free, threshold⟩)
  | ⟨records, [], threshold⟩ => (⟨records.size⟩, ⟨records.push (some e), [], threshold⟩)

/-- Where a name is found: in an environment, in none, or the search leads to a place that is
empty. -/
inductive Holder
  | environment (id : EnvironmentId)
  | nowhere
  | dangling
deriving DecidableEq, Repr

/-- Where a name is found, in at most `fuel` environments from the given one outwards. -/
def holderFrom (s : Environments) (name : String) : Nat → Option EnvironmentId → Holder
  | _, none => .nowhere
  | 0, some _ => .dangling
  | fuel + 1, some id =>
    match s.get? id with
    | some e => if e.has name then .environment id else holderFrom s name fuel e.outer
    | none => .dangling

/-- Where a name is found, from the given environment outwards. -/
def holder (s : Environments) (name : String) (id : EnvironmentId) : Holder :=
  s.holderFrom name (s.records.size + 1) (some id)

/-- Marks an environment and those around it, at most `fuel` of them, up to one that is marked. -/
def mark (s : Environments) : Nat → Array Bool → Option EnvironmentId → Array Bool
  | 0, marks, _ | _, marks, none => marks
  | fuel + 1, marks, some id =>
    if marks[id.index]?.getD true then marks
    else mark s fuel (marks.setIfInBounds id.index true) ((s.get? id).bind (·.outer))

/-- The environments that the given ones reach. -/
def reached (s : Environments) (roots : List EnvironmentId) : Array Bool :=
  roots.foldl (fun marks id => s.mark (s.records.size + 1) marks (some id))
    (Array.replicate s.records.size false)

/-- The places from an index on that hold an environment without mark. -/
def unmarked (s : Environments) (marks : Array Bool) : List Nat :=
  (List.range s.records.size).filter fun i =>
    !(marks[i]?.getD false) && (s.records[i]?.join).isSome

/-- Removes the environments that the given ones do not reach. -/
def sweep (s : Environments) (roots : List EnvironmentId) : Environments :=
  let marks := s.reached roots
  { s with
    records := s.records.mapIdx fun i e => if marks[i]?.getD false then e else none
    free := (s.unmarked marks).reverse ++ s.free }

/-- Whether there are too few environments for a collection. -/
def isSparse (s : Environments) : Bool := s.count < max leastThreshold s.threshold

/-- Removes the environments that the given ones do not reach, if there are many; there have to be
twice as many as are left for the next time. -/
def collect (s : Environments) (roots : List EnvironmentId) : Environments :=
  if s.isSparse then s
  else
    let t := s.sweep roots
    { t with threshold := 2 * t.count }

end Environments

end Scriptlet
