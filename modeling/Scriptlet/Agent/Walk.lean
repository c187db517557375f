import Scriptlet.Agent.Display

/-!
# Walks

A walk goes over the elements of an array, looking at the array again at each step, or over the
code points of a text.

## Main definitions

* `Walk` — what is left of a walk.
* `Eval.startWalk`, `Eval.nextOf` — starting, and the next value.
* `Eval.restOf` — all values that are left.
-/

namespace Scriptlet

/-- What is left of a walk. -/
inductive Walk
  /-- The elements of an array from an index on. -/
  | elements (array : ObjectId) (next : Nat)
  /-- The given code points. -/
  | points (rest : List Nat)
  /-- Nothing. -/
  | done

namespace Agent

/-- The next value of a walk, if there is one, and what is left then. -/
def advance (a : Agent) : Walk → Option Value × Walk
  | .elements id next =>
    let e := a.elements id
    if next < e.length then (some ((e.get? next).getD .undefined), .elements id (next + 1))
    else (none, .done)
  | .points (p :: rest) => (some (.text (Text.empty.pushPoint p)), .points rest)
  | .points [] | .done => (none, .done)

/-- All values that are left of a walk. -/
def remaining (a : Agent) : Walk → List Value
  | .elements id next => (a.elements id).toList.drop next
  | .points ps => ps.map fun p => .text (Text.empty.pushPoint p)
  | .done => []

end Agent

namespace Eval

/-- The walk over the values of a value. -/
def startWalk (v : Value) : Eval Walk := do
  match v, (← get).array? v with
  | _, some id => return .elements id 0
  | .text t, none => return .points t.codePoints.toList
  | _, none => raise .typeError ((← get).display v ++ " is not iterable")

/-- The next value of a walk, if there is one, and what is left then. -/
def nextOf (w : Walk) : Eval (Option Value × Walk) := do return (← get).advance w

/-- All values that are left of a walk. -/
def restOf (w : Walk) : Eval (List Value) := do return (← get).remaining w

/-- The values of a value. -/
def itemsOf (v : Value) : Eval (List Value) := do restOf (← startWalk v)

end Eval

end Scriptlet
