import Scriptlet.Evaluation.Statement

/-!
# Running

Machines are stacked: each does its tasks with the one below it, and the lowest does none.

## Main definitions

* `Machine.step` — doing a task with a machine for the tasks inside it.
* `Task.run` — doing a task with a stack of machines.
* `Machine.ofDepth`, `Machine.tall` — a stack of machines.
-/

namespace Scriptlet

open Eval

namespace Machine

/-- Calls a function. -/
def callFunction (m : Machine) (f : ObjectId) (this : Value) (args : List Value) : Eval Value := do
  match (← object f).kind with
  | .closure c => m.callClosure c args
  | .builtin b => m.callBuiltin b this args
  | _ => throw (.broken .missingFunction)

/-- Does a task with a machine for the tasks inside it. -/
def step (m : Machine) : {α : Type} → Task α → Eval α
  | _, .expression e => m.evaluateExpression e
  | _, .name _ name => resolve name
  | _, .link e => m.evaluateLink e
  | _, .statement s => m.evaluateStatement s
  | _, .assign t v => m.assignTarget t v
  | _, .bind p v e => m.bindPattern p v e
  | _, .call f this args => m.callFunction f this args
  | _, .primitive o hint => m.primitiveOf o hint

end Machine

/-- Does a task with a stack of machines of the given height. -/
def Task.run : Nat → {α : Type} → Task α → Eval α
  | 0, _, _ => throw .exhausted
  | n + 1, _, t => Machine.step ⟨fun t => Task.run n t, n⟩ t

/-- The machine on top of a stack of the given height. -/
def Machine.ofDepth (n : Nat) : Machine := ⟨fun t => Task.run n t, n⟩

/-- A machine on top of a stack that no computation in practice comes to the end of. -/
def Machine.tall : Machine := .ofDepth 1000000000000000000

end Scriptlet
