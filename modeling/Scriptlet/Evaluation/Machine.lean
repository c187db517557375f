import Scriptlet.Agent.Property
import Scriptlet.Agent.Walk

/-!
# Machines

What evaluation consists of depends on itself: expressions call functions, whose bodies are
statements, which contain expressions.  Each piece of evaluation is therefore written for a machine
that does the tasks inside it.

## Main definitions

* `Completion` — how a statement ends.
* `Reference` — what an expression on the left of an assignment stands for.
* `Task` — what a machine can be asked to do, with the type of the result.
* `Machine` — machines.
-/

namespace Scriptlet

/-- The ways in which a statement can end, unless it throws. -/
inductive CompletionKind
  | normal | break | continue | return
deriving DecidableEq, Repr

/-- How a statement ended, and with which value if it has one. -/
structure Completion where
  /-- How the statement ended. -/
  kind : CompletionKind
  /-- The value. -/
  value : Option Value

namespace Completion

/-- The end of a statement without value. -/
def empty : Completion := ⟨.normal, none⟩

/-- The end of a statement with a value. -/
def normal (v : Value) : Completion := ⟨.normal, some v⟩

/-- Whether what follows is not run. -/
def isAbrupt (c : Completion) : Bool := c.kind != .normal

/-- Whether a loop goes on after its body ended so. -/
def isContinuing (c : Completion) : Bool :=
  match c.kind with
  | .normal | .continue => true
  | .break | .return => false

/-- The completion with a value, its own if it has one. -/
def withDefault (c : Completion) (v : Value) : Completion :=
  { c with value := some (c.value.getD v) }

/-- The completion of a statement that can be broken out of. -/
def outside (c : Completion) : Completion :=
  match c.kind with
  | .break => normal (c.value.getD .undefined)
  | _ => c

/-- The value of a function whose body ended so. -/
def returned (c : Completion) : Value :=
  match c.kind with
  | .return => c.value.getD .undefined
  | _ => .undefined

end Completion

/-- What an expression on the left of an assignment stands for. -/
inductive Reference
  /-- A variable of an environment. -/
  | variable (environment : EnvironmentId) (name : String)
  /-- A name that no environment has. -/
  | unresolvable (name : String)
  /-- A property of a value. -/
  | property (base : Value) (key : PropertyKey)

namespace Reference

/-- The value that a function is called on when it is found at the place. -/
def receiver : Reference → Value
  | property base _ => base
  | _ => .undefined

end Reference

/-- What an object is preferably converted to. -/
inductive Hint
  | text | number
deriving DecidableEq, Repr

/-- What a machine can be asked to do; the index is the type of the result. -/
inductive Task : Type → Type
  /-- The value of an expression. -/
  | expression (e : Expr) : Task Value
  /-- The place that a name stands for where it is used. -/
  | name (place : Span) (name : String) : Task Reference
  /-- The value of a part of a chain and the object that it was read from; nothing if the chain
  ends early. -/
  | link (e : Expr) : Task (Option (Value × Value))
  /-- Running a statement. -/
  | statement (s : Stmt) : Task Completion
  /-- Assigning a value to a target. -/
  | assign (t : Target) (v : Value) : Task Unit
  /-- Giving a value to the names of a pattern: for the first time in an environment, or by
  assignment. -/
  | bind (p : Pattern) (v : Value) (environment : Option EnvironmentId) : Task Unit
  /-- Calling a function. -/
  | call (f : ObjectId) (this : Value) (arguments : List Value) : Task Value
  /-- The value other than an object that an object stands for. -/
  | primitive (o : ObjectId) (hint : Hint) : Task Value

/-- Machines that do tasks; loops go round at most `fuel` times. -/
structure Machine where
  /-- Does a task. -/
  run : {α : Type} → Task α → Eval α
  /-- How often loops go round at most. -/
  fuel : Nat

namespace Machine

/-- The value of an expression. -/
def expression (m : Machine) (e : Expr) : Eval Value := m.run (.expression e)

/-- The place that a name stands for where it is used. -/
def name (m : Machine) (place : Span) (name : String) : Eval Reference := m.run (.name place name)

/-- The value of a call. -/
def call (m : Machine) (f : ObjectId) (this : Value) (args : List Value) : Eval Value :=
  m.run (.call f this args)

/-- The values of expressions, from left to right. -/
def expressions (m : Machine) : List Expr → Eval (List Value)
  | [] => return []
  | e :: rest => do
    let v ← m.expression e
    return v :: (← m.expressions rest)

end Machine

end Scriptlet
