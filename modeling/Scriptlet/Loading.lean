import Scriptlet.Builtin.Arguments
import Scriptlet.Evaluation.Run
import Scriptlet.Supply

/-!
# Loading and calling

A root is loaded into an agent: its free names get their values, and it is evaluated.  The functions
that come of it can be called later.  When an agent has nothing left to do, the environments that
nothing reaches are removed.

## Main definitions

* `Agent.roots`, `Agent.sweep`, `Agent.collect` — removal of environments.
* `Provisions`, `Machine.load` — loading a root.
* `Machine.invoke` — calling a function.
-/

namespace Scriptlet

/-- The environment that a closure was created in, if the object is one. -/
def Object.environment? (o : Object) : Option EnvironmentId :=
  match o.kind with
  | .closure c => some c.environment
  | _ => none

namespace Agent

/-- The environments that may be used again. -/
def roots (a : Agent) : List EnvironmentId :=
  a.contexts.map (·.environment) ++ (a.realms.map (·.globals)).toList
    ++ a.objects.toList.filterMap (·.environment?)

/-- Removes the environments that nothing reaches. -/
def sweep (a : Agent) : Agent := { a with environments := a.environments.sweep a.roots }

/-- Removes the environments that nothing reaches, if nothing is being evaluated and there are many
of them. -/
def collect (a : Agent) : Agent :=
  if a.contexts.isEmpty && !a.environments.isSparse then
    { a with environments := a.environments.collect a.roots }
  else a

/-- Reports a value that was thrown and leaves the agent, if reports are kept. -/
def reportUncaught (a : Agent) (v : Value) : Agent :=
  if a.isVerbose then { a with reports := .uncaught (a.display v) :: a.reports } else a

end Agent

namespace Eval

/-- Runs a computation from outside, and tidies the agent up after it. -/
def concluding {α : Type} (tidy : Agent → Agent) (p : Eval α) : Eval α := fun a =>
  match p a with
  | .ok r a => .ok r (tidy a)
  | .error (.thrown v) a => .error (.thrown v) ((tidy a).reportUncaught v)
  | .error e a => .error e (tidy a)

/-- Creates a constant with a value. -/
def createConstant (e : EnvironmentId) (p : String × Value) : Eval Unit := do
  createVariable e p.1 (.constant true)
  initializeVariable e p.1 p.2

/-- A new realm. -/
def newRealm (r : Realm) : Eval RealmId :=
  modifyGet fun a => (⟨a.realms.size⟩, { a with realms := a.realms.push r })

end Eval

open Eval

/-- What a root is loaded with. -/
structure Provisions where
  /-- Values for free names; of several for one name, the last counts. -/
  values : List (String × Value)
  /-- Whether all variables have to belong to blocks. -/
  noVar : Bool
  /-- Whether the evaluation is traced. -/
  isTraced : Bool

/-- Whether the root is an expression. -/
def Root.isExpression : Root → Bool
  | .expression _ => true
  | .function _ => false

/-- The message for what is wrong with a source. -/
def Source.explain (s : Source) : Rejection → String
  | .unreadable => "Invalid source"
  | .faulty f _ => s.describe f

namespace Machine

/-- The value of a root whose realm is set up. -/
def evaluateRoot (m : Machine) (globals : EnvironmentId) : Root → Eval Value
  | .expression e => m.expression e
  | .function f => do
    record (.evaluate f.form.node f.span)
    let e ← newEnvironment (some globals)
    let v ← declaredFunction f e
    match f.name with
    | none => return v
    | some name =>
      createConstant e (name, v)
      return v

/-- Evaluates a root with the values that are provided for its free names, and tidies the agent up
after it. -/
def loadTidying (m : Machine) (tidy : Agent → Agent) (root : Root) (source : Source)
    (p : Provisions) : Eval Value := do
  match analyze ⟨root.isExpression, p.noVar⟩ root with
  | .error r => raise .syntaxError (source.explain r)
  | .ok analysis =>
    let globals ← newEnvironment none
    let supplied := supply analysis.free p.values
    report (.supplied (supplied.map (·.1)))
    supplied.forM (createConstant globals)
    let realm ← newRealm ⟨source, root, globals, analysis.places, p.isTraced, []⟩
    concluding tidy (inContext ⟨realm, globals⟩ (m.evaluateRoot globals root))

/-- Calls a function from outside, and tidies the agent up after it. -/
def invokeTidying (m : Machine) (tidy : Agent → Agent) (f : Value) (args : List Value) :
    Eval Value := do
  let id ← callable f
  concluding tidy (m.call id .undefined args)

/-- Evaluates a root with the values that are provided for its free names. -/
def load (m : Machine) (root : Root) (source : Source) (p : Provisions) : Eval Value :=
  m.loadTidying Agent.collect root source p

/-- Calls a function from outside. -/
def invoke (m : Machine) (f : Value) (args : List Value) : Eval Value :=
  m.invokeTidying Agent.collect f args

end Machine

end Scriptlet
