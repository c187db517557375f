import Scriptlet.Evaluation.Binding
import Scriptlet.Scope.Basic

/-!
# Functions

A call runs in a context of its own: first the parameters get their values, then the other names of
the function are created, then the body runs.

## Main definitions

* `Eval.closure`, `Eval.functionValue` — function objects.
* `Machine.enter` — the names of a function.
* `Machine.callClosure` — a call.
-/

namespace Scriptlet

namespace Declaration

/-- Whether the name belongs to the whole function. -/
def isFunctionWide (d : Declaration) : Bool := d.isKind .var || d.isKind .function

/-- Whether the name starts with the value of a parameter. -/
def isInherited (d : Declaration) : Bool := d.isKind .parameter && !d.isKind .function

end Declaration

namespace Eval

/-! ### Function objects -/

/-- A new function object. -/
def closure (f : Function) (e : EnvironmentId) (name : String) : Eval Value := do
  return .object (← allocate (.ofKind (.closure ⟨f, e, (← context).realm, name⟩)))

/-- The function object for a declaration. -/
def declaredFunction (f : Function) (e : EnvironmentId) : Eval Value :=
  closure f e (f.name.getD "default")

/-- The function object for an expression; a function with a name of its own knows itself. -/
def functionValue (f : Function) : Eval Value := do
  let e ← environment
  match f.name with
  | none => closure f e ""
  | some name =>
    let inner ← newEnvironment (some e)
    createVariable inner name (.constant false)
    let v ← closure f inner name
    initializeVariable inner name v
    return v

/-! ### Names of scopes -/

/-- Creates a name without value, if it is that of a parameter. -/
def createParameter (e : EnvironmentId) (d : Declaration) : Eval Unit := do
  if d.isKind .parameter then
    unless ← hasVariable e d.name do createVariable e d.name .changing

/-- Creates a name in the environment of the parameters, if it belongs to the whole function and is
no parameter. -/
def createFunctionWide (e : EnvironmentId) (d : Declaration) : Eval Unit := do
  if d.isFunctionWide && !d.isKind .parameter then
    createVariable e d.name .changing
    initializeVariable e d.name .undefined

/-- The value that a name which belongs to a whole function starts with. -/
def startValue (parameters : EnvironmentId) (d : Declaration) : Eval Value :=
  if d.isInherited then readVariable parameters d.name else return .undefined

/-- Creates a name in an environment inside that of the parameters, if it belongs to the whole
function; that of a parameter starts with its value. -/
def inheritVariable (parameters e : EnvironmentId) (d : Declaration) : Eval Unit := do
  if d.isFunctionWide then
    createVariable e d.name .changing
    initializeVariable e d.name (← startValue parameters d)

/-- Creates a name, if it has no value until its declaration is reached. -/
def createLexical (e : EnvironmentId) (d : Declaration) : Eval Unit := do
  if d.isKind .const then createVariable e d.name (.constant true)
  else if d.isKind .let then createVariable e d.name .changing

/-- The environment for the names of a function that are no parameters: one of its own if the
parameters are more than names. -/
def bodyEnvironment (f : Function) (scope : Scope) (e : EnvironmentId) : Eval EnvironmentId := do
  if f.hasParameterExpressions then
    let inner ← newEnvironment (some e)
    scope.declarations.forM (inheritVariable e inner)
    return inner
  else
    scope.declarations.forM (createFunctionWide e)
    return e

/-- Records a call of a closure, unless it is an arrow function. -/
def recordCall (c : Closure) : Eval Unit := do
  if c.code.form != .arrow then recordIn c.realm (.call (c.code.name.getD "") c.code.span)

/-- Gives a declared function of a function body to its name. -/
def assignFunction (e : EnvironmentId) (f : Function) : Eval Unit := do
  match f.name with
  | none => return
  | some name => writeVariable e name (← declaredFunction f e) false

end Eval

open Eval

namespace Machine

/-! ### Parameters -/

/-- The value of a parameter: the argument, or the value that replaces undefined. -/
def parameterValue (m : Machine) (b : Binding) (argument : Value) : Eval Value :=
  match b.initializer with
  | some e => if argument.isUndefined then m.namedBy e b.pattern.name? else return argument
  | none => return argument

/-- Gives the arguments to the parameters; the arguments that are left over. -/
def bindParameters (m : Machine) (e : EnvironmentId) :
    List Binding → List Value → Eval (List Value)
  | [], args => return args
  | b :: rest, args => do
    let v ← m.parameterValue b (args.headD .undefined)
    m.run (.bind b.pattern v (some e))
    m.bindParameters e rest args.tail

/-- Gives the arguments that are left over to their pattern, if there is one. -/
def bindRest (m : Machine) (e : EnvironmentId) : Option Pattern → List Value → Eval Unit
  | none, _ => return
  | some p, left => do m.run (.bind p (← arrayOf left) (some e))

/-- Gives the arguments to the parameters and creates the other names of a function. -/
def enter (m : Machine) (f : Function) (args : List Value) : Eval Unit := do
  let scope ← scopeAt f.span (Scope.ofFunction f)
  let e ← environment
  scope.declarations.forM (createParameter e)
  m.bindRest e f.rest (← m.bindParameters e f.parameters args)
  let inner ← bodyEnvironment f scope e
  setEnvironment inner
  scope.declarations.forM (createLexical inner)
  scope.functions.forM (assignFunction inner)

/-! ### Bodies and calls -/

/-- Runs statements one after the other; the value is the last one that there is. -/
def statementsFrom (m : Machine) : List Stmt → Option Value → Eval Completion
  | [], v => return ⟨.normal, v⟩
  | s :: rest, v => do
    let c ← m.run (.statement s)
    let c := { c with value := c.value <|> v }
    if c.isAbrupt then return c else m.statementsFrom rest c.value

/-- Runs statements one after the other. -/
def statements (m : Machine) (ss : List Stmt) : Eval Completion := m.statementsFrom ss none

/-- The value of a function whose names have been created. -/
def body (m : Machine) (f : Function) : Eval Value := do
  match f.body with
  | .absent => return .undefined
  | .concise e => m.expression e
  | .block _ ss => return (← m.statements ss).returned

/-- Calls a closure. -/
def callClosure (m : Machine) (c : Closure) (args : List Value) : Eval Value := do
  recordCall c
  report (.calling c.name)
  let e ← newEnvironment (some c.environment)
  inContext ⟨c.realm, e⟩ do
    m.enter c.code args
    m.body c.code

end Machine

end Scriptlet
