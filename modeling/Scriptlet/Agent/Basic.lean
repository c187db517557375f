import Scriptlet.Environment.Basic
import Scriptlet.Source
import Scriptlet.Value.Object

/-!
# Agents

An agent is the state in which programs run: their objects, environments and realms, and what is
being evaluated.  Evaluation is a computation on it that may be interrupted; the state at the
interruption is kept.

## Main definitions

* `Realm`, `Context`, `Event`, `Agent` — the state.
* `Interrupt`, `Eval` — the ways to stop early, and computations.
* `Agent.allocate`, `Agent.modifyObject` — the objects.
* `Eval.raise` — throwing an error.
-/

namespace Scriptlet

/-- What one root is evaluated in. -/
structure Realm where
  /-- The source. -/
  source : Source
  /-- The root. -/
  root : Root
  /-- The environment of the names that were supplied. -/
  globals : EnvironmentId
  /-- The places of the syntax in the root that has scopes. -/
  scopes : List Span
  /-- Whether the evaluation is traced. -/
  isTraced : Bool
  /-- The arrays for tagged templates, by the offset at which the template starts. -/
  templates : List (Nat × ObjectId)

namespace Realm

/-- Whether only expressions are allowed that change no variable. -/
def isExpressionOnly (r : Realm) : Bool :=
  match r.root with
  | .expression _ => true
  | .function _ => false

/-- The rules under which the code of the realm is evaluated. -/
def rules (r : Realm) : Rules := ⟨r.isExpressionOnly, false⟩

end Realm

/-- What is being evaluated: the realm of the code, and the environment of its names. -/
structure Context where
  /-- The realm of the code. -/
  realm : RealmId
  /-- The environment of its names. -/
  environment : EnvironmentId
deriving DecidableEq, Repr, Inhabited

/-- What a trace records. -/
inductive Event
  /-- Syntax of the given name is about to be evaluated. -/
  | evaluate (node : String) (place : Span)
  /-- A function of the given name is about to be called. -/
  | call (name : String) (place : Span)
  /-- A conditional statement is about to go on. -/
  | branch (taken : Bool) (place : Span)
deriving DecidableEq, Repr

/-- What an agent reports about its work. -/
inductive Report
  /-- The names that were supplied to a root. -/
  | supplied (names : List String)
  /-- A function of the given name is called. -/
  | calling (name : String)
  /-- A thrown value, as readers see it, leaves the agent. -/
  | uncaught (display : String)
deriving DecidableEq, Repr

/-- The state in which programs run. -/
structure Agent where
  /-- The objects. -/
  objects : Array Object
  /-- The environments. -/
  environments : Environments
  /-- The realms. -/
  realms : Array Realm
  /-- What is being evaluated, the innermost first. -/
  contexts : List Context
  /-- The arrays whose texts are being put together. -/
  joining : List ObjectId
  /-- The methods that have been used. -/
  methods : List (Builtin × ObjectId)
  /-- The number of symbols. -/
  symbolCount : Nat
  /-- What was traced, the last first. -/
  trace : List Event
  /-- Whether reports are kept. -/
  isVerbose : Bool
  /-- The reports, the last first. -/
  reports : List Report

/-- An agent that has nothing; reports are kept if it is verbose. -/
def Agent.new (isVerbose : Bool) : Agent := ⟨#[], .empty, #[], [], [], [], 0, [], isVerbose, []⟩

/-- An agent that has nothing. -/
def Agent.empty : Agent := .new false

instance : Inhabited Agent := ⟨.empty⟩

/-- Ways in which the state can be out of order. -/
inductive Breach
  /-- A place that holds no environment is used. -/
  | missingEnvironment
  /-- A place that holds no realm is used. -/
  | missingRealm
  /-- Nothing is being evaluated. -/
  | missingContext
  /-- A variable that does not exist is initialized. -/
  | missingVariable
  /-- What is called is no function. -/
  | missingFunction
  /-- Syntax is entered whose scope the analysis of the root has not found. -/
  | missingScope
deriving DecidableEq, Repr

/-- Why a computation stopped early. -/
inductive Interrupt
  /-- A value was thrown. -/
  | thrown (v : Value)
  /-- The computation was longer, or an array was to be longer, than allowed. -/
  | exhausted
  /-- The state is out of order. -/
  | broken (b : Breach)

/-- Computations on an agent. -/
abbrev Eval := EStateM Interrupt Agent

/-! ### Objects -/

namespace Agent

/-- The object at a place. -/
def object (a : Agent) (id : ObjectId) : Object := a.objects.getD id.index .empty

/-- Changes the object at a place. -/
def modifyObject (a : Agent) (id : ObjectId) (f : Object → Object) : Agent :=
  { a with objects := a.objects.modify id.index f }

/-- Whether a value is a function, and which. -/
def function? (a : Agent) : Value → Option ObjectId
  | .object id => if (a.object id).isFunction then some id else none
  | _ => none

/-- Whether a value is an array, and which. -/
def array? (a : Agent) : Value → Option ObjectId
  | .object id => if (a.object id).isArray then some id else none
  | _ => none

/-- Whether a value can be called with `new`, and which object it is. -/
def constructor? (a : Agent) : Value → Option ObjectId
  | .object id => if (a.object id).isConstructor then some id else none
  | _ => none

/-- The elements of an array. -/
def elements (a : Agent) (id : ObjectId) : Elements Value :=
  ((a.object id).elements?).getD default

/-- The word for the type of a value. -/
def typeName (a : Agent) : Value → String
  | .undefined => "undefined"
  | .null => "object"
  | .boolean _ => "boolean"
  | .number _ => "number"
  | .text _ => "string"
  | .symbol _ => "symbol"
  | .object id => if (a.object id).isFunction then "function" else "object"

end Agent

namespace Eval

/-- A new object. -/
def allocate (o : Object) : Eval ObjectId :=
  modifyGet fun a => (⟨a.objects.size⟩, { a with objects := a.objects.push o })

/-- The object at a place. -/
def object (id : ObjectId) : Eval Object := do return (← get).object id

/-- Changes the object at a place. -/
def modifyObject (id : ObjectId) (f : Object → Object) : Eval Unit :=
  modify fun a => a.modifyObject id f

/-- The object at a place, and the objects with an empty one instead.  As nothing else holds the
object then, it can be changed without a copy. -/
@[noinline] def takeObject (objects : Array Object) (i : Nat) (h : i < objects.size) :
    Object × Array Object :=
  (objects[i], objects.set i .empty h)

/-- Changes the object at a place, and tells something about the change. -/
def changeObject {α : Type} (id : ObjectId) (f : Object → α × Object) (missing : α) : Eval α :=
  modifyGet fun a =>
    match a with
    | ⟨objects, environments, realms, contexts, joining, methods, symbolCount, trace, isVerbose,
        reports⟩ =>
      -- The object is taken out of the array while it is changed, so that its own arrays are not
      -- copied.
      if h : id.index < objects.size then
        match takeObject objects id.index h with
        | (o, objects) =>
          match f o with
          | (r, o) =>
            (r, ⟨objects.setIfInBounds id.index o, environments, realms, contexts, joining, methods,
              symbolCount, trace, isVerbose, reports⟩)
      else
        (missing, ⟨objects, environments, realms, contexts, joining, methods, symbolCount, trace,
          isVerbose, reports⟩)

/-- A new array of the given elements, if arrays may have so many. -/
def allocateArray (e : Elements Value) : Eval ObjectId :=
  if maxArrayLength < e.length then throw .exhausted else allocate (.ofKind (.array e))

/-- A new array of the given values. -/
def arrayOf (values : List Value) : Eval Value := do
  return .object (← allocateArray (.ofList values))

/-- A new object without properties. -/
def emptyObject : Eval ObjectId := allocate .empty

/-- A new error with the given message, if there is one. -/
def errorObject (kind : ErrorKind) (message : Option Text) : Eval ObjectId :=
  allocate
    { Object.ofKind (.error kind) with
      properties :=
        match message with
        | some t => #[.hidden "message" (.text t)]
        | none => #[] }

/-- Throws a new error. -/
def raise {α : Type} (kind : ErrorKind) (message : String) : Eval α := do
  throw (.thrown (.object (← errorObject kind (some (Text.ofString message)))))

/-- A new symbol. -/
def newSymbol (description : Option Text) : Eval Value :=
  modifyGet fun a =>
    (.symbol ⟨a.symbolCount, description⟩, { a with symbolCount := a.symbolCount + 1 })

/-! ### Contexts and environments -/

/-- The innermost context. -/
def context : Eval Context := do
  match (← get).contexts with
  | c :: _ => return c
  | [] => throw (.broken .missingContext)

/-- The environment of the names in the code that is being evaluated. -/
def environment : Eval EnvironmentId := do return (← context).environment

/-- Sets the environment of the names in the code that is being evaluated. -/
def setEnvironment (id : EnvironmentId) : Eval Unit := do
  match (← get).contexts with
  | c :: rest => modify fun a => { a with contexts := { c with environment := id } :: rest }
  | [] => throw (.broken .missingContext)

/-- The realm at a place. -/
def realmAt (id : RealmId) : Eval Realm := do
  match (← get).realms[id.index]? with
  | some r => return r
  | none => throw (.broken .missingRealm)

/-- The realm of the code that is being evaluated. -/
def realm : Eval Realm := do realmAt (← context).realm

/-- The scope of the syntax at a place, which the realm of the code has to know. -/
def scopeAt (place : Span) (s : Scope) : Eval Scope := do
  if (← realm).scopes.contains place then return s else throw (.broken .missingScope)

/-- Runs a computation and another one after it, whatever comes of the first. -/
def ending {α : Type} (p : Eval α) (after : Agent → Agent) : Eval α := fun a =>
  match p a with
  | .ok r a => .ok r (after a)
  | .error e a => .error e (after a)

/-- The agent whose innermost context has the given environment. -/
def withEnvironmentOf (id : EnvironmentId) (a : Agent) : Agent :=
  match a.contexts with
  | c :: rest => { a with contexts := { c with environment := id } :: rest }
  | [] => a

/-- Runs a computation in an environment, and goes back to the one before it. -/
def inEnvironment {α : Type} (id : EnvironmentId) (p : Eval α) : Eval α := do
  let old ← environment
  setEnvironment id
  ending p (withEnvironmentOf old)

/-- Runs a computation in a context of its own. -/
def inContext {α : Type} (c : Context) (p : Eval α) : Eval α := do
  modify fun a => { a with contexts := c :: a.contexts }
  ending p fun a => { a with contexts := a.contexts.tail }

/-- A new environment. -/
def newEnvironment (outer : Option EnvironmentId) : Eval EnvironmentId :=
  modifyGet fun a =>
    match a with
    | ⟨objects, environments, realms, contexts, joining, methods, symbolCount, trace, isVerbose,
        reports⟩ =>
      let (id, environments) := environments.allocate ⟨outer, []⟩
      (id, ⟨objects, environments, realms, contexts, joining, methods, symbolCount, trace,
        isVerbose, reports⟩)

/-- The environment at a place. -/
def environmentAt (id : EnvironmentId) : Eval Environment := do
  match (← get).environments.get? id with
  | some e => return e
  | none => throw (.broken .missingEnvironment)

/-- Changes the environment at a place. -/
def updateEnvironment (id : EnvironmentId) (f : Environment → Environment) : Eval Unit := do
  let e ← environmentAt id
  modify fun a => { a with environments := a.environments.set id (f e) }

/-- Whether an environment has a variable. -/
def hasVariable (id : EnvironmentId) (name : String) : Eval Bool := do
  return (← environmentAt id).has name

/-- Creates a variable without value. -/
def createVariable (id : EnvironmentId) (name : String) (v : Variable) : Eval Unit :=
  updateEnvironment id (·.insert name v)

/-- Gives a variable its first value. -/
def initializeVariable (id : EnvironmentId) (name : String) (value : Value) : Eval Unit := do
  match (← environmentAt id).find? name with
  | some v => updateEnvironment id (·.insert name { v with value := some value })
  | none => throw (.broken .missingVariable)

/-- The value of a variable. -/
def readVariable (id : EnvironmentId) (name : String) : Eval Value := do
  match ((← environmentAt id).find? name).bind (·.value) with
  | some value => return value
  | none =>
    raise .referenceError ("Cannot access '" ++ name ++ "' before initialization")

/-- Assigns to a variable; one that does not exist is created, unless that is an error. -/
def writeVariable (id : EnvironmentId) (name : String) (value : Value) (isStrict : Bool) :
    Eval Unit := do
  match (← environmentAt id).find? name with
  | none =>
    if isStrict then raise .referenceError (name ++ " is not defined")
    else createVariable id name ⟨some value, false, true, true⟩
  | some v =>
    if v.value.isNone then
      raise .referenceError ("Cannot access '" ++ name ++ "' before initialization")
    else if v.isMutable then
      updateEnvironment id (·.insert name { v with value := some value })
    else if isStrict || v.isStrict then
      raise .typeError ("Assignment to constant variable '" ++ name ++ "'")

/-- Deletes a variable, if it may be deleted; true if there is none afterwards. -/
def deleteVariable (id : EnvironmentId) (name : String) : Eval Bool := do
  match (← environmentAt id).find? name with
  | none => return true
  | some v =>
    if v.isDeletable then
      updateEnvironment id (·.erase name)
      return true
    else return false

/-! ### Traces and reports -/

/-- Records an event, if the realm is traced. -/
def recordIn (r : RealmId) (e : Event) : Eval Unit := do
  if (← realmAt r).isTraced then modify fun a => { a with trace := e :: a.trace }

/-- Records an event, if the realm of the code that is being evaluated is traced. -/
def record (e : Event) : Eval Unit := do recordIn (← context).realm e

/-- Keeps a report, if reports are kept. -/
def report (r : Report) : Eval Unit :=
  modify fun a => if a.isVerbose then { a with reports := r :: a.reports } else a

/-- The text at a place of the source that is being evaluated. -/
def sourceText (place : Span) : Eval String := do return (← realm).source.slice place

/-- Throws the error for syntax that has no meaning. -/
def unsupported {α : Type} (kind : String) (place : Span) : Eval α := do
  raise .syntaxError
    ((← realm).source.quoting ("Unsupported node type `" ++ kind ++ "`") place)

/-! ### Bounds -/

/-- Repeats a computation that gives the state of the next round or a result, at most `fuel`
times. -/
def iterate {σ α : Type} (p : σ → Eval (Sum σ α)) : Nat → σ → Eval α
  | 0, _ => throw .exhausted
  | fuel + 1, s => fun a =>
    match p s a with
    | .ok (.inl s) a => iterate p fuel s a
    | .ok (.inr r) a => .ok r a
    | .error e a => .error e a

end Eval

end Scriptlet
