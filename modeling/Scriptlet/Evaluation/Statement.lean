import Scriptlet.Evaluation.Expression

/-!
# Statements

## Main definitions

* `Machine.declaration` — declarations of variables.
* `Machine.block`, `Machine.conditional`, `Machine.switch`, `Machine.attempt` — structured
  statements.
* `Machine.whileLoop`, `Machine.doLoop`, `Machine.countingLoop`, `Machine.forEach` — loops.
* `Machine.evaluateStatement` — running a statement.
-/

namespace Scriptlet

/-- The pattern of the first variable of a declaration. -/
def VarDecl.firstPattern (d : VarDecl) : Pattern :=
  match d.bindings with
  | b :: _ => b.pattern
  | [] => .object [] none

namespace Eval

/-- Runs a computation, and another one on the value if one is thrown. -/
def catching {α : Type} (p : Eval α) (handler : Value → Eval α) : Eval α := fun a =>
  match p a with
  | .error (.thrown v) a => handler v a
  | r => r

/-- Runs a computation and another one after it, also if a value is thrown; an abrupt completion of
the second one counts instead of what came of the first. -/
def followedBy (p last : Eval Completion) : Eval Completion := fun a =>
  match p a with
  | .ok c a =>
    match last a with
    | .ok d a => .ok (if d.isAbrupt then d else c) a
    | .error e a => .error e a
  | .error (.thrown v) a =>
    match last a with
    | .ok d a => if d.isAbrupt then .ok d a else .error (.thrown v) a
    | .error e a => .error e a
  | .error e a => .error e a

/-- The environment in which a declaration gives its names their first values; one that belongs to
a function assigns to them. -/
def declarationPlace (isFunctionWide : Bool) : Eval (Option EnvironmentId) := do
  if isFunctionWide then return none else return some (← environment)

/-- Creates a name without value, which changes or not. -/
def createName (e : EnvironmentId) (isConstant : Bool) (name : String) : Eval Unit :=
  createVariable e name (if isConstant then .constant true else .changing)

/-- Creates a name of a block without value. -/
def createBlockName (e : EnvironmentId) (d : Declaration) : Eval Unit := do
  if d.isKind .const then createVariable e d.name (.constant true)
  else unless ← hasVariable e d.name do createVariable e d.name .changing

/-- Gives a declared function of a block to its name. -/
def initializeFunction (e : EnvironmentId) (f : Function) : Eval Unit := do
  match f.name with
  | none => return
  | some name => initializeVariable e name (← declaredFunction f e)

/-- A new environment with the names of a block. -/
def blockEnvironment (scope : Scope) : Eval EnvironmentId := do
  let e ← newEnvironment (some (← environment))
  scope.declarations.forM (createBlockName e)
  scope.functions.forM (initializeFunction e)
  return e

/-- A new environment with the given names inside the present one. -/
def nestedEnvironment (isConstant : Bool) (names : List String) : Eval EnvironmentId := do
  let e ← newEnvironment (some (← environment))
  names.forM (createName e isConstant)
  return e

/-- Copies a variable from one environment to another one. -/
def copyVariable (source target : EnvironmentId) (name : String) : Eval Unit := do
  createVariable target name .changing
  initializeVariable target name (← readVariable source name)

/-- Replaces the present environment by a copy of it, if there are names to be copied. -/
def renewEnvironment (names : List String) : Eval Unit := do
  if !names.isEmpty then
    let last ← environment
    let next ← newEnvironment (← environmentAt last).outer
    names.forM (copyVariable last next)
    setEnvironment next

end Eval

open Eval

namespace Machine

/-! ### Declarations -/

/-- Gives a declared variable its value; one without value that belongs to a function is left as it
is. -/
def declare (m : Machine) (isFunctionWide : Bool) (b : Binding) : Eval Unit := do
  match b.pattern, b.initializer with
  | .identifier name, none =>
    let r ← resolve name
    if isFunctionWide then pure () else initializeReference r .undefined
  | .identifier name, some e =>
    let r ← resolve name
    let v ← m.named e name
    if isFunctionWide then m.writeReference r v else initializeReference r v
  | _, none => pure ()
  | p, some e =>
    let v ← m.expression e
    m.run (.bind p v (← declarationPlace isFunctionWide))

/-- Gives declared variables their values. -/
def declareAll (m : Machine) (isFunctionWide : Bool) : List Binding → Eval Unit
  | [] => return
  | b :: rest => do
    m.declare isFunctionWide b
    m.declareAll isFunctionWide rest

/-- Runs a declaration of variables, unless it is there for the sake of types. -/
def declaration (m : Machine) (d : VarDecl) : Eval Unit := do
  if !d.isAmbient then m.declareAll (!d.kind.isLexical) d.bindings

/-! ### Blocks, conditions and handlers -/

/-- Runs a block. -/
def block (m : Machine) (b : Block) : Eval Completion := do
  record (.evaluate "BlockStatement" b.span)
  if b.statements.isEmpty then return .empty
  else
    let e ← blockEnvironment (← scopeAt b.span (Scope.ofStatements b.statements))
    inEnvironment e (m.statements b.statements)

/-- Runs a conditional statement. -/
def conditional (m : Machine) (place : Span) (test : Expr) (consequent : Stmt)
    (alternate : Option Stmt) : Eval Completion := do
  let isTaken := (← m.expression test).isTrue
  record (.branch isTaken place)
  match isTaken, alternate with
  | true, _ => return (← m.run (.statement consequent)).withDefault .undefined
  | false, some s => return (← m.run (.statement s)).withDefault .undefined
  | false, none => return .normal .undefined

/-- Handles a thrown value. -/
def handle (m : Machine) (h : Handler) (v : Value) : Eval Completion := do
  record (.evaluate "CatchClause" h.span)
  match h.parameter with
  | none => m.block h.body
  | some p =>
    let e ← nestedEnvironment false p.names
    inEnvironment e do
      m.run (.bind p v (some e))
      m.block h.body

/-- Runs a block with its handler. -/
def guarded (m : Machine) (b : Block) : Option Handler → Eval Completion
  | none => m.block b
  | some h => catching (m.block b) (m.handle h)

/-- Runs a block with its handler and what has to follow. -/
def attempt (m : Machine) (b : Block) (handler : Option Handler) (finalizer : Option Block) :
    Eval Completion := do
  let c ←
    match finalizer with
    | none => m.guarded b handler
    | some last => followedBy (m.guarded b handler) (m.block last)
  return c.withDefault .undefined

/-! ### Clauses -/

/-- The clauses from the first one whose test gives the value. -/
def select (m : Machine) (v : Value) : List Case → Eval (List Case)
  | [] => return []
  | c :: rest =>
    match c.test with
    | none => m.select v rest
    | some e => do
      if v.isStrictly (← m.expression e) then return c :: rest else m.select v rest

/-- The clauses that are run for a value: from the first one whose test gives it, or else from the
default clause.  The clauses behind the default clause are tested last. -/
def selected (m : Machine) (v : Value) (cases : List Case) : Eval (List Case) := do
  let before := cases.takeWhile (·.test.isSome)
  match ← m.select v before, cases.dropWhile (·.test.isSome) with
  | c :: rest, left => return c :: rest ++ left
  | [], [] => return []
  | [], fallback :: after =>
    match ← m.select v after with
    | [] => return fallback :: after
    | chosen => return chosen

/-- Runs clauses one after the other. -/
def clauses (m : Machine) : List Case → Value → Eval Completion
  | [], v => return .normal v
  | c :: rest, v => do
    let r ← m.statements c.statements
    let v := r.value.getD v
    if r.isAbrupt then return r.withDefault v else m.clauses rest v

/-- Runs a switch. -/
def switch (m : Machine) (place : Span) (subject : Expr) (cases : List Case) :
    Eval Completion := do
  let v ← m.expression subject
  let e ← blockEnvironment (← scopeAt place (Scope.ofCases cases))
  inEnvironment e do m.clauses (← m.selected v cases) .undefined

/-! ### Loops -/

/-- What a round of a loop leads to: the next round with the value so far, or the end. -/
def afterRound (c : Completion) (v : Value) : Sum Value Completion :=
  if c.isContinuing then .inl (c.value.getD v) else .inr (c.withDefault v)

/-- Whether a condition that may be missing holds. -/
def holds (m : Machine) : Option Expr → Eval Bool
  | none => return true
  | some e => do return (← m.expression e).isTrue

/-- Evaluates an expression that may be missing. -/
def effect (m : Machine) : Option Expr → Eval Unit
  | none => return
  | some e => do
    let _ ← m.expression e

/-- Runs a loop that tests first. -/
def whileLoop (m : Machine) (test : Expr) (body : Stmt) : Eval Completion :=
  iterate (fun v => do
    if (← m.expression test).isTrue then return afterRound (← m.run (.statement body)) v
    else return .inr (.normal v)) m.fuel .undefined

/-- Runs a loop that tests last. -/
def doLoop (m : Machine) (body : Stmt) (test : Expr) : Eval Completion :=
  iterate (fun v => do
    match afterRound (← m.run (.statement body)) v with
    | .inr c => return .inr c
    | .inl v =>
      if (← m.expression test).isTrue then return .inl v else return .inr (.normal v))
    m.fuel .undefined

/-- Runs the rounds of a counting loop, of which each has variables of its own. -/
def rounds (m : Machine) (names : List String) (test update : Option Expr) (body : Stmt) :
    Eval Completion := do
  renewEnvironment names
  iterate (fun v => do
    if ← m.holds test then
      match afterRound (← m.run (.statement body)) v with
      | .inr c => return .inr c
      | .inl v =>
        renewEnvironment names
        m.effect update
        return .inl v
    else return .inr (.normal v)) m.fuel .undefined

/-- Runs a counting loop. -/
def countingLoop (m : Machine) (init : LoopInit) (test update : Option Expr) (body : Stmt) :
    Eval Completion := do
  match init with
  | .none => m.rounds [] test update body
  | .expression e =>
    let _ ← m.expression e
    m.rounds [] test update body
  | .declaration d =>
    if d.kind.isLexical then
      let isConstant := d.kind == .const
      let e ← nestedEnvironment isConstant d.names
      -- The declaration runs inside the record of the head, which the rounds copy unless it is
      -- constant.
      inEnvironment e do
        record (.evaluate "VariableDeclaration" d.span)
        m.declaration d
        m.rounds (if isConstant then [] else d.names) test update body
    else
      record (.evaluate "VariableDeclaration" d.span)
      m.declaration d
      m.rounds [] test update body

/-- Runs the body of a loop over a collection for one value. -/
def round (m : Machine) (head : LoopHead) (body : Stmt) (v : Value) : Eval Completion := do
  match head with
  | .target t =>
    m.run (.assign t v)
    m.run (.statement body)
  | .declaration d =>
    if d.kind.isLexical then
      -- Every round has a record of its own, so closures made in it keep its value.
      let e ← nestedEnvironment (d.kind == .const) d.names
      inEnvironment e do
        m.run (.bind d.firstPattern v (some e))
        m.run (.statement body)
    else
      m.run (.bind d.firstPattern v none)
      m.run (.statement body)

/-- The collection of a loop; the names of the loop have no value in it. -/
def subject (m : Machine) (head : LoopHead) (e : Expr) : Eval Value := do
  match head.lexical? with
  | none => m.expression e
  | some d =>
    let inner ← nestedEnvironment false d.names
    inEnvironment inner (m.expression e)

/-- Runs the body of a loop for the values of a walk. -/
def forEach (m : Machine) (head : LoopHead) (body : Stmt) (w : Walk) : Eval Completion :=
  iterate (fun (w, v) => do
    match ← nextOf w with
    | (none, _) => return .inr (.normal v)
    | (some x, w) =>
      match afterRound (← m.round head body x) v with
      | .inl v => return .inl (w, v)
      | .inr c => return .inr c) m.fuel (w, .undefined)

/-- The keys that a loop goes over. -/
def loopKeys (v : Value) : Eval (List Value) := do
  match v with
  | .object id => keysOf id
  | .text t => return (List.range t.length).map fun i => .text (Text.ofNat i)
  | _ => return []

/-- Runs a loop over the keys of a value. -/
def forIn (m : Machine) (head : LoopHead) (e : Expr) (body : Stmt) : Eval Completion := do
  let v ← m.subject head e
  if v.isNullish then return .normal .undefined
  else
    let id ← allocateArray (.ofList (← loopKeys v))
    m.forEach head body (.elements id 0)

/-- Runs a loop over the values of a value. -/
def forOf (m : Machine) (head : LoopHead) (e : Expr) (body : Stmt) : Eval Completion := do
  m.forEach head body (← startWalk (← m.subject head e))

/-! ### Statements -/

/-- Runs a statement that has a meaning and is no block. -/
def perform (m : Machine) (s : Stmt) : Eval Completion := do
  match s with
  -- Functions were given their values on entry, and types have none.
  | .empty _ | .function _ | .typeAlias _ | .interface _ => return .empty
  | .expression _ e => return .normal (← m.expression e)
  | .declaration d =>
    m.declaration d
    return .empty
  | .block b => m.block b
  | .conditional place test consequent alternate => m.conditional place test consequent alternate
  -- A `break` or `continue` inside a loop does not leave it.
  | .while _ test body => return (← m.whileLoop test body).outside
  | .doWhile _ body test => return (← m.doLoop body test).outside
  | .for _ init test update body => return (← m.countingLoop init test update body).outside
  | .forIn _ head e body => return (← m.forIn head e body).outside
  | .forOf _ _ head e body => return (← m.forOf head e body).outside
  | .switch place e cases => return (← m.switch place e cases).outside
  | .try _ b handler finalizer => m.attempt b handler finalizer
  | .return _ none => return ⟨.return, some .undefined⟩
  | .return _ (some e) => return ⟨.return, some (← m.expression e)⟩
  | .throw _ e => throw (.thrown (← m.expression e))
  | .break _ _ => return ⟨.break, none⟩
  | .continue _ _ => return ⟨.continue, none⟩
  | .labelled _ _ | .foreign _ _ => unsupported s.kind s.span

/-- Runs a statement. -/
def evaluateStatement (m : Machine) (s : Stmt) : Eval Completion := do
  match s with
  | .block b => m.block b
  | s =>
    record (.evaluate s.node s.span)
    if s.isUnsupported then unsupported s.kind s.span else m.perform s

end Machine

end Scriptlet
