import Scriptlet.Proofs.Laws
import Scriptlet.Proofs.Requests

/-!
# Laws of all evaluation

What declares names creates environments, and what is inside them is evaluated in another environment
or in a context of its own.  A law that is to hold of all evaluation therefore has two properties: a
stricter one for what finds its way back, and a looser one for what may leave another environment in
the innermost context.  The only places where the environment changes for good are the end of the
parameters of a function and the next round of a counting loop, and both are inside what goes back.

The definitions that declare names are gone through here, as the others are where laws are; nobody who
wants to know what all runs do has to look at them again.

## Main definitions

* `GeneralLaw` — a law with a looser property for computations that change the environment.
* `SessionLaw` — one that also holds of what a host does around a run.
* `GeneralLaw.Rules` — machines that do every task by a computation with the property.

## Main results

* `GeneralLaw.ofDepth` — **every task obeys a general law**, at any depth.
* `SessionLaw.answer` — **whatever a host asks for obeys it**.
-/

namespace Scriptlet

open Eval

/-! ### Environments that are filled -/

/-- Variables of the environment may be created and changed by computations with the property. -/
structure Law.Fills (L : Law) (e : EnvironmentId) : Prop where
  createVariable : ∀ name v, v.isDeletable = false → L.Holds (createVariable e name v)
  initializeVariable : ∀ name v, L.Holds (initializeVariable e name v)
  /-- An assignment, which may create the variable. -/
  writeVariable : ∀ name v isStrict, L.Holds (writeVariable e name v isStrict)

/-- New environments may be changed by computations with the property. -/
def Law.Opens (L : Law) : Prop := ∀ ⦃α : Type⦄ ⦃f : EnvironmentId → Eval α⦄ (outer : Option EnvironmentId),
  (∀ e, L.Fills e → L.Holds (f e)) → L.Holds (newEnvironment outer >>= f)

/-! ### Laws -/

/-- A law that also what declares names hands on or has.  Variables may be created in new environments;
what is done with such an environment then has the property if creating variables in it has. -/
structure GeneralLaw extends Law where
  /-- The property of computations that may leave another environment in the innermost context. -/
  Roams : {α : Type} → Eval α → Prop
  roam : ∀ {α : Type} {p : Eval α}, Holds p → Roams p
  bindRoaming : ∀ {α β : Type} {p : Eval α} {f : α → Eval β}, Roams p → (∀ x, Roams (f x)) →
    Roams (p >>= f)
  iterateRoaming : ∀ {σ α : Type} {p : σ → Eval (Sum σ α)}, (∀ s, Roams (p s)) →
    ∀ n s, Roams (Eval.iterate p n s)
  setEnvironment : ∀ e, Roams (Eval.setEnvironment e)
  inEnvironment : ∀ {α : Type} {p : Eval α} e, Roams p → Holds (Eval.inEnvironment e p)
  inContext : ∀ {α : Type} {p : Eval α} c, Roams p → Holds (Eval.inContext c p)
  opens : toLaw.Opens
  opensRoaming : ∀ {α : Type} {f : EnvironmentId → Eval α} outer,
    (∀ e, toLaw.Fills e → Roams (f e)) → Roams (Eval.newEnvironment outer >>= f)
  initializeVariable : ∀ e name v, Holds (Eval.initializeVariable e name v)
  assignVariable : ∀ e name v, Holds (Eval.writeVariable e name v true)

/-- A law for which all environments are the same, and that also the host hands on or has when it
concludes what it has asked for, and when it tidies up. -/
structure SessionLaw extends GeneralLaw where
  newEnvironment : ∀ outer, Holds (Eval.newEnvironment outer)
  createVariable : ∀ e name v, v.isDeletable = false → Holds (Eval.createVariable e name v)
  writeVariable : ∀ e name v isStrict, Holds (Eval.writeVariable e name v isStrict)
  tidy : ∀ t : Tidying, Holds (modify t.apply)
  concluding : ∀ {p : Eval Value} (t : Tidying), Holds p → Holds (Eval.concluding t.apply p)
  opens := fun _ _ outer hf => toLaw.bind (newEnvironment outer) fun e =>
    hf e ⟨createVariable e, initializeVariable e, writeVariable e⟩
  opensRoaming := fun outer hf => bindRoaming (roam (newEnvironment outer)) fun e =>
    hf e ⟨createVariable e, initializeVariable e, writeVariable e⟩
  assignVariable := fun e name v => writeVariable e name v true

namespace Law.Fills

variable {L : Law} {e : EnvironmentId} (h : L.Fills e)

include h

section Names

variable (name : String) (v : Value)

/-- A name is created if it is not there. -/
theorem createMissing : L.Holds (do
    unless ← Eval.hasVariable e name do Eval.createVariable e name .changing) := by
  refine L.bind (Law.hasVariable e name) fun isThere => ?_
  cases isThere with
  | true => exact L.pure ()
  | false => exact h.createVariable name _ rfl

theorem createInitialized {x : Variable} (hx : x.isDeletable = false) {q : Eval Value}
    (hq : L.Holds q) : L.Holds (do
    Eval.createVariable e name x
    Eval.initializeVariable e name (← q)) :=
  L.bind (h.createVariable name x hx) fun _ => L.bind hq fun w => h.initializeVariable name w

/-- A name of a block that holds nothing yet. -/
theorem createName (isConstant : Bool) : L.Holds (createName e isConstant name) :=
  h.createVariable name _ (by cases isConstant <;> rfl)

/-- A variable of another environment, with the value that it has there. -/
theorem copyVariable (e' : EnvironmentId) : L.Holds (copyVariable e' e name) :=
  h.createInitialized name rfl (Law.readVariable e' name)

theorem createConstant (p : String × Value) : L.Holds (createConstant e p) :=
  L.bind (h.createVariable p.1 _ rfl) fun _ => h.initializeVariable p.1 p.2

end Names

section Declarations

variable (d : Declaration) (f : Function)

/-- A constant of a block is created where it is declared, and every other name if it is not there. -/
theorem createBlockName : L.Holds (createBlockName e d) := by
  unfold Eval.createBlockName
  split
  · exact h.createVariable d.name _ rfl
  · exact h.createMissing d.name

theorem initializeFunction : L.Holds (initializeFunction e f) := by
  unfold Eval.initializeFunction
  cases f.name with
  | none => exact L.pure ()
  | some name =>
    exact L.bind (Law.declaredFunction L f e) fun v => h.initializeVariable name v

/-- A parameter that is declared twice is created once. -/
theorem createParameter : L.Holds (createParameter e d) := by
  unfold Eval.createParameter
  split
  · exact h.createMissing d.name
  · exact L.pure ()

/-- A variable of a function that is no parameter is undefined at the beginning. -/
theorem createFunctionWide : L.Holds (createFunctionWide e d) := by
  unfold Eval.createFunctionWide
  split
  · exact h.createInitialized d.name rfl (L.pure _)
  · exact L.pure ()

/-- A variable of the body that has the name of a parameter begins with its value. -/
theorem inheritVariable (e' : EnvironmentId) : L.Holds (inheritVariable e' e d) := by
  have hstart : L.Holds (startValue e' d) := by
    unfold startValue
    split
    · exact Law.readVariable e' d.name
    · exact L.pure _
  unfold Eval.inheritVariable
  split
  · exact h.createInitialized d.name rfl hstart
  · exact L.pure ()

/-- Lexical names hold nothing at the beginning. -/
theorem createLexical : L.Holds (createLexical e d) := by
  unfold Eval.createLexical
  split
  · exact h.createVariable d.name _ rfl
  · split
    · exact h.createVariable d.name _ rfl
    · exact L.pure ()

/-- Functions are the last to be given to their names. -/
theorem assignFunction : L.Holds (assignFunction e f) := by
  unfold Eval.assignFunction
  cases f.name with
  | none => exact L.pure ()
  | some name => exact L.bind (Law.declaredFunction L f e) fun v => h.writeVariable name v false

/-- The environment of the body is filled as well. -/
theorem bodyEnvironment (hopens : L.Opens) (scope : Scope) {g : EnvironmentId → Eval α}
    (hg : ∀ inner, L.Fills inner → L.Holds (g inner)) :
    L.Holds (bodyEnvironment f scope e >>= g) := by
  unfold Eval.bodyEnvironment
  split
  · rw [bind_assoc]
    refine hopens _ fun inner hinner => ?_
    rw [bind_assoc]
    exact L.bind (Law.forM (fun d => hinner.inheritVariable d e) _) fun _ => hg inner hinner
  · rw [bind_assoc]
    exact L.bind (Law.forM (fun d => h.createFunctionWide d) _) fun _ => hg e h

end Declarations

/-! #### Parameters -/

section Parameters

variable {m : Machine} (hm : L.Obeys m) (hbind : ∀ p v, L.Holds (m.run (.bind p v (some e))))

include hbind

omit h in
/-- The arguments that are left are put into an array. -/
theorem bindRest (p : Option Pattern) (left : List Value) : L.Holds (m.bindRest e p left) := by
  cases p with
  | none => exact L.pure ()
  | some p => exact L.bind (Law.arrayOf left) fun v => hbind p v

include hm

omit h in
/-- Parameters are bound from left to right. -/
theorem bindParameters (bs : List Binding) (args : List Value) : L.Holds (m.bindParameters e bs args) := by
  induction bs generalizing args with
  | nil => exact L.pure args
  | cons b bs ih =>
    have hvalue : L.Holds (m.parameterValue b (args.headD .undefined)) := by
      unfold Machine.parameterValue
      split
      · split
        · exact Law.namedBy hm _ _
        · exact L.pure _
      · exact L.pure _
    exact L.bind hvalue fun v => L.bind (hbind b.pattern v) fun _ => ih _

end Parameters

end Law.Fills

/-- The environment of a body may stay. -/
theorem Law.Fills.bodyEnvironmentRoaming {L : GeneralLaw} {α : Type} {e : EnvironmentId} (h : L.Fills e)
    (f : Function) (scope : Scope) {g : EnvironmentId → Eval α}
    (hg : ∀ inner, L.Fills inner → L.Roams (g inner)) : L.Roams (Eval.bodyEnvironment f scope e >>= g) := by
  unfold Eval.bodyEnvironment
  split
  · rw [bind_assoc]
    refine L.opensRoaming _ fun inner hinner => ?_
    rw [bind_assoc]
    exact L.bindRoaming (L.roam (Law.forM (fun d => hinner.inheritVariable d e) _)) fun _ => hg inner hinner
  · rw [bind_assoc]
    exact L.bindRoaming (L.roam (Law.forM (fun d => h.createFunctionWide d) _)) fun _ => hg e h

/-! ### Functions in their environments -/

/-- Enters a function whose environment is the given one. -/
def Machine.enterIn (m : Machine) (e : EnvironmentId) (f : Function) (args : List Value)
    (scope : Scope) : Eval Unit := do
  scope.declarations.forM (createParameter e)
  m.bindRest e f.rest (← m.bindParameters e f.parameters args)
  let inner ← bodyEnvironment f scope e
  setEnvironment inner
  scope.declarations.forM (createLexical inner)
  scope.functions.forM (assignFunction inner)

theorem Machine.enter_eq (m : Machine) (f : Function) (args : List Value) : m.enter f args
    = scopeAt f.span (Scope.ofFunction f) >>= fun scope =>
      environment >>= fun e => m.enterIn e f args scope := rfl

/-- A function is entered in the environment of its context. -/
theorem Machine.inContext_enter (m : Machine) {α : Type} (c : Context) (f : Function)
    (args : List Value) (p : Eval α) :
    inContext c (m.enter f args >>= fun _ => p) = inContext c (scopeAt f.span (Scope.ofFunction f) >>=
      fun scope => m.enterIn c.environment f args scope >>= fun _ => p) := by
  have hinside : ∀ b : Agent, b.contexts.head? = some c → (m.enter f args >>= fun _ => p) b
      = (scopeAt f.span (Scope.ofFunction f) >>= fun scope =>
        m.enterIn c.environment f args scope >>= fun _ => p) b := by
    intro b hb
    obtain ⟨rest, hrest⟩ := List.head?_eq_some_iff.mp hb
    rw [enter_eq, bind_assoc]
    rcases scopeAt_apply f.span (Scope.ofFunction f) b with hscope | ⟨i, hscope⟩
    · rw [bind_ok hscope, bind_ok hscope, bind_assoc, bind_ok (environment_eq hrest)]
    · rw [bind_error hscope, bind_error hscope]
  funext a
  change ending _ _ _ = ending _ _ _
  unfold ending
  rw [hinside _ rfl]

namespace GeneralLaw

variable {α : Type} (L : GeneralLaw)

/-! ### Environments -/

section Environments

variable (e : EnvironmentId) (v : Value) (f : Function) (scope : Scope)

/-- Only names can be initialized; everything else breaks the computation. -/
theorem initializeReference (r : Reference) : L.Holds (initializeReference r v) := by
  cases r with
  | «variable» e name => exact L.initializeVariable e name v
  | _ => exact L.throw _

/-- The environment of a block has its names from the beginning. -/
theorem blockEnvironment : L.Holds (blockEnvironment scope) := by
  refine L.bind Law.environment fun outer => L.opens _ fun e he => ?_
  refine L.bind (Law.forM (fun d => he.createBlockName d) _) fun _ => ?_
  exact L.bind (Law.forM (fun f => he.initializeFunction f) _) fun _ => L.pure e

/-- So has the environment in which the subject of a loop is evaluated. -/
theorem nestedEnvironment (isConstant : Bool) (names : List String) :
    L.Holds (nestedEnvironment isConstant names) := by
  refine L.bind Law.environment fun outer => L.opens _ fun e he => ?_
  exact L.bind (Law.forM (fun n => he.createName n isConstant) _) fun _ => L.pure e

/-- A round ends in another environment than it began in. -/
theorem renewEnvironment (names : List String) : L.Roams (renewEnvironment names) := by
  unfold Eval.renewEnvironment
  split
  · refine L.bindRoaming (L.roam Law.environment) fun last => ?_
    refine L.bindRoaming (L.roam (Law.environmentAt last)) fun x => ?_
    refine L.opensRoaming _ fun next hnext => ?_
    refine L.bindRoaming (L.roam (Law.forM (fun n => hnext.copyVariable n last) names)) fun _ => ?_
    exact L.setEnvironment next
  · exact L.roam (L.pure ())

end Environments

/-! ### Machines -/

/-- The machine does every task by a computation with the property. -/
def Rules (m : Machine) : Prop := ∀ ⦃α : Type⦄ (t : Task α), L.Holds (m.run t)

section Machines

variable {L} {m : Machine} (hm : L.Rules m)

include hm

/-- A machine that follows the rules in all tasks does so in those that declare nothing. -/
theorem obeys : L.Obeys m := fun _ t _ => hm t

theorem assigns : L.Assigns m where
  write := L.assignVariable
  assign t v := hm (.assign t v)
  bind p v := hm (.bind p v none)

theorem expression (e : Expr) : L.Holds (m.expression e) := hm (.expression e)

theorem statement (s : Stmt) : L.Holds (m.run (.statement s)) := hm (.statement s)

/-- The names of a pattern are bound by the machine itself. -/
theorem bindPattern (p : Pattern) (v : Value) (e : Option EnvironmentId) :
    L.Holds (m.bindPattern p v e) := by
  refine Law.bindPattern (obeys hm) v p (fun p v => hm (.bind p v e)) fun name v => ?_
  cases e with
  | none => exact Law.bindName (obeys hm) v (assigns hm) name
  | some e => exact L.initializeVariable e name v

/-! ### Calls -/

/-- The environment of the body stays when the parameters have their values. -/
theorem enterIn {e : EnvironmentId} (he : L.Fills e) (f : Function) (args : List Value) (scope : Scope) :
    L.Roams (m.enterIn e f args scope) := by
  have hbind := fun p v => hm (.bind p v (some e))
  have hlexical : ∀ inner, L.Fills inner → L.Roams (do
      Eval.setEnvironment inner
      scope.declarations.forM (createLexical inner)
      scope.functions.forM (assignFunction inner)) := by
    intro inner hinner
    refine L.bindRoaming (L.setEnvironment inner) fun _ => ?_
    refine L.bindRoaming (L.roam (Law.forM (fun d => hinner.createLexical d) _)) fun _ => ?_
    exact L.roam (Law.forM (fun f => hinner.assignFunction f) _)
  refine L.bindRoaming (L.roam (Law.forM (fun d => he.createParameter d) _)) fun _ => ?_
  refine L.bindRoaming (L.roam (Law.Fills.bindParameters (obeys hm) hbind _ args)) fun left => ?_
  refine L.bindRoaming (L.roam (Law.Fills.bindRest hbind _ left)) fun _ => ?_
  exact he.bodyEnvironmentRoaming f scope hlexical

/-- If all environments are the same, nobody has to know in which one a function is entered. -/
theorem enter (hfills : ∀ e, L.Fills e) (f : Function) (args : List Value) :
    L.Roams (m.enter f args) := by
  rw [Machine.enter_eq]
  refine L.bindRoaming (L.roam (Law.scopeAt _ _)) fun scope => ?_
  exact L.bindRoaming (L.roam Law.environment) fun e => enterIn hm (hfills e) f args scope

/-- Statements are performed one after the other, until one of them ends them all. -/
theorem statementsFrom (ss : List Stmt) (v : Option Value) : L.Holds (m.statementsFrom ss v) := by
  induction ss generalizing v with
  | nil => exact L.pure _
  | cons s ss ih =>
    refine L.bind (statement hm s) fun c => ?_
    dsimp only
    split
    · exact L.pure _
    · exact ih _

theorem statements (ss : List Stmt) : L.Holds (m.statements ss) := statementsFrom hm ss none

/-- A body is a list of statements or an expression. -/
theorem body (f : Function) : L.Holds (m.body f) := by
  unfold Machine.body
  cases f.body with
  | absent => exact L.pure _
  | concise e => exact expression hm e
  | block _ ss => exact L.bind (statements hm ss) fun c => L.pure _

/-- **A call** has a context of its own. -/
theorem callClosure (c : Closure) (args : List Value) : L.Holds (m.callClosure c args) := by
  refine L.bind (Law.recordCall c) fun _ => L.bind (Law.report _) fun _ => L.opens _ fun e he => ?_
  rw [Machine.inContext_enter]
  refine L.inContext _ (L.bindRoaming (L.roam (Law.scopeAt _ _)) fun scope => ?_)
  exact L.bindRoaming (enterIn hm he c.code args scope) fun _ => L.roam (body hm c.code)

/-- What is called is looked up first: a closure, a built-in function or nothing that can be
called. -/
theorem callFunction (f : ObjectId) (this : Value) (args : List Value) :
    L.Holds (m.callFunction f this args) := by
  refine L.bind (Law.object f) fun o => ?_
  cases o.kind with
  | closure c => exact callClosure hm c args
  | builtin b => exact Law.callBuiltin (obeys hm) this args b
  | ordinary | array | error => exact L.throw _

/-! ### Declarations and blocks -/

/-- A declaration without initializer gives undefined to a lexical name, and nothing to others. -/
theorem declare (isFunctionWide : Bool) (b : Binding) : L.Holds (m.declare isFunctionWide b) := by
  have hplace : L.Holds (declarationPlace isFunctionWide) := by
    unfold declarationPlace
    split
    · exact L.pure none
    · exact L.bind Law.environment fun e => L.pure _
  have hbound : ∀ e p, L.Holds (do
      let v ← m.expression e
      m.run (.bind p v (← declarationPlace isFunctionWide))) := fun e p =>
    L.bind (expression hm e) fun v => L.bind hplace fun i => hm (.bind p v i)
  -- Plain names are bound on the spot, by whether the declaration is function-wide; a pattern is a
  -- task of its own.
  obtain ⟨p, e⟩ := b
  unfold Machine.declare
  cases p with
  | identifier name =>
    cases e with
    | none =>
      refine L.bind (Law.resolve name) fun r => ?_
      split
      · exact L.pure ()
      · exact initializeReference L _ r
    | some e =>
      refine L.bind (Law.resolve name) fun r => L.bind (Law.named (obeys hm) e name) fun v => ?_
      split
      · exact Law.writeReference (obeys hm) v (assigns hm) r
      · exact initializeReference L v r
  | array | object | withDefault =>
    cases e with
    | none => exact L.pure ()
    | some e => exact hbound e _

theorem declaration (d : VarDecl) : L.Holds (m.declaration d) := by
  have hall : ∀ isFunctionWide bs, L.Holds (m.declareAll isFunctionWide bs) := by
    intro isFunctionWide bs
    induction bs with
    | nil => exact L.pure ()
    | cons b bs ih => exact L.bind (declare hm isFunctionWide b) fun _ => ih
  unfold Machine.declaration
  split
  · exact hall _ _
  · exact L.pure ()

/-- A block without statements needs no environment. -/
theorem block (b : Block) : L.Holds (m.block b) := by
  refine L.bind (Law.record _) fun _ => ?_
  split
  · exact L.pure _
  · refine L.bind (Law.scopeAt _ _) fun scope => L.bind (blockEnvironment L scope) fun e => ?_
    exact L.inEnvironment e (L.roam (statements hm b.statements))

/-- The parameter of a handler has an environment of its own around the block. -/
theorem handle (h : Handler) (v : Value) : L.Holds (m.handle h v) := by
  refine L.bind (Law.record _) fun _ => ?_
  cases h.parameter with
  | none => exact block hm h.body
  | some p =>
    refine L.bind (nestedEnvironment L false p.names) fun e => L.inEnvironment e (L.roam ?_)
    exact L.bind (hm (.bind p v (some e))) fun _ => block hm h.body

/-- **A block with its handler.** -/
theorem guarded (b : Block) (h : Option Handler) : L.Holds (m.guarded b h) :=
  Law.guarded (block hm b) fun c v _ => handle hm c v

/-- Clauses are run until one of them is left. -/
theorem clauses (cs : List Case) (v : Value) : L.Holds (m.clauses cs v) := by
  induction cs generalizing v with
  | nil => exact L.pure _
  | cons c cs ih =>
    refine L.bind (statements hm c.statements) fun r => ?_
    dsimp only
    split
    · exact L.pure _
    · exact ih _

/-- The value that the clauses are tested against is evaluated outside of their environment. -/
theorem switch (place : Span) (subject : Expr) (cs : List Case) :
    L.Holds (m.switch place subject cs) := by
  refine L.bind (expression hm subject) fun v => L.bind (Law.scopeAt _ _) fun scope => ?_
  refine L.bind (blockEnvironment L scope) fun e => L.inEnvironment e (L.roam ?_)
  exact L.bind (Law.selected (obeys hm) v cs) fun chosen => clauses hm chosen _

/-! ### Loops -/

/-- The subject of a loop is evaluated where the names of the loop hold nothing. -/
theorem subject (head : LoopHead) (e : Expr) : L.Holds (m.subject head e) := by
  unfold Machine.subject
  cases head.lexical? with
  | none => exact expression hm e
  | some d =>
    refine L.bind (nestedEnvironment L false d.names) fun inner => ?_
    exact L.inEnvironment inner (L.roam (expression hm e))

/-- Each round of a loop over values has an environment for its names. -/
theorem round (head : LoopHead) (s : Stmt) (v : Value) : L.Holds (m.round head s v) := by
  cases head with
  | target t => exact L.bind (hm (.assign t v)) fun _ => statement hm s
  | declaration d =>
    unfold Machine.round
    dsimp only
    split
    · refine L.bind (nestedEnvironment L _ d.names) fun e => L.inEnvironment e (L.roam ?_)
      exact L.bind (hm (.bind _ v (some e))) fun _ => statement hm s
    · exact L.bind (hm (.bind _ v none)) fun _ => statement hm s

/-- The rounds of a counting loop; each may leave the environment of the next one. -/
theorem rounds (names : List String) (test update : Option Expr) (s : Stmt) :
    L.Roams (m.rounds names test update s) := by
  refine L.bindRoaming (renewEnvironment L names) fun _ => L.iterateRoaming (fun v => ?_) _ _
  refine L.bindRoaming (L.roam (Law.holds (obeys hm) test)) fun goesOn => ?_
  split
  · refine L.bindRoaming (L.roam (statement hm s)) fun c => ?_
    split
    · exact L.roam (L.pure _)
    · refine L.bindRoaming (renewEnvironment L names) fun _ => ?_
      exact L.roam (L.bind (Law.effect (obeys hm) update) fun _ => L.pure _)
  · exact L.roam (L.pure _)

/-- Without names there is no other environment. -/
theorem plainRounds (test update : Option Expr) (s : Stmt) :
    L.Holds (m.rounds [] test update s) := by
  refine L.bind (L.pure ()) fun _ => L.iterate (fun v => ?_) _ _
  refine L.bind (Law.holds (obeys hm) test) fun goesOn => ?_
  split
  · refine L.bind (statement hm s) fun c => ?_
    split
    · exact L.pure _
    · exact L.bind (L.pure ()) fun _ => L.bind (Law.effect (obeys hm) update) fun _ => L.pure _
  · exact L.pure _

/-- The names of a counting loop have an environment that is renewed in every round. -/
theorem countingLoop (init : LoopInit) (test update : Option Expr) (s : Stmt) :
    L.Holds (m.countingLoop init test update s) := by
  have hplain := plainRounds hm test update s
  cases init with
  | none => exact hplain
  | expression e => exact L.bind (expression hm e) fun _ => hplain
  | declaration d =>
    have hrecord := Law.record (L := L.toLaw) (.evaluate "VariableDeclaration" d.span)
    unfold Machine.countingLoop
    dsimp only
    split
    · refine L.bind (nestedEnvironment L _ d.names) fun e => L.inEnvironment e ?_
      refine L.bindRoaming (L.roam hrecord) fun _ => ?_
      exact L.bindRoaming (L.roam (declaration hm d)) fun _ => rounds hm _ test update s
    · exact L.bind hrecord fun _ => L.bind (declaration hm d) fun _ => hplain

/-! ### All tasks -/

/-- Each form of statements. -/
theorem perform (s : Stmt) : L.Holds (m.perform s) := by
  have houtside : ∀ {p : Eval Completion}, L.Holds p → L.Holds (do return (← p).outside) :=
    fun hp => L.bind hp fun _ => L.pure _
  cases s with
  | empty | function | typeAlias | interface | «break» | «continue» => exact L.pure _
  | expression _ e => exact L.bind (expression hm e) fun _ => L.pure _
  | declaration d => exact L.bind (declaration hm d) fun _ => L.pure _
  | block b => exact block hm b
  | conditional place test consequent alternate =>
    exact Law.conditional (obeys hm) test place (statement hm _) fun s _ => statement hm s
  | «while» place test body => exact houtside (Law.whileLoop (obeys hm) test (statement hm body))
  | doWhile place body test => exact houtside (Law.doLoop (obeys hm) test (statement hm body))
  | «for» place init test update body => exact houtside (countingLoop hm init test update body)
  | forIn place head e body =>
    exact houtside (Law.forIn e (fun v => round hm head body v) (subject hm head e))
  | forOf place isAsync head e body =>
    exact houtside (Law.forOf e (fun v => round hm head body v) (subject hm head e))
  | switch place e cs => exact houtside (switch hm place e cs)
  | «try» place b handler finalizer =>
    exact Law.attempt (block hm b) (fun c v _ => handle hm c v) fun last _ => block hm last
  | «return» place e =>
    cases e with
    | none => exact L.pure _
    | some e => exact L.bind (expression hm e) fun _ => L.pure _
  | throw place e => exact L.bind (expression hm e) fun _ => L.throw _
  | labelled | foreign => exact Law.unsupported _ _

/-- The evaluation of a statement is recorded first. -/
theorem evaluateStatement (s : Stmt) : L.Holds (m.evaluateStatement s) := by
  have hrest : L.Holds (do
      record (.evaluate s.node s.span)
      if s.isUnsupported then unsupported s.kind s.span else m.perform s) := by
    refine L.bind (Law.record _) fun _ => ?_
    split
    · exact Law.unsupported _ _
    · exact perform hm s
  cases s with
  | block b => exact block hm b
  | _ => exact hrest

/-- **One step obeys the law** if the machine for the tasks inside it does. -/
theorem step (t : Task α) : L.Holds (m.step t) := by
  cases t with
  | statement s => exact evaluateStatement hm s
  | bind p v e => exact bindPattern hm p v e
  | assign t v => exact Law.assignTarget (obeys hm) v t (assigns hm)
  | expression e => exact Law.step (obeys hm) (assigns hm) (callFunction hm) (.expression e)
  | name place name => exact Law.step (obeys hm) (assigns hm) (callFunction hm) (.name place name)
  | link e => exact Law.step (obeys hm) (assigns hm) (callFunction hm) (.link e)
  | call f this args => exact callFunction hm f this args
  | primitive o hint => exact Law.step (obeys hm) (assigns hm) (callFunction hm) (.primitive o hint)

end Machines

/-- **Every task obeys the law**, at any depth. -/
theorem ofDepth (n : Nat) : L.Rules (.ofDepth n) := by
  induction n with
  | zero => exact fun _ _ => L.throw _
  | succ n ih => exact fun _ t => step ih t

/-! ### Loading and calling -/

section Requests

variable {L} {m : Machine} (hm : L.Rules m) {t : Tidying}
  (hconcluding : ∀ {p : Eval Value}, L.Holds p → L.Holds (Eval.concluding t.apply p))

include hm

/-- A function that is a root has an environment for its name. -/
theorem evaluateRoot (globals : EnvironmentId) (root : Root) :
    L.Holds (m.evaluateRoot globals root) := by
  cases root with
  | expression e => exact expression hm e
  | function f =>
    refine L.bind (Law.record _) fun _ => L.opens _ fun e he => ?_
    refine L.bind (Law.declaredFunction L.toLaw f e) fun v => ?_
    cases f.name with
    | none => exact L.pure v
    | some name => exact L.bind (he.createConstant (name, v)) fun _ => L.pure v

include hconcluding

/-- The names that are supplied are created before the realm, and the root is evaluated after it. -/
theorem load (root : Root) (source : Source) (p : Provisions) :
    L.Holds (m.loadTidying t.apply root source p) := by
  unfold Machine.loadTidying
  cases analyze ⟨root.isExpression, p.noVar⟩ root with
  | error r => exact Law.raise _ _
  | ok s =>
    refine L.opens _ fun globals hglobals => L.bind (Law.report _) fun _ => ?_
    refine L.bind (Law.forM (fun x => hglobals.createConstant x) _) fun _ => ?_
    refine L.bind (L.newRealm _ rfl) fun r => hconcluding (L.inContext _ (L.roam ?_))
    exact evaluateRoot hm globals root

/-- What is invoked has to be a function. -/
theorem invoke (f : Value) (args : List Value) : L.Holds (m.invokeTidying t.apply f args) :=
  L.bind (Law.callable f) fun _ => hconcluding (hm (.call _ _ _))

/-- **Whatever a host asks for obeys the law**, if tidying up does. -/
theorem answer (htidy : L.Holds (modify t.apply)) (r : Request) : L.Holds (r.answer m t) := by
  cases r with
  | globals => exact L.bind (Law.standardGlobals L.toLaw) fun _ => L.pure _
  | load p => exact L.bind L.get fun _ => L.bind (load hm hconcluding _ _ _) fun _ => L.pure _
  | invoke f args => exact L.bind L.get fun _ => L.bind (invoke hm hconcluding _ _) fun _ => L.pure _
  | rest => exact L.bind htidy fun _ => L.pure _

end Requests

end GeneralLaw

namespace SessionLaw

/-- Variables of all environments may be created and changed. -/
theorem fills (L : SessionLaw) (e : EnvironmentId) : L.Fills e :=
  ⟨L.createVariable e, L.initializeVariable e, L.writeVariable e⟩

theorem bodyEnvironment (L : SessionLaw) (e : EnvironmentId) (f : Function) (scope : Scope) :
    L.Holds (bodyEnvironment f scope e) := by
  have h := (L.fills e).bodyEnvironment f L.opens scope fun inner _ => L.pure inner
  rwa [bind_pure] at h

/-- **Whatever a host asks for obeys the law.** -/
theorem answer {L : SessionLaw} {m : Machine} (hm : L.Rules m) (t : Tidying) (r : Request) :
    L.Holds (r.answer m t) := GeneralLaw.answer hm (L.concluding t) (L.tidy t) r

end SessionLaw

end Scriptlet
