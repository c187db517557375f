import Scriptlet.Proofs.Securing

/-!
# Machines that leave an environment

A machine whose tasks leave an environment as it is leaves it in everything that it does with them.  The
proof goes through the statements, the functions and the requests of a host: they make environments of
their own for the names that they declare, and none of these is the one that is looked at.  Only a call
of a closure inside it could change it, and a machine that stops before such calls never does.

## Main definitions

* `Task.ComesTo` — the task is to call a closure that may be inside the environment.
* `Task.runSecuring`, `Machine.securing` — stopping where such a closure would change the environment.
* `Machine.Writes` — a closure inside the environment changes it during a computation.

## Main results

* `Machine.IsSecuring.evaluateStatement`, `Machine.IsSecuring.callFunction` — statements and calls.
* `Machine.isBelow_securing` — until it is stopped, a machine that stops does what others do.
* `Machine.isSecuring_securing` — **it leaves the environment**.
* `Agent.IsApart.leaves_run`, `Agent.IsApart.leaves_answer` — **an environment stays as it is unless a
  closure inside it changes it**.
-/

namespace Scriptlet

open Eval

variable {α : Type} {m : Machine} {e : EnvironmentId} {x : Environment}

namespace Machine.IsSecuring

variable (h : m.IsSecuring e x)

include h

/-! ### Expressions -/

theorem expression (t : Expr) : Securing e x (m.expression t) := Law.expression (L := securing e x) h.obeys t

theorem update (op : UpdateOp) (before : Bool) (t : Target) : Securing e x (m.update op before t) := by
  refine .bindYields (h.targetReference? t) (h.finds_targetReference? t) fun r hr => ?_
  cases r with
  | none => exact (securing e x).pure _
  | some r =>
    refine .bind (Law.readReference (L := securing e x) r) fun v => ?_
    refine .bind (Law.toNumber (L := securing e x) h.obeys v) fun n => ?_
    exact .bind (h.writeReference _ (hr r rfl)) fun _ => (securing e x).pure _

theorem assignment (op : AssignOp) (t : Target) (u : Expr) : Securing e x (m.assignment op t u) := by
  have hassigning : ∀ r v, r.Avoids e → Securing e x (m.assigning r v) := fun r v hr =>
    .bind (h.writeReference v hr) fun _ => (securing e x).pure v
  have hnamed := Law.namedBy (L := securing e x) h.obeys u t.name?
  unfold Machine.assignment
  split
  · exact Law.raise (L := securing e x) _ _
  · split
    · exact .bind (h.expression u) fun v => .bind (h.assign t v) fun _ => (securing e x).pure v
    · refine .bindYields (h.targetReference? t) (h.finds_targetReference? t) fun r hr => ?_
      cases r with
      | none => exact (securing e x).pure _
      | some r =>
        have hread := Law.readReference (L := securing e x) r
        have hassign := fun v => hassigning r v (hr r rfl)
        cases op with
        | plain => exact .bind hnamed hassign
        | logical op =>
          refine .bind hread fun old => ?_
          split
          · exact (securing e x).pure old
          · exact .bind hnamed hassign
        | binary op =>
          refine .bind hread fun old => .bind (h.expression u) fun v => ?_
          exact .bind (Law.binary (L := securing e x) h.obeys old v op) hassign

theorem evaluateExpression (t : Expr) : Securing e x (m.evaluateExpression t) := by
  refine .bind (Law.record (L := securing e x) _) fun _ => ?_
  refine .bind (Law.realm (L := securing e x)) fun r => ?_
  split
  · exact Law.unsupported (L := securing e x) _ _
  · generalize t.inner = u
    cases u with
    | assign place op t u => exact h.assignment op t u
    | update place op before t => exact h.update op before t
    | _ => exact Law.valueOf (L := securing e x) h.obeys _ nofun

/-! ### Declarations -/

theorem declare (isFunctionWide : Bool) (b : Binding) : Securing e x (m.declare isFunctionWide b) := by
  have hinitialize : ∀ r v, r.Avoids e → Securing e x (initializeReference r v) := by
    intro r v hr
    cases r with
    | «variable» i name =>
      exact (Securing.fills x hr.ne).initializeVariable name v
    | _ => exact (securing e x).throw _
  have hresolve := fun name => Law.resolve (L := securing e x) name
  -- A pattern is bound in the environment that is evaluated in, which is not the secured one.
  have hbound : ∀ u p, Securing e x (do
      let v ← m.expression u
      m.run (.bind p v (← declarationPlace isFunctionWide))) := by
    intro u p
    refine .bind (h.expression u) fun v => ?_
    cases isFunctionWide with
    | true => exact h.bind p v nofun
    | false =>
      change Securing e x ((environment >>= fun i => pure (some i)) >>= fun o => m.run (.bind p v o))
      rw [bind_assoc]
      refine Securing.environment fun i a ha hi => ?_
      exact h.bind p v (fun hie => hi.ne (Option.some_inj.mp hie)) a ha
  obtain ⟨p, u⟩ := b
  unfold Machine.declare
  cases p with
  | identifier name =>
    cases u with
    | none =>
      refine .bindYields (hresolve name) (.resolve name) fun r hr => ?_
      split
      · exact (securing e x).pure ()
      · exact hinitialize r _ hr
    | some u =>
      refine .bindYields (hresolve name) (.resolve name) fun r hr => ?_
      refine .bind (Law.named (L := securing e x) h.obeys u name) fun v => ?_
      split
      · exact h.writeReference v hr
      · exact hinitialize r v hr
  | array | object | withDefault =>
    cases u with
    | none => exact (securing e x).pure ()
    | some u => exact hbound u _

theorem declaration (d : VarDecl) : Securing e x (m.declaration d) := by
  have hall : ∀ isFunctionWide bs, Securing e x (m.declareAll isFunctionWide bs) := by
    intro isFunctionWide bs
    induction bs with
    | nil => exact (securing e x).pure ()
    | cons b bs ih => exact .bind (h.declare isFunctionWide b) fun _ => ih
  unfold Machine.declaration
  split
  · exact hall _ _
  · exact (securing e x).pure ()

/-! ### Blocks -/

theorem statementsFrom (ss : List Stmt) (v : Option Value) : Securing e x (m.statementsFrom ss v) := by
  induction ss generalizing v with
  | nil => exact (securing e x).pure _
  | cons s ss ih =>
    refine .bind (h.statement s) fun c => ?_
    dsimp only
    split
    · exact (securing e x).pure _
    · exact ih _

theorem statements (ss : List Stmt) : Securing e x (m.statements ss) := h.statementsFrom ss none

end Machine.IsSecuring

/-- What is done in the new environment of a block. -/
theorem Securing.blockEnvironment (scope : Scope) {p : Eval α} (hp : Securing e x p)
    (hlinks : Linking p) :
    Securing e x (do
      let i ← Eval.blockEnvironment scope
      inEnvironment i p) := by
  unfold Eval.blockEnvironment
  simp only [bind_assoc, pure_bind]
  refine Securing.environment fun o => SecuringIn.newEnvironment fun i hi => ?_
  have hfills := Securing.fills x hi
  have hnames := fun l => Law.forM (fun d => hfills.createBlockName d) l
  have hfunctions := fun l => Law.forM (fun f => hfills.initializeFunction f) l
  refine SecuringIn.bind (.of_securing (hnames _)) ?_ fun _ => ?_
  · exact Law.forM (L := linking.toLaw) (fun d => (Linking.fills i).createBlockName d) _
  · refine SecuringIn.bind (.of_securing (hfunctions _)) ?_ fun _ => .inEnvironment hp hlinks
    exact Law.forM (L := linking.toLaw) (fun f => (Linking.fills i).initializeFunction f) _

/-- What is done in a new environment with names. -/
theorem Securing.nestedEnvironment (isConstant : Bool) (names : List String)
    {p : EnvironmentId → Eval α} (hp : ∀ i, i ≠ e → Securing e x (p i)) (hlinks : ∀ i, Linking (p i)) :
    Securing e x (do
      let i ← Eval.nestedEnvironment isConstant names
      inEnvironment i (p i)) := by
  unfold Eval.nestedEnvironment
  simp only [bind_assoc, pure_bind]
  refine Securing.environment fun o => SecuringIn.newEnvironment fun i hi => ?_
  have hnames := fun l => Law.forM (fun n => (Securing.fills x hi).createName n isConstant) l
  refine SecuringIn.bind (.of_securing (hnames _)) ?_ fun _ => .inEnvironment (hp i hi) (hlinks i)
  exact Law.forM (L := linking.toLaw) (fun n => (Linking.fills i).createName n isConstant) _

/-- The next environment of a loop is not inside the environment either. -/
theorem Securing.renewEnvironment (names : List String) :
    Securing e x (Eval.renewEnvironment names) := by
  unfold Eval.renewEnvironment
  split
  · refine Securing.environment fun last => SecuringIn.environmentAt fun y => ?_
    refine SecuringIn.newEnvironment fun next hnext => ?_
    have hcopy := fun l => Law.forM (fun n => (Securing.fills x hnext).copyVariable n last) l
    refine SecuringIn.bind (.of_securing (hcopy _)) ?_ fun _ => .setEnvironment
    exact Law.forM (L := linking.toLaw) (fun n => (Linking.fills next).copyVariable n last) _
  · exact (securing e x).pure ()

/-- The environment of the body of a function is another one as well. -/
theorem SecuringIn.bodyEnvironment {i : EnvironmentId} (hi : i ≠ e) (f : Function)
    (scope : Scope) {g : EnvironmentId → Eval α}
    (hg : ∀ inner, inner ≠ e → SecuringIn e x (some inner) (g inner)) :
    SecuringIn e x (some i) (Eval.bodyEnvironment f scope i >>= g) := by
  unfold Eval.bodyEnvironment
  split
  · rw [bind_assoc]
    refine SecuringIn.newEnvironment fun inner hinner => ?_
    rw [bind_assoc]
    refine SecuringIn.bind (.of_securing ?_) ?_ fun _ => hg inner hinner
    · exact Law.forM (fun d => (Securing.fills x hinner).inheritVariable d i) _
    · exact Law.forM (L := linking.toLaw) (fun d => (Linking.fills inner).inheritVariable d i) _
  · rw [bind_assoc]
    refine SecuringIn.bind (.of_securing ?_) ?_ fun _ => hg i hi
    · exact Law.forM (fun d => (Securing.fills x hi).createFunctionWide d) _
    · exact Law.forM (L := linking.toLaw) (fun d => (Linking.fills i).createFunctionWide d) _

namespace Machine.IsSecuring

variable (h : m.IsSecuring e x)

include h

theorem block (b : Block) : Securing e x (m.block b) := by
  refine .bind (Law.record (L := securing e x) _) fun _ => ?_
  split
  · exact (securing e x).pure _
  · refine .bind (Law.scopeAt (L := securing e x) _ _) fun scope => ?_
    exact .blockEnvironment scope (h.statements _) (GeneralLaw.statements h.links _)

theorem handle (c : Handler) (v : Value) : Securing e x (m.handle c v) := by
  refine .bind (Law.record (L := securing e x) _) fun _ => ?_
  split
  · exact h.block c.body
  · next p _ =>
    refine .nestedEnvironment false p.names (fun i hi => ?_) fun i => ?_
    · exact .bind (h.bind p v fun hie => hi (Option.some_inj.mp hie)) fun _ => h.block c.body
    · exact Linking.bind (h.links _) fun _ => GeneralLaw.block h.links c.body

theorem clauses (cs : List Case) (v : Value) : Securing e x (m.clauses cs v) := by
  induction cs generalizing v with
  | nil => exact (securing e x).pure _
  | cons c cs ih =>
    refine .bind (h.statements c.statements) fun r => ?_
    dsimp only
    split
    · exact (securing e x).pure _
    · exact ih _

theorem switch (place : Span) (subject : Expr) (cs : List Case) :
    Securing e x (m.switch place subject cs) := by
  refine .bind (h.expression subject) fun v => ?_
  refine .bind (Law.scopeAt (L := securing e x) _ _) fun scope => .blockEnvironment scope ?_ ?_
  · exact .bind (Law.selected (L := securing e x) h.obeys v cs) fun chosen => h.clauses chosen _
  · exact Linking.bind (Law.selected (GeneralLaw.obeys h.links) v cs) fun chosen =>
      GeneralLaw.clauses h.links chosen _

/-! ### Loops -/

theorem subject (head : LoopHead) (u : Expr) : Securing e x (m.subject head u) := by
  unfold Machine.subject
  split
  · exact h.expression u
  · next d _ =>
    exact .nestedEnvironment false d.names (fun _ _ => h.expression u) fun _ =>
      GeneralLaw.expression h.links u

theorem round (head : LoopHead) (s : Stmt) (v : Value) : Securing e x (m.round head s v) := by
  cases head with
  | target t => exact .bind (h.assign t v) fun _ => h.statement s
  | declaration d =>
    unfold Machine.round
    dsimp only
    split
    · refine .nestedEnvironment _ d.names (fun i hi => ?_) fun i => ?_
      · exact .bind (h.bind _ v fun hie => hi (Option.some_inj.mp hie)) fun _ => h.statement s
      · exact Linking.bind (h.links _) fun _ => h.links _
    · exact .bind (h.bind _ v nofun) fun _ => h.statement s

theorem rounds (names : List String) (test update : Option Expr) (s : Stmt) :
    Securing e x (m.rounds names test update s) := by
  have hrenew := Securing.renewEnvironment (e := e) (x := x) names
  refine .bind hrenew fun _ => Law.iterate (securing e x) (fun v => ?_) _ _
  refine Securing.bind (Law.holds (L := securing e x) h.obeys test) fun goesOn => ?_
  split
  · refine .bind (h.statement s) fun c => ?_
    split
    · exact (securing e x).pure _
    · refine .bind hrenew fun _ => .bind (Law.effect (L := securing e x) h.obeys update) fun _ => ?_
      exact (securing e x).pure _
  · exact (securing e x).pure _

theorem countingLoop (init : LoopInit) (test update : Option Expr) (s : Stmt) :
    Securing e x (m.countingLoop init test update s) := by
  cases init with
  | none => exact h.rounds [] test update s
  | expression u => exact .bind (h.expression u) fun _ => h.rounds [] test update s
  | declaration d =>
    have hrecord := Law.record (L := securing e x) (.evaluate "VariableDeclaration" d.span)
    unfold Machine.countingLoop
    dsimp only
    split
    · refine .nestedEnvironment _ d.names (fun i hi => ?_) fun i => ?_
      · exact .bind hrecord fun _ => .bind (h.declaration d) fun _ => h.rounds _ test update s
      · refine Linking.bind (Law.record (L := linking.toLaw) _) fun _ => ?_
        exact Linking.bind (GeneralLaw.declaration h.links d) fun _ => GeneralLaw.rounds h.links _ test update s
    · exact .bind hrecord fun _ => .bind (h.declaration d) fun _ => h.rounds [] test update s

/-! ### Calls -/

/-- The names of a function are created in its own environments. -/
theorem enter (f : Function) (args : List Value) : Securing e x (m.enter f args) := by
  have hlinked := fun i p v => h.links (.bind p v (some i))
  refine .bind (Law.scopeAt (L := securing e x) _ _) fun scope => ?_
  refine Securing.environment fun i a ha hi => ?_
  have hne := hi.ne
  have hfills := Securing.fills x hne
  have hbind := fun p v => h.bind p v fun hie => hne (Option.some_inj.mp hie)
  refine SecuringIn.bind (o := some i) (.of_securing ?_) ?_ (fun _ => ?_) a ha hi
  · exact Law.forM (fun d => hfills.createParameter d) _
  · exact Law.forM (L := linking.toLaw) (fun d => (Linking.fills i).createParameter d) _
  refine SecuringIn.bind (.of_securing ?_) ?_ fun left => ?_
  · exact Law.Fills.bindParameters h.obeys hbind f.parameters args
  · exact Law.Fills.bindParameters (GeneralLaw.obeys h.links) (hlinked i) f.parameters args
  refine SecuringIn.bind (.of_securing ?_) ?_ fun _ => ?_
  · exact Law.Fills.bindRest (L := securing e x) hbind f.rest left
  · exact Law.Fills.bindRest (L := linking.toLaw) (hlinked i) f.rest left
  refine SecuringIn.bodyEnvironment hne f scope fun inner hinner => ?_
  have hfills := Securing.fills x hinner
  refine SecuringIn.bind .setEnvironment (linking.setEnvironment inner) fun _ => .of_securing ?_
  refine .bind (Law.forM (fun d => hfills.createLexical d) _) fun _ => ?_
  exact Law.forM (fun f => hfills.assignFunction f) _

theorem body (f : Function) : Securing e x (m.body f) := by
  unfold Machine.body
  split
  · exact (securing e x).pure _
  · exact h.expression _
  · exact .bind (h.statements _) fun c => (securing e x).pure _

/-- **A call of a closure** that is not inside the environment. -/
theorem callClosure (c : Closure) (args : List Value) :
    SecuringIn e x (some c.environment) (m.callClosure c args) := by
  refine SecuringIn.bind (.of_securing (Law.recordCall (L := securing e x) c))
    (Law.recordCall (L := linking.toLaw) c) fun _ => ?_
  refine SecuringIn.bind (.of_securing (Law.report (L := securing e x) _))
    (Law.report (L := linking.toLaw) _) fun _ => ?_
  refine SecuringIn.newEnvironment fun i hi => .inContext (.of_securing ?_)
  exact .bind (h.enter c.code args) fun _ => h.body c.code

theorem callFunction {a : Agent} (f : ObjectId) (this : Value) (args : List Value) (ha : a.Secures e x)
    (hf : ∀ c, (a.object f).kind = .closure c → a.environments.Misses e (some c.environment)) :
    ((m.callFunction f this args).after a).Secures e x := by
  have hobject : object f a = .ok (a.object f) a := rfl
  unfold Machine.callFunction Eval.after
  rw [bind_ok hobject]
  cases hkind : (a.object f).kind with
  | closure c => exact h.callClosure c args a ha (hf c hkind)
  | builtin b => exact Law.callBuiltin (L := securing e x) h.obeys this args b a ha
  | ordinary | array | error => exact ha

/-! ### All statements -/

theorem perform (s : Stmt) : Securing e x (m.perform s) := by
  have hpure : ∀ c : Completion, Securing e x (pure c : Eval Completion) := (securing e x).pure
  have houtside : ∀ {p : Eval Completion}, Securing e x p → Securing e x (do return (← p).outside) :=
    fun hp => .bind hp fun _ => hpure _
  cases s with
  | empty | function | typeAlias | interface | «break» | «continue» => exact hpure _
  | expression _ u => exact .bind (h.expression u) fun _ => hpure _
  | declaration d => exact .bind (h.declaration d) fun _ => hpure _
  | block b => exact h.block b
  | conditional place test consequent alternate =>
    exact Law.conditional (L := securing e x) h.obeys test place (h.statement _) fun s _ => h.statement s
  | «while» place test body =>
    exact houtside (Law.whileLoop (L := securing e x) h.obeys test (h.statement body))
  | doWhile place body test =>
    exact houtside (Law.doLoop (L := securing e x) h.obeys test (h.statement body))
  | «for» place init test update body => exact houtside (h.countingLoop init test update body)
  | forIn place head u body =>
    exact houtside (Law.forIn (L := securing e x) u (h.round head body) (h.subject head u))
  | forOf place isAsync head u body =>
    exact houtside (Law.forOf (L := securing e x) u (h.round head body) (h.subject head u))
  | switch place u cs => exact houtside (h.switch place u cs)
  | «try» place b handler finalizer =>
    exact Law.attempt (L := securing e x) (h.block b) (fun c v _ => h.handle c v) fun last _ => h.block last
  | «return» place u =>
    cases u with
    | none => exact hpure _
    | some u => exact .bind (h.expression u) fun _ => hpure _
  | throw place u => exact .bind (h.expression u) fun _ => (securing e x).throw _
  | labelled | foreign => exact Law.unsupported (L := securing e x) _ _

theorem evaluateStatement (s : Stmt) : Securing e x (m.evaluateStatement s) := by
  have hrest : Securing e x (do
      record (.evaluate s.node s.span)
      if s.isUnsupported then unsupported s.kind s.span else m.perform s) := by
    refine .bind (Law.record (L := securing e x) _) fun _ => ?_
    split
    · exact Law.unsupported (L := securing e x) _ _
    · exact h.perform s
  cases s with
  | block b => exact h.block b
  | _ => exact hrest

/-! ### What a host asks for -/

theorem evaluateRoot (globals : EnvironmentId) (root : Root) :
    SecuringIn e x (some globals) (m.evaluateRoot globals root) := by
  cases root with
  | expression u => exact .of_securing (h.expression u)
  | function f =>
    refine SecuringIn.bind (.of_securing (Law.record (L := securing e x) _))
      (Law.record (L := linking.toLaw) _) fun _ => ?_
    refine SecuringIn.newEnvironment fun i hi => .of_securing ?_
    refine .bind (Law.declaredFunction (securing e x) f i) fun v => ?_
    cases f.name with
    | none => exact (securing e x).pure v
    | some name => exact .bind ((Securing.fills x hi).createConstant (name, v)) fun _ => (securing e x).pure v

/-- The values that are provided are in an environment of their own. -/
theorem load (root : Root) (source : Source) (p : Provisions) :
    Securing e x (m.loadTidying Tidying.nothing.apply root source p) := by
  unfold Machine.loadTidying
  cases analyze ⟨root.isExpression, p.noVar⟩ root with
  | error r => exact Law.raise (L := securing e x) _ _
  | ok s =>
    intro a ha
    refine SecuringIn.newEnvironment (o := none) (fun globals hne => ?_) a ha .nowhere
    refine SecuringIn.bind (.of_securing (Law.report (L := securing e x) _))
      (Law.report (L := linking.toLaw) _) fun _ => ?_
    refine SecuringIn.bind (.of_securing (Law.forM (L := securing e x)
      (fun c => (Securing.fills x hne).createConstant c) _)) ?_ fun _ => ?_
    · exact Law.forM (L := linking.toLaw) (fun c => (Linking.fills globals).createConstant c) _
    · refine SecuringIn.bind (.of_securing ((securing e x).newRealm _ rfl)) (linking.newRealm _ rfl)
        fun r => ?_
      exact SecuringIn.concluding (.inContext (h.evaluateRoot globals root))

/-- **Whatever a host asks for** leaves the environment, if it does not tidy up. -/
theorem answer (r : Request) : Securing e x (r.answer m .nothing) := by
  cases r with
  | globals => exact .bind (Law.standardGlobals (securing e x)) fun _ => (securing e x).pure _
  | load p => exact .bind (securing e x).get fun _ => .bind (h.load _ _ _) fun _ => (securing e x).pure _
  | invoke f args =>
    refine .bind (securing e x).get fun _ => .bind (.bind (Law.callable (L := securing e x) _) fun id => ?_)
      fun _ => (securing e x).pure _
    exact (Agent.isOutward_secures e x).concluding (h.obeys (.call _ _ _))
  | rest => exact .bind (fun _ => id) fun _ => (securing e x).pure _

end Machine.IsSecuring

/-! ### Stopping before a closure changes the environment -/

/-- The task is to call a closure that may be inside the environment. -/
def Task.ComesTo (e : EnvironmentId) (a : Agent) : {α : Type} → Task α → Prop
  | _, .call f _ _ => ∃ c, (a.object f).kind = .closure c ∧ ¬a.environments.Misses e (some c.environment)
  | _, _ => False

/-- The computation leaves the variables of the environment as they are that may not be deleted. -/
def Eval.Leaves (p : Eval α) (e : EnvironmentId) (a : Agent) : Prop :=
  ∀ name v, a.environments.find? e name = some v → v.isDeletable = false →
    (p.after a).environments.find? e name = some v

open Classical in
/-- Does a task with a stack of machines of the given height; it stops, as if something were missing,
instead of calling a closure that is inside the environment and changes it. -/
noncomputable def Task.runSecuring (e : EnvironmentId) : Nat → {α : Type} → Task α → Eval α
  | 0, _, _ => throw .exhausted
  | n + 1, _, t => do
    let a ← get
    if t.ComesTo e a then
      if (t.run (n + 1)).Leaves e a then t.run (n + 1) else throw (.broken .missingScope)
    else Machine.step ⟨fun t => Task.runSecuring e n t, n⟩ t

/-- The machine on top of a stack of the given height that stops instead of calling a closure that is
inside the environment and changes it. -/
noncomputable def Machine.securing (e : EnvironmentId) (n : Nat) : Machine :=
  ⟨fun t => Task.runSecuring e n t, n⟩

section

variable {n : Nat} {a : Agent} {t : Task α}

theorem Task.runSecuring_of_leaves (hcomes : t.ComesTo e a) (hleaves : (t.run (n + 1)).Leaves e a) :
    t.runSecuring e (n + 1) a = t.run (n + 1) a := by
  unfold runSecuring
  rw [bind_ok (get_apply a), if_pos hcomes, if_pos hleaves]

theorem Task.runSecuring_of_not_leaves (hcomes : t.ComesTo e a) (hleaves : ¬(t.run (n + 1)).Leaves e a) :
    t.runSecuring e (n + 1) a = .error (.broken .missingScope) a := by
  unfold runSecuring
  rw [bind_ok (get_apply a), if_pos hcomes, if_neg hleaves]
  rfl

theorem Task.runSecuring_of_not_comesTo (hcomes : ¬t.ComesTo e a) :
    t.runSecuring e (n + 1) a = (Machine.securing e n).step t a := by
  unfold runSecuring
  rw [bind_ok (get_apply a), if_neg hcomes]
  rfl

end

/-- A machine that stops obeys what all machines obey. -/
theorem GeneralLaw.securing (L : GeneralLaw) (e : EnvironmentId) (n : Nat) :
    L.Rules (.securing e n) := by
  induction n with
  | zero => exact fun _ _ => L.throw _
  | succ n ih =>
    intro α t
    refine L.bind L.get fun a => ?_
    split
    · split
      · exact L.ofDepth (n + 1) t
      · exact L.throw _
    · exact step ih t

/-- **Until it is stopped**, the machine does what others do. -/
theorem Machine.isBelow_securing (e : EnvironmentId) (n : Nat) :
    Stopping.breaking.IsBelow (securing e n) (ofDepth n) := by
  induction n with
  | zero => exact ⟨fun _ => .refl trivial, .inl rfl⟩
  | succ n ih =>
    refine ⟨fun {α} t => ⟨trivial, fun a => ?_⟩, .inl rfl⟩
    change (∃ i b, t.runSecuring e (n + 1) a = _ ∧ _) ∨ _ = t.runSecuring e (n + 1) a
    by_cases hcomes : t.ComesTo e a
    · by_cases hleaves : (t.run (n + 1)).Leaves e a
      · exact .inr (Task.runSecuring_of_leaves hcomes hleaves).symm
      · exact .inl ⟨_, a, Task.runSecuring_of_not_leaves hcomes hleaves, _, rfl⟩
    · rw [Task.runSecuring_of_not_comesTo hcomes]
      exact (ih.step t).follows a

/-- A machine that stops does a task, or is stopped, or calls a closure that leaves the environment. -/
theorem Securing.runSecuring {n : Nat} {t : Task α}
    (h : ∀ a : Agent, a.Secures e x → ¬t.ComesTo e a →
      (((Machine.securing e n).step t).after a).Secures e x) :
    Securing e x (t.runSecuring e (n + 1)) := by
  intro a ha
  unfold Eval.after
  by_cases hcomes : t.ComesTo e a
  · by_cases hleaves : (t.run (n + 1)).Leaves e a
    · rw [Task.runSecuring_of_leaves hcomes hleaves]
      refine ha.of_links (links_run (n + 1) t a) (fun _ hc => ?_) hleaves
      exact (evolves_run (n + 1) t a).contexts ▸ hc
    · rwa [Task.runSecuring_of_not_leaves hcomes hleaves]
  · rw [Task.runSecuring_of_not_comesTo hcomes]
    exact h a ha hcomes

/-- **A machine that stops before closures inside an environment change it leaves the environment.** -/
theorem Machine.isSecuring_securing (e : EnvironmentId) (n : Nat) :
    (Machine.securing e n).IsSecuring e x := by
  induction n with
  | zero =>
    have hthrow : ∀ {α : Type}, Securing e x (throw .exhausted : Eval α) := fun _ ha => ha
    exact ⟨linking.securing e 0, fun _ _ _ => hthrow, fun _ _ _ _ _ _ => nofun, fun _ => hthrow,
      fun _ _ => hthrow, fun _ _ _ _ => hthrow⟩
  | succ n ih =>
    refine ⟨linking.securing e _, fun α t ht => ?_, fun place name a r b ha hr => ?_, fun s => ?_,
      fun t v => ?_, fun p v o ho => ?_⟩
    · refine Securing.runSecuring fun a ha hcomes => ?_
      cases ht with
      | expression u => exact ih.evaluateExpression u a ha
      | name _ name => exact Law.resolve (L := Scriptlet.securing e x) name a ha
      | link u => exact Law.evaluateLink (L := Scriptlet.securing e x) ih.obeys u a ha
      | call f this args =>
        refine ih.callFunction f this args ha fun c hc => ?_
        exact Classical.byContradiction fun hmisses => hcomes ⟨c, hc, hmisses⟩
      | primitive o hint => exact Law.primitiveOf (L := Scriptlet.securing e x) ih.obeys o hint a ha
    · change Task.runSecuring e (n + 1) (.name place name) a = _ at hr
      rw [Task.runSecuring_of_not_comesTo id] at hr
      exact Yields.resolve name a r b ha hr
    · exact .runSecuring fun a ha _ => ih.evaluateStatement s a ha
    · exact .runSecuring fun a ha _ => ih.assignTarget t v a ha
    · exact .runSecuring fun a ha _ => ih.bindPattern v p ho a ha

/-! ### What becomes of an environment -/

/-- The task is to give values to names of the environment. -/
def Task.BindsIn (e : EnvironmentId) : {α : Type} → Task α → Prop
  | _, .bind _ _ o => o = some e
  | _, _ => False

theorem Machine.IsSecuring.run (h : m.IsSecuring e x) {t : Task α} (ht : ¬t.BindsIn e) :
    Securing e x (m.run t) := by
  cases t with
  | statement s => exact h.statement s
  | assign t v => exact h.assign t v
  | bind p v o => exact h.bind p v ht
  | expression u => exact h.obeys (.expression u)
  | name place name => exact h.obeys (.name place name)
  | link u => exact h.obeys (.link u)
  | call f this args => exact h.obeys (.call f this args)
  | primitive o hint => exact h.obeys (.primitive o hint)

/-- While the computation is done by machines of the given height, a closure that is inside the
environment changes it. -/
def Machine.Writes (p : Machine → Eval α) (n : Nat) (e : EnvironmentId) (a : Agent) : Prop :=
  ∃ y b, p (.securing e n) a = .error (.broken y) b

/-- **An environment stays as it is** while code is run that is not inside it, unless a closure that is
inside it changes it. -/
theorem Agent.IsApart.leaves {a : Agent} {p : Machine → Eval α} {n : Nat} (h : a.IsApart e)
    (hfollows : Stopping.breaking.Follows (p (.securing e n)) (p (.ofDepth n)))
    (hp : ∀ {x : Environment}, (Machine.securing e n).IsSecuring e x → Securing e x (p (.securing e n))) :
    Machine.Writes p n e a ∨ (p (.ofDepth n)).Leaves e a := by
  rcases hfollows.follows a with ⟨i, b, hb, y, rfl⟩ | hsame
  · exact .inl ⟨y, b, hb⟩
  · refine .inr fun name v hv hlasting => ?_
    obtain ⟨x, hx, hname⟩ := Environments.get?_of_find? hv
    have ha : a.Secures e x := by
      refine ⟨h, Option.isSome_iff_exists.mpr ⟨x, hx⟩, fun hw _ => ?_⟩
      rwa [Environments.find?_of_get? hx]
    have hafter := (hp (Machine.isSecuring_securing e n) a ha).lasting hname hlasting
    unfold Eval.after
    rw [hsame]
    exact hafter

/-- **What the environment is, it stays** while a task is done, unless a closure inside it changes it. -/
theorem Agent.IsApart.leaves_run {a : Agent} (h : a.IsApart e) (n : Nat) {t : Task α}
    (ht : ¬t.BindsIn e) : Machine.Writes (fun m => m.run t) n e a ∨ (t.run n).Leaves e a :=
  h.leaves (p := fun m => m.run t) ((Machine.isBelow_securing e n).run t) fun hm => hm.run ht

/-- **What the environment is, it stays** while a host is answered, unless a closure inside it changes
it. -/
theorem Agent.IsApart.leaves_answer {a : Agent} (h : a.IsApart e) (n : Nat) (r : Request) :
    Machine.Writes (fun m => r.answer m .nothing) n e a ∨ (r.answer (.ofDepth n) .nothing).Leaves e a :=
  h.leaves (p := fun m => r.answer m .nothing) ((Machine.isBelow_securing e n).answer .nothing r)
    fun hm => hm.answer r

end Scriptlet
