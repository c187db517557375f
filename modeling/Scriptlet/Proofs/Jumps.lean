import Scriptlet.Proofs.Clauses

/-!
# Jumps

A statement ends in one of several ways, and the statements around it look at the way in which it ended
to know what is next.  This module runs statements without looking: a statement is given a way out for
each way in which it may end, and takes it.  What a `break` leaves is then what has last provided a way
out for it, and this is a loop or a switch; a `continue` takes the way that the nearest loop has
provided; and a finalizer stands in each of the ways out of what it belongs to.

## Main definitions

* `Exits` — the ways out of a statement.
* `Machine.jump`, `Machine.jumpAll` — statements that leave by their ways out.
* `Task.jump` — statements with a stack of machines.

## Main results

* `take_finalized`, `within_eq`, `loop_eq` — finalizers, environments and loops.
* `Machine.jump_eq` — one statement, if it is so for the statements inside it.
* `Task.jump_eq` — **a statement takes the way out that belongs to its completion**.

## References

The ways out are the continuations of denotational semantics.
-/

namespace Scriptlet

open Eval

/-- The ways out of a statement, one for each way in which it may end. -/
structure Exits (α : Type) where
  /-- What comes next. -/
  next : Option Value → Eval α
  /-- What a `break` leads to. -/
  leave : Option Value → Eval α
  /-- What a `continue` leads to. -/
  skip : Option Value → Eval α
  /-- What a `return` leads to. -/
  give : Option Value → Eval α
  /-- What an interrupt leads to. -/
  stop : Interrupt → Eval α

namespace Exits

variable {α β γ : Type}

/-- The way out for a completion. -/
def exit (k : Exits α) (c : Completion) : Eval α :=
  match c.kind with
  | .normal => k.next c.value
  | .break => k.leave c.value
  | .continue => k.skip c.value
  | .return => k.give c.value

/-- Goes on with the result of a computation, unless it is interrupted. -/
def use (k : Exits α) (p : Eval β) (f : β → Eval α) : Eval α := fun a =>
  match p a with
  | .ok x b => f x b
  | .error i b => k.stop i b

/-- Takes the way out that belongs to what comes of a statement. -/
def take (k : Exits α) (p : Eval Completion) : Eval α := k.use p k.exit

/-- The ways out with another value. -/
def map (k : Exits α) (f : Option Value → Option Value) : Exits α where
  next v := k.next (f v)
  leave v := k.leave (f v)
  skip v := k.skip (f v)
  give v := k.give (f v)
  stop := k.stop

/-- The ways out with a value if there is none. -/
def withDefault (k : Exits α) (v : Value) : Exits α := k.map fun w => some (w.getD v)

/-- The ways out of what can be broken out of. -/
def breakable (k : Exits α) : Exits α :=
  { k with leave := fun v => k.next (some (v.getD .undefined)) }

/-- The ways out of the body of a loop: the next round, or those of the loop. -/
def inLoop (k : Exits α) (v : Value) (again : Value → Eval α) : Exits α :=
  { k.withDefault v with
    next := fun w => again (w.getD v)
    skip := fun w => again (w.getD v) }

/-- The ways out of a statement of a list. -/
def inList (k : Exits α) (v : Option Value) (rest : Option Value → Eval α) : Exits α :=
  { k.map (· <|> v) with next := fun w => rest (w <|> v) }

/-- The ways out of a clause of a switch. -/
def inClauses (k : Exits α) (v : Value) (rest : Value → Eval α) : Exits α :=
  { k.withDefault v with next := fun w => rest (w.getD v) }

/-- The ways out after a change to the agent. -/
def after (k : Exits α) (f : Agent → Agent) : Exits α where
  next v a := k.next v (f a)
  leave v a := k.leave v (f a)
  skip v a := k.skip v (f a)
  give v a := k.give v (f a)
  stop i a := k.stop i (f a)

/-- Goes on in an environment, which each way out leads out of again. -/
def within (k : Exits α) (e : EnvironmentId) (p : Exits α → Eval α) : Eval α :=
  k.use environment fun old => k.use (setEnvironment e) fun _ => p (k.after (withEnvironmentOf old))

/-- The ways out of what has a handler. -/
def handled (k : Exits α) (handler : Value → Eval α) : Exits α :=
  { k with
    stop := fun i =>
      match i with
      | .thrown v => handler v
      | _ => k.stop i }

/-- The ways out of what has a finalizer: it is run on each of them, and what comes after it is the
rest of the way. -/
def finalized (k : Exits α) (last : Exits α → Eval α) : Exits α where
  next v := last { k with next := fun _ => k.next v }
  leave v := last { k with next := fun _ => k.leave v }
  skip v := last { k with next := fun _ => k.skip v }
  give v := last { k with next := fun _ => k.give v }
  stop i :=
    match i with
    | .thrown v => last { k with next := fun _ => k.stop (.thrown v) }
    | _ => k.stop i

/-- Repeats what leads to another round, as often as there is fuel. -/
def loop (k : Exits α) {σ : Type} (round : σ → (σ → Eval α) → Eval α) : Nat → σ → Eval α
  | 0, _ => k.stop .exhausted
  | fuel + 1, s => round s (k.loop round fuel)

/-! ### Laws -/

variable {k : Exits α} {p : Eval Completion}

theorem use_bind (q : Eval β) (r : β → Eval γ) (f : γ → Eval α) :
    k.use (q >>= r) f = k.use q fun x => k.use (r x) f := by
  funext a
  change (match EStateM.bind q r a with
    | .ok x b => f x b
    | .error i b => k.stop i b) = _
  unfold EStateM.bind use
  cases q a <;> rfl

theorem use_congr {q : Eval β} {f g : β → Eval α} (h : ∀ x, f x = g x) : k.use q f = k.use q g :=
  congrArg _ (funext h)

theorem exit_withDefault (v : Value) (c : Completion) :
    (k.withDefault v).exit c = k.exit (c.withDefault v) := by
  obtain ⟨kind, w⟩ := c
  cases kind <;> rfl

theorem exit_breakable (c : Completion) : k.breakable.exit c = k.exit c.outside := by
  obtain ⟨kind, w⟩ := c
  cases kind <;> rfl

theorem exit_inLoop (v : Value) (again : Value → Eval α) (c : Completion) :
    (k.inLoop v again).exit c = Sum.elim again k.exit (Machine.afterRound c v) := by
  obtain ⟨kind, w⟩ := c
  cases kind <;> rfl

theorem take_withDefault (v : Value) :
    (k.withDefault v).take p = k.take (do return (← p).withDefault v) := by
  rw [take, take, use_bind]
  exact use_congr (exit_withDefault v)

theorem take_breakable : k.breakable.take p = k.take (do return (← p).outside) := by
  rw [take, take, use_bind]
  exact use_congr exit_breakable

theorem take_inLoop (v : Value) (again : Value → Eval α) :
    (k.inLoop v again).take p
      = k.use p fun c => Sum.elim again k.exit (Machine.afterRound c v) :=
  use_congr (exit_inLoop v again)

theorem take_after (f : Agent → Agent) : (k.after f).take p = k.take (ending p f) := by
  funext a
  unfold take use ending
  cases p a with
  | ok c b =>
    obtain ⟨kind, w⟩ := c
    cases kind <;> rfl
  | error i b => rfl

/-- What is done in an environment is done there, whichever way leads out. -/
theorem within_eq (e : EnvironmentId) {q : Exits α → Eval α} (hq : ∀ k, q k = k.take p) :
    k.within e q = k.take (inEnvironment e p) := by
  rw [within, take, inEnvironment, use_bind]
  refine use_congr fun old => ?_
  rw [use_bind]
  exact use_congr fun _ => (hq _).trans (take_after _)

theorem take_handled {handler : Value → Eval Completion} :
    (k.handled fun v => k.take (handler v)).take p = k.take (catching p handler) := by
  funext a
  unfold take use catching
  cases p a with
  | ok c b =>
    obtain ⟨kind, w⟩ := c
    cases kind <;> rfl
  | error i b => cases i <;> rfl

/-- **A finalizer stands in each of the ways out.** -/
theorem take_finalized {q : Eval Completion} :
    (k.finalized fun k => k.take q).take p = k.take (followedBy p q) := by
  -- What comes after the finalizer depends on whether its own end is abrupt.
  have hlast : ∀ (f : Option Value → Eval α) (d : Completion),
      ({ k with next := f } : Exits α).exit d = if d.isAbrupt then k.exit d else f d.value := by
    intro f d
    obtain ⟨kind, w⟩ := d
    cases kind <;> rfl
  have hexit : ∀ c, (k.finalized fun k => k.take q).exit c
      = ({ k with next := fun _ => k.exit c } : Exits α).take q := by
    intro c
    obtain ⟨kind, w⟩ := c
    cases kind <;> rfl
  rw [take, use_congr hexit]
  funext a
  unfold take use followedBy
  cases p a with
  | ok c b =>
    dsimp only
    cases q b with
    | ok d b =>
      dsimp only
      rw [hlast]
      split <;> rfl
    | error i b => rfl
  | error i b =>
    cases i with
    | thrown v =>
      change ({ k with next := fun _ => k.stop (.thrown v) } : Exits α).take q b = _
      unfold take use
      dsimp only
      cases q b with
      | ok d b =>
        dsimp only
        rw [hlast]
        split <;> rfl
      | error i b => rfl
    | exhausted | broken => rfl

/-- A loop that takes the way to the next round, or out, is one that repeats its rounds. -/
theorem loop_eq {σ : Type} {round : σ → (σ → Eval α) → Eval α} {q : σ → Eval (Sum σ Completion)}
    (h : ∀ s again, round s again = k.use (q s) (Sum.elim again k.exit)) (fuel : Nat) (s : σ) :
    k.loop round fuel s = k.take (iterate q fuel s) := by
  induction fuel generalizing s with
  | zero => rfl
  | succ fuel ih =>
    rw [loop, h, iterate_succ, take, use_bind]
    refine use_congr fun x => ?_
    cases x with
    | inl s => exact ih s
    | inr c => rfl

end Exits

namespace Machine

variable {α : Type} (m : Machine) (run : Stmt → Exits α → Eval α)

/-- Runs statements one after the other. -/
def jumpAll : List Stmt → Option Value → Exits α → Eval α
  | [], v, k => k.next v
  | s :: rest, v, k => run s (k.inList v fun w => jumpAll rest w k)

/-- Runs a block. -/
def jumpBlock (b : Block) (k : Exits α) : Eval α :=
  k.use (record (.evaluate "BlockStatement" b.span)) fun _ =>
    if b.statements.isEmpty then k.next none
    else
      k.use (scopeAt b.span (Scope.ofStatements b.statements)) fun scope =>
        k.use (blockEnvironment scope) fun e => k.within e (jumpAll run b.statements none)

/-- Runs a conditional statement. -/
def jumpConditional (place : Span) (test : Expr) (consequent : Stmt) (alternate : Option Stmt)
    (k : Exits α) : Eval α :=
  k.use (m.expression test) fun v => k.use (record (.branch v.isTrue place)) fun _ =>
    if v.isTrue then run consequent (k.withDefault .undefined)
    else alternate.elim (k.next (some .undefined)) fun s => run s (k.withDefault .undefined)

/-- Runs a handler. -/
def jumpHandler (h : Handler) (v : Value) (k : Exits α) : Eval α :=
  k.use (record (.evaluate "CatchClause" h.span)) fun _ =>
    h.parameter.elim (jumpBlock run h.body k) fun p =>
      k.use (nestedEnvironment false p.names) fun e =>
        k.within e fun k => k.use (m.run (.bind p v (some e))) fun _ => jumpBlock run h.body k

/-- Runs a block with its handler. -/
def jumpGuarded (b : Block) (handler : Option Handler) (k : Exits α) : Eval α :=
  handler.elim (jumpBlock run b k) fun h =>
    jumpBlock run b (k.handled fun v => m.jumpHandler run h v k)

/-- Runs a block with its handler and what has to follow. -/
def jumpAttempt (b : Block) (handler : Option Handler) (finalizer : Option Block) (k : Exits α) :
    Eval α :=
  m.jumpGuarded run b handler (finalizer.elim k fun last => k.finalized (jumpBlock run last))

/-- Runs clauses one after the other. -/
def jumpClauses : List Case → Value → Exits α → Eval α
  | [], v, k => k.next (some v)
  | c :: rest, v, k => jumpAll run c.statements none (k.inClauses v fun w => jumpClauses rest w k)

/-- Runs a switch. -/
def jumpSwitch (place : Span) (subject : Expr) (cases : List Case) (k : Exits α) : Eval α :=
  k.use (m.expression subject) fun v =>
    k.use (scopeAt place (Scope.ofCases cases)) fun scope => k.use (blockEnvironment scope) fun e =>
      k.within e fun k => k.use (m.selected v cases) fun chosen => jumpClauses run chosen .undefined k

/-- Runs a loop that tests first. -/
def jumpWhile (test : Expr) (body : Stmt) (k : Exits α) : Eval α :=
  k.loop (fun v again => k.use (m.expression test) fun w =>
    if w.isTrue then run body (k.inLoop v again) else k.next (some v)) m.fuel .undefined

/-- Runs a loop that tests last. -/
def jumpDo (body : Stmt) (test : Expr) (k : Exits α) : Eval α :=
  k.loop (fun v again => run body (k.inLoop v fun v => k.use (m.expression test) fun w =>
    if w.isTrue then again v else k.next (some v))) m.fuel .undefined

/-- Runs the rounds of a counting loop. -/
def jumpRounds (names : List String) (test update : Option Expr) (body : Stmt) (k : Exits α) :
    Eval α :=
  k.use (renewEnvironment names) fun _ =>
    k.loop (fun v again => k.use (m.holds test) fun isHeld =>
      if isHeld then
        run body (k.inLoop v fun v =>
          k.use (renewEnvironment names) fun _ => k.use (m.effect update) fun _ => again v)
      else k.next (some v)) m.fuel .undefined

/-- Runs a counting loop. -/
def jumpFor (init : LoopInit) (test update : Option Expr) (body : Stmt) (k : Exits α) : Eval α :=
  match init with
  | .none => m.jumpRounds run [] test update body k
  | .expression e => k.use (m.expression e) fun _ => m.jumpRounds run [] test update body k
  | .declaration d =>
    if d.kind.isLexical then
      k.use (nestedEnvironment (d.kind == .const) d.names) fun e =>
        k.within e fun k =>
          k.use (record (.evaluate "VariableDeclaration" d.span)) fun _ =>
            k.use (m.declaration d) fun _ =>
              m.jumpRounds run (if d.kind == .const then [] else d.names) test update body k
    else
      k.use (record (.evaluate "VariableDeclaration" d.span)) fun _ =>
        k.use (m.declaration d) fun _ => m.jumpRounds run [] test update body k

/-- Runs the body of a loop over a collection for one value. -/
def jumpRound (head : LoopHead) (body : Stmt) (x : Value) (k : Exits α) : Eval α :=
  match head with
  | .target t => k.use (m.run (.assign t x)) fun _ => run body k
  | .declaration d =>
    if d.kind.isLexical then
      k.use (nestedEnvironment (d.kind == .const) d.names) fun e =>
        k.within e fun k => k.use (m.run (.bind d.firstPattern x (some e))) fun _ => run body k
    else k.use (m.run (.bind d.firstPattern x none)) fun _ => run body k

/-- Runs the body of a loop for the values of a walk. -/
def jumpEach (head : LoopHead) (body : Stmt) (w : Walk) (k : Exits α) : Eval α :=
  k.loop (fun (w, v) again => k.use (nextOf w) fun x =>
    x.1.elim (k.next (some v)) fun y =>
      m.jumpRound run head body y (k.inLoop v fun v => again (x.2, v))) m.fuel (w, .undefined)

/-- Runs a loop over the keys of a value. -/
def jumpIn (head : LoopHead) (e : Expr) (body : Stmt) (k : Exits α) : Eval α :=
  k.use (m.subject head e) fun v =>
    if v.isNullish then k.next (some .undefined)
    else
      k.use (loopKeys v) fun keys => k.use (allocateArray (.ofList keys)) fun id =>
        m.jumpEach run head body (.elements id 0) k

/-- Runs a loop over the values of a value. -/
def jumpOf (head : LoopHead) (e : Expr) (body : Stmt) (k : Exits α) : Eval α :=
  k.use (m.subject head e) fun v => k.use (startWalk v) fun w => m.jumpEach run head body w k

/-- Runs a statement that has a meaning and is no block. -/
def jumpOther (s : Stmt) (k : Exits α) : Eval α :=
  match s with
  | .empty _ | .function _ | .typeAlias _ | .interface _ => k.next none
  | .expression _ e => k.use (m.expression e) fun v => k.next (some v)
  | .declaration d => k.use (m.declaration d) fun _ => k.next none
  | .block b => jumpBlock run b k
  | .conditional place test consequent alternate =>
    m.jumpConditional run place test consequent alternate k
  | .while _ test body => m.jumpWhile run test body k.breakable
  | .doWhile _ body test => m.jumpDo run body test k.breakable
  | .for _ init test update body => m.jumpFor run init test update body k.breakable
  | .forIn _ head e body => m.jumpIn run head e body k.breakable
  | .forOf _ _ head e body => m.jumpOf run head e body k.breakable
  | .switch place e cases => m.jumpSwitch run place e cases k.breakable
  | .try _ b handler finalizer => m.jumpAttempt run b handler finalizer (k.withDefault .undefined)
  | .return _ none => k.give (some .undefined)
  | .return _ (some e) => k.use (m.expression e) fun v => k.give (some v)
  | .throw _ e => k.use (m.expression e) fun v => k.stop (.thrown v)
  | .break _ _ => k.leave none
  | .continue _ _ => k.skip none
  | .labelled _ _ | .foreign _ _ => k.use (unsupported s.kind s.span) k.exit

/-- Runs a statement. -/
def jump (s : Stmt) (k : Exits α) : Eval α :=
  match s with
  | .block b => jumpBlock run b k
  | s =>
    k.use (record (.evaluate s.node s.span)) fun _ =>
      if s.isUnsupported then k.use (unsupported s.kind s.span) k.exit else m.jumpOther run s k

/-! ### Completions -/

section

variable {m run} (hrun : ∀ s k, run s k = k.take (m.run (.statement s)))

include hrun

theorem jumpAll_eq (ss : List Stmt) (v : Option Value) (k : Exits α) :
    jumpAll run ss v k = k.take (m.statementsFrom ss v) := by
  induction ss generalizing v with
  | nil => rfl
  | cons s rest ih =>
    rw [jumpAll, hrun, statementsFrom, Exits.take, Exits.take, Exits.use_bind]
    refine Exits.use_congr fun c => ?_
    obtain ⟨kind, w⟩ := c
    cases kind with
    | normal => exact ih (w <|> v)
    | «break» | «continue» | «return» => rfl

theorem jumpBlock_eq (b : Block) (k : Exits α) : jumpBlock run b k = k.take (m.block b) := by
  rw [jumpBlock, block, Exits.take, Exits.use_bind]
  refine Exits.use_congr fun _ => ?_
  split
  · rfl
  · rw [Exits.use_bind]
    refine Exits.use_congr fun scope => ?_
    rw [Exits.use_bind]
    exact Exits.use_congr fun e => Exits.within_eq e (jumpAll_eq hrun b.statements none)

theorem jumpConditional_eq (place : Span) (test : Expr) (consequent : Stmt) (alternate : Option Stmt)
    (k : Exits α) : m.jumpConditional run place test consequent alternate k
      = k.take (m.conditional place test consequent alternate) := by
  have hbranch : ∀ s, run s (k.withDefault .undefined)
      = k.take (do return (← m.run (.statement s)).withDefault .undefined) :=
    fun s => (hrun s _).trans (Exits.take_withDefault _)
  rw [jumpConditional, conditional, Exits.take, Exits.use_bind]
  refine Exits.use_congr fun v => ?_
  rw [Exits.use_bind]
  refine Exits.use_congr fun _ => ?_
  cases v.isTrue with
  | true => exact hbranch consequent
  | false =>
    cases alternate with
    | none => rfl
    | some s => exact hbranch s

theorem jumpHandler_eq (h : Handler) (v : Value) (k : Exits α) :
    m.jumpHandler run h v k = k.take (m.handle h v) := by
  rw [jumpHandler, handle, Exits.take, Exits.use_bind]
  refine Exits.use_congr fun _ => ?_
  cases h.parameter with
  | none => exact jumpBlock_eq hrun h.body k
  | some p =>
    dsimp only [Option.elim_some]
    rw [Exits.use_bind]
    refine Exits.use_congr fun e => Exits.within_eq e fun k => ?_
    rw [Exits.take, Exits.use_bind]
    exact Exits.use_congr fun _ => jumpBlock_eq hrun h.body k

theorem jumpGuarded_eq (b : Block) (handler : Option Handler) (k : Exits α) :
    m.jumpGuarded run b handler k = k.take (m.guarded b handler) := by
  cases handler with
  | none => exact jumpBlock_eq hrun b k
  | some h =>
    change jumpBlock run b (k.handled fun v => m.jumpHandler run h v k) = k.take (catching _ _)
    rw [funext fun v => jumpHandler_eq hrun h v k, jumpBlock_eq hrun, Exits.take_handled]

/-- A finalizer is run on the way out, whichever it is. -/
theorem jumpAttempt_eq (b : Block) (handler : Option Handler) (finalizer : Option Block)
    (k : Exits α) : m.jumpAttempt run b handler finalizer (k.withDefault .undefined)
      = k.take (m.attempt b handler finalizer) := by
  cases finalizer with
  | none => exact (jumpGuarded_eq hrun b handler _).trans (Exits.take_withDefault _)
  | some last =>
    change m.jumpGuarded run b handler ((k.withDefault .undefined).finalized (jumpBlock run last))
      = k.take (followedBy (m.guarded b handler) (m.block last) >>= _)
    rw [funext (jumpBlock_eq hrun last), jumpGuarded_eq hrun, Exits.take_finalized,
      Exits.take_withDefault]

theorem jumpClauses_eq (cases : List Case) (v : Value) (k : Exits α) :
    jumpClauses run cases v k = k.take (m.clauses cases v) := by
  induction cases generalizing v with
  | nil => rfl
  | cons c rest ih =>
    rw [jumpClauses, jumpAll_eq hrun, clauses, Exits.take, Exits.take, Exits.use_bind]
    refine Exits.use_congr fun r => ?_
    obtain ⟨kind, w⟩ := r
    cases kind with
    | normal => exact ih (w.getD v)
    | «break» | «continue» | «return» => cases w <;> rfl

theorem jumpSwitch_eq (place : Span) (subject : Expr) (cases : List Case) (k : Exits α) :
    m.jumpSwitch run place subject cases k = k.take (m.switch place subject cases) := by
  rw [jumpSwitch, switch, Exits.take, Exits.use_bind]
  refine Exits.use_congr fun v => ?_
  rw [Exits.use_bind]
  refine Exits.use_congr fun scope => ?_
  rw [Exits.use_bind]
  refine Exits.use_congr fun e => Exits.within_eq e fun k => ?_
  rw [Exits.take, Exits.use_bind]
  exact Exits.use_congr fun chosen => jumpClauses_eq hrun chosen .undefined k

/-! ### Completions of loops -/

/-- The body of a loop leads to the next round, or out. -/
theorem jump_inLoop (body : Stmt) (v : Value) (again : Value → Eval α) (k : Exits α) :
    run body (k.inLoop v again)
      = k.use (do return afterRound (← m.run (.statement body)) v) (Sum.elim again k.exit) := by
  rw [hrun, Exits.take_inLoop, Exits.use_bind]
  rfl

theorem jumpWhile_eq (test : Expr) (body : Stmt) (k : Exits α) :
    m.jumpWhile run test body k = k.take (m.whileLoop test body) := by
  refine Exits.loop_eq (fun v again => ?_) m.fuel Value.undefined
  rw [Exits.use_bind]
  refine Exits.use_congr fun w => ?_
  split
  · exact jump_inLoop hrun body v again k
  · rfl

theorem jumpDo_eq (body : Stmt) (test : Expr) (k : Exits α) :
    m.jumpDo run body test k = k.take (m.doLoop body test) := by
  refine Exits.loop_eq (fun v again => ?_) m.fuel Value.undefined
  rw [hrun, Exits.take_inLoop, Exits.use_bind]
  refine Exits.use_congr fun c => ?_
  cases afterRound c v with
  | inr c => rfl
  | inl v =>
    dsimp only [Sum.elim_inl]
    rw [Exits.use_bind]
    refine Exits.use_congr fun w => ?_
    split <;> rfl

theorem jumpRounds_eq (names : List String) (test update : Option Expr) (body : Stmt) (k : Exits α) :
    m.jumpRounds run names test update body k = k.take (m.rounds names test update body) := by
  rw [jumpRounds, rounds, Exits.take, Exits.use_bind]
  refine Exits.use_congr fun _ => Exits.loop_eq (fun v again => ?_) m.fuel Value.undefined
  rw [Exits.use_bind]
  refine Exits.use_congr fun isHeld => ?_
  split
  · rw [hrun, Exits.take_inLoop, Exits.use_bind]
    refine Exits.use_congr fun c => ?_
    cases afterRound c v with
    | inr c => rfl
    | inl v =>
      dsimp only [Sum.elim_inl]
      rw [Exits.use_bind]
      refine Exits.use_congr fun _ => ?_
      rw [Exits.use_bind]
      rfl
  · rfl

theorem jumpFor_eq (init : LoopInit) (test update : Option Expr) (body : Stmt) (k : Exits α) :
    m.jumpFor run init test update body k = k.take (m.countingLoop init test update body) := by
  cases init with
  | none => exact jumpRounds_eq hrun _ _ _ _ _
  | expression e =>
    change k.use (m.expression e) _ = k.use (m.expression e >>= _) _
    rw [Exits.use_bind]
    exact Exits.use_congr fun _ => jumpRounds_eq hrun _ _ _ _ _
  | declaration d =>
    have hdeclared : ∀ names (k : Exits α),
        (k.use (record (.evaluate "VariableDeclaration" d.span)) fun _ =>
          k.use (m.declaration d) fun _ => m.jumpRounds run names test update body k)
        = k.take (do
            record (.evaluate "VariableDeclaration" d.span)
            m.declaration d
            m.rounds names test update body) := by
      intro names k
      rw [Exits.take, Exits.use_bind]
      refine Exits.use_congr fun _ => ?_
      rw [Exits.use_bind]
      exact Exits.use_congr fun _ => jumpRounds_eq hrun _ _ _ _ _
    rw [jumpFor, countingLoop]
    dsimp only
    split
    · rw [Exits.take, Exits.use_bind]
      exact Exits.use_congr fun e => Exits.within_eq e fun k => hdeclared _ k
    · exact hdeclared _ k

theorem jumpRound_eq (head : LoopHead) (body : Stmt) (x : Value) (k : Exits α) :
    m.jumpRound run head body x k = k.take (m.round head body x) := by
  have hbody : ∀ (p : Eval Unit) (k : Exits α), (k.use p fun _ => run body k)
      = k.take (do
          p
          m.run (.statement body)) := by
    intro p k
    rw [Exits.take, Exits.use_bind]
    exact Exits.use_congr fun _ => hrun body k
  cases head with
  | target t => exact hbody _ k
  | declaration d =>
    unfold jumpRound round
    dsimp only
    split
    · rw [Exits.take, Exits.use_bind]
      exact Exits.use_congr fun e => Exits.within_eq e fun k => hbody _ k
    · exact hbody _ k

theorem jumpEach_eq (head : LoopHead) (body : Stmt) (w : Walk) (k : Exits α) :
    m.jumpEach run head body w k = k.take (m.forEach head body w) := by
  refine Exits.loop_eq (fun s again => ?_) m.fuel (w, Value.undefined)
  obtain ⟨w, v⟩ := s
  dsimp only
  rw [Exits.use_bind]
  refine Exits.use_congr fun x => ?_
  obtain ⟨_ | y, w⟩ := x
  · rfl
  · change m.jumpRound run head body y _ = k.use (m.round head body y >>= _) _
    rw [jumpRound_eq hrun, Exits.take_inLoop, Exits.use_bind]
    refine Exits.use_congr fun c => ?_
    cases afterRound c v <;> rfl

theorem jumpIn_eq (head : LoopHead) (e : Expr) (body : Stmt) (k : Exits α) :
    m.jumpIn run head e body k = k.take (m.forIn head e body) := by
  rw [jumpIn, forIn, Exits.take, Exits.use_bind]
  refine Exits.use_congr fun v => ?_
  split
  · rfl
  · rw [Exits.use_bind]
    refine Exits.use_congr fun keys => ?_
    rw [Exits.use_bind]
    exact Exits.use_congr fun id => jumpEach_eq hrun head body _ k

theorem jumpOf_eq (head : LoopHead) (e : Expr) (body : Stmt) (k : Exits α) :
    m.jumpOf run head e body k = k.take (m.forOf head e body) := by
  rw [jumpOf, forOf, Exits.take, Exits.use_bind]
  refine Exits.use_congr fun v => ?_
  rw [Exits.use_bind]
  exact Exits.use_congr fun w => jumpEach_eq hrun head body w k

/-! ### Completions of statements -/

theorem jumpOther_eq (s : Stmt) (k : Exits α) : m.jumpOther run s k = k.take (m.perform s) := by
  cases s with
  | empty | function | typeAlias | interface | «break» | «continue» | labelled | foreign => rfl
  | expression _ e =>
    rw [Exits.take, perform, Exits.use_bind]
    rfl
  | declaration d =>
    rw [Exits.take, perform, Exits.use_bind]
    rfl
  | block b => exact jumpBlock_eq hrun b k
  | conditional place test consequent alternate => exact jumpConditional_eq hrun _ _ _ _ k
  | «while» _ test body => exact (jumpWhile_eq hrun _ _ _).trans Exits.take_breakable
  | doWhile _ body test => exact (jumpDo_eq hrun _ _ _).trans Exits.take_breakable
  | «for» _ init test update body => exact (jumpFor_eq hrun _ _ _ _ _).trans Exits.take_breakable
  | forIn _ head e body => exact (jumpIn_eq hrun _ _ _ _).trans Exits.take_breakable
  | forOf _ _ head e body => exact (jumpOf_eq hrun _ _ _ _).trans Exits.take_breakable
  | switch place e cases => exact (jumpSwitch_eq hrun _ _ _ _).trans Exits.take_breakable
  | «try» _ b handler finalizer => exact jumpAttempt_eq hrun b handler finalizer k
  | «return» _ e =>
    cases e with
    | none => rfl
    | some e =>
      rw [Exits.take, perform, Exits.use_bind]
      rfl
  | throw _ e =>
    rw [Exits.take, perform, Exits.use_bind]
    rfl

/-- A statement takes the way out that belongs to its completion, if it is so for the statements
inside it. -/
theorem jump_eq (s : Stmt) (k : Exits α) : m.jump run s k = k.take (m.evaluateStatement s) := by
  have hother : ∀ s : Stmt, (k.use (record (.evaluate s.node s.span)) fun _ =>
        if s.isUnsupported then k.use (unsupported s.kind s.span) k.exit else m.jumpOther run s k)
      = k.take (do
          record (.evaluate s.node s.span)
          if s.isUnsupported then unsupported s.kind s.span else m.perform s) := by
    intro s
    rw [Exits.take, Exits.use_bind]
    refine Exits.use_congr fun _ => ?_
    split
    · rfl
    · exact jumpOther_eq hrun s k
  cases s with
  | block b => exact jumpBlock_eq hrun b k
  | _ => exact hother _

end

end Machine

/-- Runs a statement with a stack of machines of the given height. -/
def Task.jump {α : Type} : Nat → Stmt → Exits α → Eval α
  | 0, _, k => k.stop .exhausted
  | n + 1, s, k => (Machine.ofDepth n).jump (Task.jump n) s k

/-- **A statement takes the way out that belongs to its completion.** -/
theorem Task.jump_eq {α : Type} (n : Nat) (s : Stmt) (k : Exits α) :
    Task.jump n s k = k.take (Task.run n (.statement s)) := by
  induction n generalizing s k with
  | zero => rfl
  | succ n ih => exact Machine.jump_eq ih s k

end Scriptlet
