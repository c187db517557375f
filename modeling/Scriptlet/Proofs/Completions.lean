import Scriptlet.Proofs.Jumps

/-!
# Completions

A `break` in a loop or a switch and a `continue` in a loop stay there: what is around the loop or the
switch does not see them.  Functions have only their values to give, and what follows a `try` decides
what comes of it only if it does not end normally.

## Main definitions

* `Enclosure`, `Stmt.isContained` — statements with something around each `break` and `continue`.
* `Eval.Ends` — computations all of whose results have a property.
* `Upshot`, `Eval.ComesTo` — what comes of a statement.
* `Exits.ofBody` — the ways out of the body of a function.

## Main results

* `Machine.isContaining_ofDepth` — a `break` and a `continue` are seen only by what may see them.
* `attempt_comesTo_iff` — a finalizer is run once, and counts if it ends abruptly.
* `completions_contained` — **where each way out of a statement leads**.
-/

namespace Scriptlet

open Eval

/-! ### Statements that stay -/

/-- What there is around a statement in its function. -/
structure Enclosure where
  /-- Whether there is something that can be broken out of. -/
  isBreakable : Bool
  /-- Whether there is a loop. -/
  isLoop : Bool

namespace Enclosure

/-- There is nothing around the statement. -/
def none : Enclosure := ⟨false, false⟩

/-- There is a loop. -/
def loop : Enclosure := ⟨true, true⟩

/-- There is a switch, and what there is around it. -/
def switch (e : Enclosure) : Enclosure := { e with isBreakable := true }

/-- Whether a completion may come of what is enclosed so. -/
def Allows (e : Enclosure) (c : Completion) : Prop :=
  (c.kind = .break → e.isBreakable = true) ∧ (c.kind = .continue → e.isLoop = true)

end Enclosure

mutual

/-- Whether each `break` of a statement has a loop or a switch around it, and each `continue` a loop. -/
def Stmt.isContained (e : Enclosure) : Stmt → Bool
  | .block b => blockIsContained e b
  | .conditional _ _ consequent none => consequent.isContained e
  | .conditional _ _ consequent (some alternate) =>
    consequent.isContained e && alternate.isContained e
  | .while _ _ body | .doWhile _ body _ | .for _ _ _ _ body | .forIn _ _ _ body
  | .forOf _ _ _ _ body => body.isContained .loop
  | .switch _ _ cases => casesAreContained e.switch cases
  | .try _ b handler finalizer =>
    blockIsContained e b && handlerIsContained e handler && finalizerIsContained e finalizer
  | .break _ _ => e.isBreakable
  | .continue _ _ => e.isLoop
  | .labelled _ body => body.isContained e
  | _ => true

/-- Whether it is so in each of some statements. -/
def statementsAreContained (e : Enclosure) : List Stmt → Bool
  | [] => true
  | s :: rest => s.isContained e && statementsAreContained e rest

/-- Whether it is so in a block. -/
def blockIsContained (e : Enclosure) : Block → Bool
  | ⟨_, statements⟩ => statementsAreContained e statements

/-- Whether it is so in the clauses of a switch. -/
def casesAreContained (e : Enclosure) : List Case → Bool
  | [] => true
  | ⟨_, statements⟩ :: rest => statementsAreContained e statements && casesAreContained e rest

/-- Whether it is so in a handler, if there is one. -/
def handlerIsContained (e : Enclosure) : Option Handler → Bool
  | none => true
  | some ⟨_, _, body⟩ => blockIsContained e body

/-- Whether it is so in a finalizer, if there is one. -/
def finalizerIsContained (e : Enclosure) : Option Block → Bool
  | none => true
  | some b => blockIsContained e b

end

/-- The last clauses are contained if all are. -/
theorem casesAreContained_drop {e : Enclosure} {cases : List Case}
    (h : casesAreContained e cases = true) (i : Nat) : casesAreContained e (cases.drop i) = true := by
  induction cases generalizing i with
  | nil => rwa [List.drop_nil]
  | cons c rest ih =>
    cases i with
    | zero => exact h
    | succ i =>
      obtain ⟨test, ss⟩ := c
      rw [casesAreContained, Bool.and_eq_true] at h
      exact ih h.2 i

/-! ### Results with a property -/

/-- All results of the computation have the property. -/
def Eval.Ends {α : Type} (P : α → Prop) (p : Eval α) : Prop := ∀ a x b, p a = .ok x b → P x

namespace Eval.Ends

variable {α β σ : Type} {P Q : α → Prop} {p q : Eval α}

theorem pure {x : α} (h : P x) : Ends P (Pure.pure x) := fun a y b hx => by
  cases hx
  exact h

theorem throw (i : Interrupt) : Ends P (MonadExcept.throw i : Eval α) := fun a x b hx => by cases hx

theorem bind {q : Eval β} {f : β → Eval α} (h : ∀ x, Ends P (f x)) : Ends P (q >>= f) :=
  fun a y b hy => by
    obtain ⟨x, c, -, hx⟩ := bind_eq_ok hy
    exact h x c y b hx

theorem unsupported (kind : String) (place : Span) :
    Ends P (Eval.unsupported kind place : Eval α) := bind fun _ => bind fun _ => throw _

/-- What is done with a result counts on its property. -/
theorem bindOf {R : β → Prop} {q : Eval β} {f : β → Eval α} (hq : Ends R q)
    (h : ∀ x, R x → Ends P (f x)) : Ends P (q >>= f) := fun a y b hy => by
  obtain ⟨x, c, hqx, hx⟩ := bind_eq_ok hy
  exact h x (hq a x c hqx) c y b hx

theorem ending (h : Ends P p) (f : Agent → Agent) : Ends P (Eval.ending p f) := fun a x b hx => by
  unfold Eval.ending at hx
  cases hp : p a with
  | ok y c =>
    rw [hp] at hx
    cases hx
    exact h a x c hp
  | error i c =>
    rw [hp] at hx
    cases hx

theorem inEnvironment (e : EnvironmentId) (h : Ends P p) : Ends P (Eval.inEnvironment e p) :=
  bind fun _ => bind fun _ => h.ending _

theorem catching {f : Value → Eval α} (h : Ends P p) (hf : ∀ v, Ends P (f v)) :
    Ends P (Eval.catching p f) := fun a x b hx => by
  unfold Eval.catching at hx
  cases hp : p a with
  | ok y c =>
    rw [hp] at hx
    cases hx
    exact h a x b hp
  | error i c =>
    rw [hp] at hx
    cases i with
    | thrown v => exact hf v c x b hx
    | exhausted | broken => cases hx

theorem iterate {f : σ → Eval (Sum σ α)} (h : ∀ s, Ends (Sum.elim (fun _ => True) P) (f s))
    (fuel : Nat) (s : σ) : Ends P (Eval.iterate f fuel s) := by
  induction fuel generalizing s with
  | zero => exact throw _
  | succ fuel ih =>
    rw [iterate_succ]
    refine bindOf (h s) fun x hx => ?_
    cases x with
    | inl s => exact ih s
    | inr y => exact pure hx

end Eval.Ends

theorem Eval.Ends.followedBy {P : Completion → Prop} {p q : Eval Completion} (hp : Ends P p)
    (hq : Ends P q) : Ends P (Eval.followedBy p q) := fun a x b hx => by
  unfold Eval.followedBy at hx
  -- The second computation is run whether the first one returns or throws.
  cases hc : p a with
  | ok c d =>
    rw [hc] at hx
    dsimp only at hx
    cases he : q d with
    | ok e f =>
      rw [he] at hx
      cases hx
      split
      · exact hq d e b he
      · exact hp a c d hc
    | error i f =>
      rw [he] at hx
      cases hx
  | error i d =>
    rw [hc] at hx
    cases i with
    | thrown v =>
      dsimp only at hx
      cases he : q d with
      | ok e f =>
        rw [he] at hx
        dsimp only at hx
        split at hx
        · cases hx
          exact hq d x b he
        · cases hx
      | error i f =>
        rw [he] at hx
        cases hx
    | exhausted | broken => cases hx

/-! ### Statements end as they may -/

namespace Enclosure

variable {e : Enclosure} {c : Completion}

theorem allows_normal {v : Option Value} : e.Allows ⟨.normal, v⟩ := ⟨nofun, nofun⟩

theorem allows_return {v : Option Value} : e.Allows ⟨.return, v⟩ := ⟨nofun, nofun⟩

theorem Allows.withDefault (h : e.Allows c) (v : Value) : e.Allows (c.withDefault v) := h

/-- Outside of what can be broken out of there is no `break`. -/
theorem Allows.outside (h : e.switch.Allows c) : e.Allows c.outside := by
  obtain ⟨kind, v⟩ := c
  cases kind with
  | normal | «return» | «break» => exact ⟨nofun, nofun⟩
  | «continue» => exact ⟨nofun, h.2⟩

/-- Nothing is left of a `continue` after a round of a loop. -/
theorem allows_afterRound (c : Completion) (v : Value) :
    Sum.elim (fun _ => True) e.switch.Allows (Machine.afterRound c v) := by
  obtain ⟨kind, w⟩ := c
  cases kind with
  | normal | «continue» => trivial
  | «return» => exact allows_return
  | «break» => exact ⟨fun _ => rfl, nofun⟩

end Enclosure

namespace Machine

/-- The machine runs statements to ends that their enclosures allow. -/
def IsContaining (m : Machine) : Prop :=
  ∀ (e : Enclosure) (s : Stmt), s.isContained e = true → Ends e.Allows (m.run (.statement s))

namespace IsContaining

variable {m : Machine} (hm : m.IsContaining) {e : Enclosure}

include hm

theorem statementsFrom {ss : List Stmt} (h : statementsAreContained e ss = true) (v : Option Value) :
    Ends e.Allows (m.statementsFrom ss v) := by
  induction ss generalizing v with
  | nil => exact .pure Enclosure.allows_normal
  | cons s rest ih =>
    rw [statementsAreContained, Bool.and_eq_true] at h
    refine .bindOf (hm e s h.1) fun c hc => ?_
    dsimp only
    split
    · exact .pure hc
    · exact ih h.2 _

theorem block {b : Block} (h : blockIsContained e b = true) : Ends e.Allows (m.block b) := by
  obtain ⟨span, ss⟩ := b
  refine .bind fun _ => ?_
  split
  · exact .pure Enclosure.allows_normal
  · exact .bind fun _ => .bind fun i => .inEnvironment i (hm.statementsFrom h none)

theorem conditional {consequent : Stmt} {alternate : Option Stmt}
    (hthen : consequent.isContained e = true) (helse : ∀ s ∈ alternate, s.isContained e = true)
    (place : Span) (test : Expr) :
    Ends e.Allows (m.conditional place test consequent alternate) := by
  have hbranch : ∀ s : Stmt, s.isContained e = true →
      Ends e.Allows (do return (← m.run (.statement s)).withDefault .undefined) := fun s hs =>
    .bindOf (hm e s hs) fun c hc => .pure (hc.withDefault _)
  refine .bind fun v => .bind fun _ => ?_
  cases v.isTrue with
  | true => exact hbranch consequent hthen
  | false =>
    cases alternate with
    | none => exact .pure Enclosure.allows_normal
    | some s => exact hbranch s (helse s rfl)

theorem guarded {b : Block} {handler : Option Handler} (hb : blockIsContained e b = true)
    (hhandler : handlerIsContained e handler = true) : Ends e.Allows (m.guarded b handler) := by
  cases handler with
  | none => exact hm.block hb
  | some h =>
    obtain ⟨span, parameter, body⟩ := h
    have hbody : Ends e.Allows (m.block body) := hm.block hhandler
    refine .catching (hm.block hb) fun v => .bind fun _ => ?_
    cases parameter with
    | none => exact hbody
    | some p => exact .bind fun i => .inEnvironment i (.bind fun _ => hbody)

theorem attempt {b : Block} {handler : Option Handler} {finalizer : Option Block}
    (hb : blockIsContained e b = true) (hhandler : handlerIsContained e handler = true)
    (hlast : finalizerIsContained e finalizer = true) :
    Ends e.Allows (m.attempt b handler finalizer) := by
  cases finalizer with
  | none => exact .bindOf (hm.guarded hb hhandler) fun c hc => .pure (hc.withDefault _)
  | some last =>
    exact .bindOf ((hm.guarded hb hhandler).followedBy (hm.block hlast)) fun c hc =>
      .pure (hc.withDefault _)

theorem clauses {cases : List Case} (h : casesAreContained e cases = true) (v : Value) :
    Ends e.Allows (m.clauses cases v) := by
  induction cases generalizing v with
  | nil => exact .pure Enclosure.allows_normal
  | cons c rest ih =>
    obtain ⟨test, ss⟩ := c
    rw [casesAreContained, Bool.and_eq_true] at h
    refine .bindOf (hm.statementsFrom h.1 none) fun r hr => ?_
    dsimp only
    split
    · exact .pure (hr.withDefault _)
    · exact ih h.2 _

/-- The clauses that are selected are the last ones. -/
theorem caseBlock {cases : List Case} (h : casesAreContained e cases = true) (v : Value) :
    Ends e.Allows (m.caseBlock v cases) := by
  refine .bindOf (R := (casesAreContained e · = true)) (fun a l b hl => ?_) fun l hl => hm.clauses hl _
  obtain ⟨_, r, -, hr⟩ := selected_searches m v cases a
  cases r with
  | error i d => cases hl.symm.trans hr
  | ok found d =>
    cases hl.symm.trans hr.2
    exact casesAreContained_drop h _

/-- The body of a loop may end as it likes. -/
theorem inLoop {body : Stmt} (h : body.isContained .loop = true) (v : Value) :
    Ends (Sum.elim (fun _ => True) e.switch.Allows)
      (do return afterRound (← m.run (.statement body)) v) :=
  .bindOf (hm .loop body h) fun c _ => .pure (Enclosure.allows_afterRound c v)

theorem whileLoop {body : Stmt} (h : body.isContained .loop = true) (test : Expr) :
    Ends e.switch.Allows (m.whileLoop test body) := by
  refine .iterate (fun v => .bind fun w => ?_) m.fuel Value.undefined
  split
  · exact hm.inLoop h v
  · exact .pure Enclosure.allows_normal

theorem doLoop {body : Stmt} (h : body.isContained .loop = true) (test : Expr) :
    Ends e.switch.Allows (m.doLoop body test) := by
  refine .iterate (fun v => .bindOf (hm .loop body h) fun c _ => ?_) m.fuel Value.undefined
  have hround := Enclosure.allows_afterRound (e := e) c v
  cases hc : afterRound c v with
  | inr d =>
    rw [hc] at hround
    exact .pure hround
  | inl w =>
    refine .bind fun x => ?_
    split
    · exact .pure trivial
    · exact .pure Enclosure.allows_normal

theorem rounds {body : Stmt} (h : body.isContained .loop = true) (names : List String)
    (test update : Option Expr) : Ends e.switch.Allows (m.rounds names test update body) := by
  refine .bind fun _ => .iterate (fun v => .bind fun isHeld => ?_) m.fuel Value.undefined
  split
  · refine .bindOf (hm .loop body h) fun c _ => ?_
    have hround := Enclosure.allows_afterRound (e := e) c v
    cases hc : afterRound c v with
    | inr d =>
      rw [hc] at hround
      exact .pure hround
    | inl w => exact .bind fun _ => .bind fun _ => .pure trivial
  · exact .pure Enclosure.allows_normal

theorem countingLoop {body : Stmt} (h : body.isContained .loop = true) (init : LoopInit)
    (test update : Option Expr) : Ends e.switch.Allows (m.countingLoop init test update body) := by
  have hrounds := fun names => hm.rounds (e := e) h names test update
  cases init with
  | none => exact hrounds []
  | expression e => exact .bind fun _ => hrounds []
  | declaration d =>
    unfold Machine.countingLoop
    dsimp only
    split
    · exact .bind fun i => .inEnvironment i (.bind fun _ => .bind fun _ => hrounds _)
    · exact .bind fun _ => .bind fun _ => hrounds []

theorem round {body : Stmt} (h : body.isContained .loop = true) (head : LoopHead) (x : Value) :
    Ends Enclosure.loop.Allows (m.round head body x) := by
  have hbody := hm .loop body h
  cases head with
  | target t => exact .bind fun _ => hbody
  | declaration d =>
    unfold Machine.round
    dsimp only
    split
    · exact .bind fun i => .inEnvironment i (.bind fun _ => hbody)
    · exact .bind fun _ => hbody

theorem forEach {body : Stmt} (h : body.isContained .loop = true) (head : LoopHead) (w : Walk) :
    Ends e.switch.Allows (m.forEach head body w) := by
  refine .iterate (fun s => ?_) m.fuel (w, Value.undefined)
  obtain ⟨w, v⟩ := s
  refine .bind fun x => ?_
  obtain ⟨_ | y, w⟩ := x
  · exact .pure Enclosure.allows_normal
  · refine .bindOf (hm.round h head y) fun c _ => ?_
    have hround := Enclosure.allows_afterRound (e := e) c v
    cases hc : afterRound c v with
    | inr d =>
      rw [hc] at hround
      exact .pure hround
    | inl v => exact .pure trivial

theorem forIn {body : Stmt} (h : body.isContained .loop = true) (head : LoopHead) (x : Expr) :
    Ends e.switch.Allows (m.forIn head x body) := by
  refine .bind fun v => ?_
  split
  · exact .pure Enclosure.allows_normal
  · exact .bind fun _ => .bind fun _ => hm.forEach h head _

theorem perform {s : Stmt} (h : s.isContained e = true) : Ends e.Allows (m.perform s) := by
  -- A loop and a switch let out nothing that is meant for them.
  have houtside : ∀ {p : Eval Completion}, Ends e.switch.Allows p →
      Ends e.Allows (do return (← p).outside) := fun hp => .bindOf hp fun c hc => .pure hc.outside
  cases s with
  | empty | function | typeAlias | interface => exact .pure Enclosure.allows_normal
  | expression _ x => exact .bind fun v => .pure Enclosure.allows_normal
  | declaration d => exact .bind fun _ => .pure Enclosure.allows_normal
  | block b => exact hm.block h
  | conditional place test consequent alternate =>
    cases alternate with
    | none =>
      rw [Stmt.isContained] at h
      exact hm.conditional h (by simp) place test
    | some s =>
      rw [Stmt.isContained, Bool.and_eq_true] at h
      exact hm.conditional h.1 (fun t ht => Option.some.inj ht ▸ h.2) place test
  | «while» _ test body => exact houtside (hm.whileLoop h test)
  | doWhile _ body test => exact houtside (hm.doLoop h test)
  | «for» _ init test update body => exact houtside (hm.countingLoop h init test update)
  | forIn _ head x body => exact houtside (hm.forIn h head x)
  | forOf _ _ head x body => exact houtside (.bind fun _ => .bind fun w => hm.forEach h head w)
  | switch place x cases =>
    exact houtside (.bind fun v => .bind fun _ => .bind fun i => .inEnvironment i (hm.caseBlock h v))
  | «try» _ b handler finalizer =>
    rw [Stmt.isContained, Bool.and_eq_true, Bool.and_eq_true] at h
    exact hm.attempt h.1.1 h.1.2 h.2
  | «return» _ x =>
    cases x with
    | none => exact .pure Enclosure.allows_return
    | some x => exact .bind fun v => .pure Enclosure.allows_return
  | throw _ x => exact .bind fun v => .throw _
  -- These two are where the enclosure decides: the grammar allows them inside of a loop or a switch.
  | «break» => exact .pure ⟨fun _ => h, nofun⟩
  | «continue» => exact .pure ⟨nofun, fun _ => h⟩
  | labelled | foreign => exact .unsupported _ _

theorem evaluateStatement {s : Stmt} (h : s.isContained e = true) :
    Ends e.Allows (m.evaluateStatement s) := by
  have hother : Ends e.Allows (do
      record (.evaluate s.node s.span)
      if s.isUnsupported then unsupported s.kind s.span else m.perform s) := by
    refine .bind fun _ => ?_
    split
    · exact .unsupported _ _
    · exact hm.perform h
  cases s with
  | block b => exact hm.block h
  | _ => exact hother

end IsContaining

end Machine

/-- **Statements end as their enclosures allow.** -/
theorem Machine.isContaining_ofDepth (n : Nat) : (Machine.ofDepth n).IsContaining := by
  induction n with
  | zero => exact fun e s _ => .throw _
  | succ n ih => exact fun e s h => ih.evaluateStatement h

/-! ### What comes of a statement -/

/-- What comes of a statement: how it ended, or what it threw. -/
abbrev Upshot := Except Value Completion

namespace Upshot

/-- Whether what follows is not run. -/
def isAbrupt : Upshot → Bool
  | .ok c => c.isAbrupt
  | .error _ => true

/-- How a computation that comes to this outcome ends. -/
def result : Upshot → Agent → EStateM.Result Interrupt Agent Completion
  | .ok c, b => .ok c b
  | .error v, b => .error (.thrown v) b

/-- What comes of a statement, with a value if it ended without one. -/
def withDefault (v : Value) : Upshot → Upshot
  | .ok c => .ok (c.withDefault v)
  | .error w => .error w

end Upshot

namespace Eval

/-- The computation comes to this outcome in this state. -/
def ComesTo (p : Eval Completion) (a : Agent) (o : Upshot) (b : Agent) : Prop := p a = o.result b

section

variable {p q : Eval Completion} {a b c : Agent} {o x y : Upshot}

/-- A computation comes to one outcome only. -/
theorem ComesTo.unique (h : p.ComesTo a o b) (h' : p.ComesTo a x c) : o = x ∧ b = c := by
  have hresult : o.result b = x.result c := h.symm.trans h'
  cases o <;> cases x <;> cases hresult <;> exact ⟨rfl, rfl⟩

/-- What follows counts if it ends abruptly. -/
theorem ComesTo.followedBy (hp : p.ComesTo a x c) (hq : q.ComesTo c y b) :
    (followedBy p q).ComesTo a (if y.isAbrupt then y else x) b := by
  have hfirst : p a = x.result c := hp
  have hsecond : q c = y.result b := hq
  unfold ComesTo Eval.followedBy
  rw [hfirst]
  cases x <;> dsimp only [Upshot.result] <;> rw [hsecond] <;> cases y with
  | error w => rfl
  | ok d => cases hd : d.isAbrupt <;> simp [Upshot.result, Upshot.isAbrupt, hd]

/-- Nothing comes of what is interrupted. -/
theorem exists_comesTo (h : (followedBy p q).ComesTo a o b) :
    ∃ x c y d, p.ComesTo a x c ∧ q.ComesTo c y d := by
  -- The second computation is run in either case, and comes to an end or is interrupted.
  have hlast : ∀ c, (∃ y d, q.ComesTo c y d) ∨
      ∃ i d, q c = .error i d ∧ ∀ v, i ≠ .thrown v := by
    intro c
    cases hq : q c with
    | ok e d => exact .inl ⟨.ok e, d, hq⟩
    | error i d =>
      cases i with
      | thrown v => exact .inl ⟨.error v, d, hq⟩
      | exhausted | broken => exact .inr ⟨_, d, rfl, nofun⟩
  -- What has come to an end has not been interrupted on the way.
  have hhalt : ∀ i d, (∀ v, i ≠ .thrown v) → o.result b ≠ .error i d := by
    intro i d hi ho
    cases o with
    | ok e => cases ho
    | error v =>
      cases ho
      exact hi v rfl
  unfold ComesTo Eval.followedBy at h
  cases hp : p a with
  | ok e c =>
    rw [hp] at h
    obtain ⟨y, d, hq⟩ | ⟨i, d, hq, hi⟩ := hlast c
    · exact ⟨.ok e, c, y, d, hp, hq⟩
    · dsimp only at h
      rw [hq] at h
      exact absurd h.symm (hhalt i d hi)
  | error i c =>
    rw [hp] at h
    cases i with
    | thrown v =>
      obtain ⟨y, d, hq⟩ | ⟨i, d, hq, hi⟩ := hlast c
      · exact ⟨.error v, c, y, d, hp, hq⟩
      · dsimp only at h
        rw [hq] at h
        exact absurd h.symm (hhalt i d hi)
    | exhausted | broken => exact absurd h.symm (hhalt _ c nofun)

end

end Eval

namespace Machine

variable {m : Machine}

/-- **A finalizer is run once, after whatever the block and its handler have come to, and takes its
place if it ends abruptly.** -/
theorem attempt_comesTo_iff {b last : Block} {handler : Option Handler} {a d : Agent} {o : Upshot} :
    (m.attempt b handler (some last)).ComesTo a o d ↔
      ∃ x c y, (m.guarded b handler).ComesTo a x c ∧ (m.block last).ComesTo c y d ∧
        o = (if y.isAbrupt then y else x).withDefault .undefined := by
  have hdefault : ∀ {p : Eval Completion} {x : Upshot} {d : Agent}, p.ComesTo a x d →
      ComesTo (do return (← p).withDefault .undefined) a (x.withDefault .undefined) d := by
    intro p x d hx
    cases x with
    | ok c => exact bind_ok hx
    | error v => exact bind_error hx
  constructor
  · intro h
    -- As the whole statement comes to an end, so do its block with the handler and the finalizer.
    have hwhole : ∃ x d, (followedBy (m.guarded b handler) (m.block last)).ComesTo a x d := by
      cases hp : followedBy (m.guarded b handler) (m.block last) a with
      | ok c d => exact ⟨.ok c, d, hp⟩
      | error i d =>
        have herror : m.attempt b handler (some last) a = .error i d := bind_error hp
        cases i with
        | thrown v => exact ⟨.error v, d, hp⟩
        | exhausted | broken =>
          have hresult := herror.symm.trans h
          cases o <;> cases hresult
    obtain ⟨_, _, hwhole⟩ := hwhole
    obtain ⟨x, c, y, e, hx, hy⟩ := exists_comesTo hwhole
    -- There is one end of a computation, so it is the one that these two make.
    obtain ⟨rfl, rfl⟩ := ComesTo.unique h (hdefault (hx.followedBy hy))
    exact ⟨x, c, y, hx, hy, rfl⟩
  · rintro ⟨x, c, y, hx, hy, rfl⟩
    exact hdefault (hx.followedBy hy)

end Machine

/-! ### Where the ways out lead -/

/-- The ways out of the body of a function: a `return` gives its value and the end gives none; where a
`break` and a `continue` lead is left open. -/
def Exits.ofBody (leave skip : Option Value → Eval Value) : Exits Value where
  next _ := return .undefined
  leave := leave
  skip := skip
  give v := return v.getD .undefined
  stop := throw

namespace Machine

/-- Statements without anything around them end normally or with a `return`. -/
theorem ends_statements (n : Nat) {ss : List Stmt} (h : statementsAreContained .none ss = true) :
    Ends (fun c => c.kind = .normal ∨ c.kind = .return) ((ofDepth n).statements ss) := by
  intro a c b hc
  obtain ⟨hbreak, hcontinue⟩ := (isContaining_ofDepth n).statementsFrom h none a c b hc
  cases hkind : c.kind with
  | normal => exact .inl rfl
  | «return» => exact .inr rfl
  | «break» => cases hbreak hkind
  | «continue» => cases hcontinue hkind

/-- The value of a function is what is on the way out of its body. -/
theorem take_ofBody (n : Nat) {ss : List Stmt} (h : statementsAreContained .none ss = true)
    (leave skip : Option Value → Eval Value) :
    (Exits.ofBody leave skip).take ((ofDepth n).statements ss)
      = (do return (← (ofDepth n).statements ss).returned) := by
  funext a
  unfold Exits.take Exits.use
  cases hc : (ofDepth n).statements ss a with
  | error i b => exact (bind_error hc).symm
  | ok c b =>
    refine Eq.trans ?_ (bind_ok hc).symm
    have hkind := ends_statements n h a c b hc
    obtain ⟨kind, v⟩ := c
    obtain rfl | rfl : kind = .normal ∨ kind = .return := hkind <;> rfl

end Machine

/-- **Each way out of a statement leads where it should.**  Statements in which each `break` has a loop
or a switch around it and each `continue` a loop end normally or with a `return`.  What is run after a
`break` is what has last been provided for it, which is what comes after the nearest loop or switch;
after a `continue` it is the next round of the nearest loop; neither is seen by anything further out.
The value of a call is that of the `return` by which the body is left, or undefined, and there is no
other way.  A finalizer is run once after its block and handler, and what comes of the whole is what came
of these unless it ends abruptly itself. -/
theorem completions_contained (n : Nat) :
    (∀ ss, statementsAreContained .none ss = true →
      Ends (fun c => c.kind = .normal ∨ c.kind = .return) ((Machine.ofDepth n).statements ss)) ∧
    (∀ {α : Type} (k : Exits α),
      (∀ s, Task.jump n s k = k.take (Task.run n (.statement s))) ∧
      ∀ ss, Machine.jumpAll (Task.jump n) ss none k = k.take ((Machine.ofDepth n).statements ss)) ∧
    (∀ (c : Closure) (args : List Value) (span : Span) (ss : List Stmt) (leave skip),
      c.code.body = .block span ss → statementsAreContained .none ss = true →
      (Machine.ofDepth n).callClosure c args = (do
        recordCall c
        report (.calling c.name)
        let e ← newEnvironment (some c.environment)
        inContext ⟨c.realm, e⟩ do
          (Machine.ofDepth n).enter c.code args
          Machine.jumpAll (Task.jump n) ss none (.ofBody leave skip))) ∧
    ∀ (b last : Block) (handler : Option Handler) (a d : Agent) (o : Upshot),
      ((Machine.ofDepth n).attempt b handler (some last)).ComesTo a o d ↔
        ∃ x c y, ((Machine.ofDepth n).guarded b handler).ComesTo a x c ∧
          ((Machine.ofDepth n).block last).ComesTo c y d ∧
          o = (if y.isAbrupt then y else x).withDefault .undefined := by
  have hjump : ∀ {α : Type} (k : Exits α) ss, Machine.jumpAll (Task.jump n) ss none k
      = k.take ((Machine.ofDepth n).statements ss) :=
    fun k ss => Machine.jumpAll_eq (Task.jump_eq n) ss none k
  refine ⟨fun ss => Machine.ends_statements n, fun k => ⟨fun s => Task.jump_eq n s k, hjump k⟩,
    fun c args span ss leave skip hbody hss => ?_, fun b last handler a d o =>
      Machine.attempt_comesTo_iff⟩
  -- The body of a call is left through the same exits.
  have hvalue : (Machine.ofDepth n).body c.code
      = Machine.jumpAll (Task.jump n) ss none (.ofBody leave skip) := by
    rw [hjump, Machine.take_ofBody n hss, Machine.body, hbody]
  rw [Machine.callClosure, hvalue]

end Scriptlet
