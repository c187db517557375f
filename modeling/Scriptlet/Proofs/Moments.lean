import Mathlib.Data.ENat.Basic
import Scriptlet.Proofs.Sessions
import Scriptlet.Proofs.Stopping
import Scriptlet.Proofs.Templates

/-!
# Frozen objects at every moment

A run passes many states before it ends, and code that it calls sees them: a callback of a method, or a
conversion of an argument, begins and ends in the middle of an operation, which then goes on with what
it has looked at before.  So it is not enough to compare the beginning of an operation with its end.

The moments of a run are the beginnings and the ends of its tasks.  A machine may be stopped at the
first moment that is not before a given number; the agent that it leaves behind is the one at that
moment.  Of two such machines, the one that is stopped sooner does what the other one does up to there,
and what the other one does from there on is a matter of steps; so the agent at the later moment comes
of the agent at the sooner one, wherever in the evaluation the two moments are.

Agents count moments among their reports, which no evaluation reads.

## Main definitions

* `Eval.moment`, `Eval.timed` — moments, and computations between two of them.
* `Machine.timed` — a machine that is stopped at a moment.
* `Machine.serving` — the agent that is left behind by a session.
* `Agent.KeepsFrozen` — what is frozen in the first agent is the same in the second one.

## Main results

* `Machine.timed_follows` — what is stopped at a sooner moment is below what is stopped at a later one.
* `Machine.agree_timed` — machines that count moments agree with those that do not.
* `frozen_stays` — **frozen objects never change**, from any moment to any later one.
-/

namespace Scriptlet

open Eval Relation

/-! ### Moments -/

/-- The number of moments that have passed: it is at most that of the reports. -/
def Agent.moments (a : Agent) : Nat := a.reports.length

/-- The agent when one more moment has passed. -/
def Agent.tick (a : Agent) : Agent := { a with reports := .supplied [] :: a.reports }

namespace Eval

variable {α : Type}

/-- Lets a moment pass that is before the given one, and stops otherwise, as if something were missing. -/
def moment (last : ℕ∞) : Eval Unit := do
  if last ≤ ((← get).moments : ℕ∞) then throw (.broken .missingScope)
  else modify Agent.tick

/-- Lets a moment pass at the end of a computation, whatever has come of it. -/
def closing (last : ℕ∞) (p : Eval α) : Eval α := fun a =>
  match p a with
  | .ok x b => (do moment last; return x) b
  | .error i b => (do moment last; throw i) b

/-- Lets a moment pass at the beginning and at the end of a computation. -/
def timed (last : ℕ∞) (p : Eval α) : Eval α := do
  moment last
  closing last p

end Eval

/-- Does a task with a stack of machines of the given height.  Moments pass at the beginning and at the
end of each task; it stops at the first one that is not before the given one. -/
def Task.runTimed (last : ℕ∞) : Nat → {α : Type} → Task α → Eval α
  | 0, _, _ => throw .exhausted
  | n + 1, _, t => timed last (Machine.step ⟨fun t => Task.runTimed last n t, n⟩ t)

/-- The machine on top of a stack of the given height that is stopped at a moment, or never. -/
def Machine.timed (last : ℕ∞) (n : Nat) : Machine := ⟨fun t => Task.runTimed last n t, n⟩

/-- The agent that is left behind when a host has asked for one thing after the other, until a
computation was stopped. -/
def Machine.serving (m : Machine) : List (Request × Tidying) → Agent → Agent
  | [], a => a
  | (r, t) :: rest, a =>
    match r.answer m t a with
    | .ok _ b => m.serving rest b
    | .error (.thrown _) b => m.serving rest b
    | .error _ b => b

/-- What leaves no room for change in the first agent leaves none in the second one, and it has the keys
and the properties that it had. -/
def Agent.KeepsFrozen (a b : Agent) : Prop :=
  ∀ o, (a.object o).IsSealed →
    (b.object o).IsSealed ∧ (b.object o).isFrozen = true ∧
    (b.object o).ownKeys = (a.object o).ownKeys ∧
    ∀ k, (b.object o).ownProperty? k = (a.object o).ownProperty? k

/-! ### What a moment does -/

section Moments

variable {α : Type} {p : Eval α}

/-- A moment is the one at which a computation is stopped, or it passes. -/
theorem moment_cases (last : ℕ∞) (a : Agent) :
    (last ≤ (a.moments : ℕ∞) ∧ moment last a = .error (.broken .missingScope) a) ∨
      ¬last ≤ (a.moments : ℕ∞) ∧ moment last a = .ok () a.tick := by
  by_cases h : last ≤ (a.moments : ℕ∞)
  · exact .inl ⟨h, congrFun (if_pos h) a⟩
  · exact .inr ⟨h, congrFun (if_neg h) a⟩

/-- Nobody but the reports takes notice of a moment. -/
theorem registry_moment (last : ℕ∞) (a : Agent) : ((moment last).after a).registry = a.registry := by
  rcases moment_cases last a with ⟨-, h⟩ | ⟨-, h⟩
  · rw [after_error h]
  · rw [after_ok h]
    rfl

/-- The agent at the end of a computation has the objects and the realms that it has left. -/
theorem registry_closing (last : ℕ∞) (p : Eval α) (a : Agent) :
    ((closing last p).after a).registry = (p.after a).registry := by
  unfold after closing
  cases p a with
  | ok x b | error i b =>
    dsimp only
    rw [← registry_moment last b]
    rcases moment_cases last b with ⟨-, h⟩ | ⟨-, h⟩
    · rw [bind_error h, after_error h]
    · rw [bind_ok h, after_ok h]
      rfl

/-- A computation between two moments registers what it does without them. -/
theorem registering_timed (last : ℕ∞) (h : registering.Holds p) : registering.Holds (timed last p) := by
  refine Law.bind _ (fun a => .of_same (registry_moment last a)) fun _ a => ?_
  unfold Agent.Registers
  rw [registry_closing]
  exact h a

end Moments

/-- Every machine that is stopped at a moment registers arrays for templates at most. -/
theorem registering_machineTimed (last : ℕ∞) (n : Nat) : registering.Rules (.timed last n) := by
  induction n with
  | zero => exact fun _ _ => registering.throw _
  | succ n ih => exact fun _ t => registering_timed last (GeneralLaw.step ih t)

/-! ### Sooner and later -/

/-- Computations are stopped in agents that the others pass: what these come to comes of them. -/
def Stopping.timing : Stopping where
  law := registering
  free := registering_free
  settled := @registering_settled
  Stops i c d := (∃ x, i = .broken x) ∧ c.Registers d
  uncaught := by
    rintro v c d ⟨⟨x, hx⟩, -⟩
    cases hx
  later h := fun ⟨hi, hc⟩ => ⟨hi, hc.trans (h _)⟩
  ending f hf := fun ⟨hi, hc⟩ => ⟨hi, hc.ending hf⟩

section Order

variable {α : Type} {k l : ℕ∞} {p q : Eval α} {a : Agent}

/-- What is stopped has left an agent that the other computation passes, and otherwise both leave the
same. -/
theorem Stopping.Follows.registers (h : Stopping.timing.Follows p q) (a : Agent) :
    (p.after a).Registers (q.after a) := by
  rcases h.follows a with ⟨i, b, hb, -, hlater⟩ | hsame
  · rwa [after_error hb]
  · rw [after, after, hsame]
    exact .refl _

/-- A moment that is stopped later is stopped sooner as well. -/
theorem moment_follows (h : k ≤ l) : Stopping.timing.Follows (moment k) (moment l) := by
  refine ⟨fun a => .of_same (registry_moment l a), fun a => ?_⟩
  rcases moment_cases k a with ⟨-, hk⟩ | ⟨hk, hsooner⟩
  · exact .inl ⟨_, a, hk, ⟨_, rfl⟩, .of_same (registry_moment l a)⟩
  · rcases moment_cases l a with ⟨hl, -⟩ | ⟨-, hlater⟩
    · exact absurd (h.trans hl) hk
    · exact .inr (hlater.trans hsooner.symm)

/-- A computation that is stopped at its end is stopped there or before. -/
theorem closing_follows (h : k ≤ l) (hpq : Stopping.timing.Follows p q) :
    Stopping.timing.Follows (closing k p) (closing l q) := by
  refine ⟨fun a => ?_, fun a => ?_⟩
  · unfold Agent.Registers
    rw [registry_closing]
    exact hpq.holds a
  · rcases hpq.follows a with ⟨i, b, hb, ⟨x, rfl⟩, hlater⟩ | hsame
    · -- It has been stopped within: the moment at the end changes no object and no realm.
      have hregisters : b.Registers ((closing l q).after a) := by
        unfold Agent.Registers
        rw [registry_closing]
        exact hlater
      unfold closing
      rw [hb]
      dsimp only
      rcases moment_cases k b with ⟨-, hk⟩ | ⟨-, hk⟩
      · exact .inl ⟨_, b, bind_error hk, ⟨_, rfl⟩, hregisters⟩
      · exact .inl ⟨_, b.tick, bind_ok hk, ⟨_, rfl⟩, hregisters⟩
    · unfold after closing
      rw [hsame]
      cases p a with
      | ok x b =>
        exact ((moment_follows h).bind fun _ => .refl (registering.pure x)).follows b
      | error i b =>
        exact ((moment_follows h).bind fun _ => .refl (registering.throw i)).follows b

namespace Machine

/-- **What is stopped at a sooner moment is below what is stopped at a later one.** -/
theorem timed_follows (h : k ≤ l) (n : Nat) : Stopping.timing.IsBelow (timed k n) (timed l n) := by
  induction n with
  | zero => exact ⟨fun _ => .refl (registering.throw _), .inl rfl⟩
  | succ n ih =>
    exact ⟨fun t => (moment_follows h).bind fun _ => closing_follows h (ih.step t), .inl rfl⟩

/-- **What comes of a task by a later moment** comes of what has come of it by a sooner one. -/
theorem registers_timed (h : k ≤ l) (n : Nat) (t : Task α) (a : Agent) :
    (((timed k n).run t).after a).Registers (((timed l n).run t).after a) :=
  ((timed_follows h n).run t).registers a

end Machine

end Order

/-! ### Sessions -/

namespace Machine

variable {m m' : Machine} {k l : ℕ∞} {a : Agent}

/-- The host goes on with what the first request has left, or that is the end. -/
theorem serving_cons (m : Machine) (r : Request) (t : Tidying) (rest : List (Request × Tidying))
    (a : Agent) : m.serving ((r, t) :: rest) a = (r.answer m t).after a ∨
      m.serving ((r, t) :: rest) a = m.serving rest ((r.answer m t).after a) := by
  rw [serving]
  cases hr : r.answer m t a with
  | ok vs b => exact .inr (by rw [after_ok hr])
  | error i b =>
    rw [after_error hr]
    cases i with
    | thrown v => exact .inr rfl
    | exhausted | broken => exact .inl rfl

/-- A session registers arrays for templates at most. -/
theorem registers_serving (hm : registering.Rules m) (requests : List (Request × Tidying)) (a : Agent) :
    a.Registers (m.serving requests a) := by
  induction requests generalizing a with
  | nil => exact .refl a
  | cons x rest ih =>
    obtain ⟨r, t⟩ := x
    have hanswer : a.Registers ((r.answer m t).after a) := SessionLaw.answer hm t r a
    rcases serving_cons m r t rest a with heq | heq
    · rwa [heq]
    · rw [heq]
      exact hanswer.trans (ih _)

/-- **What comes of a session by a later moment** comes of what has come of it by a sooner one. -/
theorem registers_serving_timed (h : k ≤ l) (n : Nat) (requests : List (Request × Tidying)) (a : Agent) :
    ((timed k n).serving requests a).Registers ((timed l n).serving requests a) := by
  induction requests generalizing a with
  | nil => exact .refl a
  | cons x rest ih =>
    obtain ⟨r, t⟩ := x
    rcases ((timed_follows h n).answer t r).follows a with ⟨i, b, hb, ⟨x, rfl⟩, hlater⟩ | hsame
    · -- The session ends at the moment, in the first request.
      have hend : (timed k n).serving ((r, t) :: rest) a = b := by
        unfold serving
        rw [hb]
      rw [hend]
      rcases serving_cons (timed l n) r t rest a with heq | heq
      · rwa [heq]
      · rw [heq]
        exact hlater.trans (registers_serving (registering_machineTimed l n) rest _)
    · unfold serving
      rw [hsame]
      cases r.answer (timed k n) t a with
      | ok vs b => exact ih b
      | error i b =>
        cases i with
        | thrown v => exact ih b
        | exhausted | broken => exact .refl b

end Machine

/-! ### Nothing else is changed by moments -/

section Agreement

variable {φ : RealmId → Filing} {ρ : World} {K : Stack φ} {α β : Type} {p : Eval α} {q : Eval β}
  {R : World → α → β → Prop}

/-- Without a last moment, only the reports are others. -/
theorem timed_top (p : Eval α) (a : Agent) : timed ⊤ p a =
    match p a.tick with
    | .ok x b => .ok x b.tick
    | .error i b => .error i b.tick := by
  have hmoment : ∀ b, moment ⊤ b = .ok () b.tick := fun b =>
    (moment_cases ⊤ b).elim (fun h => absurd h.1 (not_le_of_gt (ENat.natCast_lt_top _))) And.right
  unfold timed
  rw [bind_ok (hmoment a)]
  unfold closing
  cases p a.tick with
  | ok x b => exact bind_ok (hmoment b)
  | error i b => exact bind_ok (hmoment b)

/-- Agents agree as well when one more moment has passed on the left side. -/
theorem Agrees.tick {a b : Agent} (h : Agrees ρ K a b) : Agrees ρ K a.tick b := { h with }

/-- A computation between two moments is related to what it is related to without them. -/
theorem Related.timed_top (h : Related ρ K p q R) : Related ρ K (Eval.timed ⊤ p) q R := by
  intro a b hab
  have hsame : ∀ {σ : World} {c d : Agent}, Extends σ c d σ c.tick d := fun {σ c d} =>
    .of_eq ⟨rfl, rfl⟩ ⟨rfl, rfl⟩ ⟨rfl, rfl⟩ ⟨rfl, rfl⟩
  have hinner := (h a.tick b hab.tick).after hsame
  rw [Scriptlet.timed_top]
  generalize p a.tick = r, q b = r' at hinner
  cases hinner with
  | ok ext hgood => exact .ok (ext.trans hsame) ⟨hgood.1.tick, hgood.2⟩
  | thrown ext hv hbad => exact .thrown (ext.trans hsame) hv hbad.tick
  | exhausted ext hbad => exact .exhausted (ext.trans hsame) hbad.tick

/-- **Machines that count moments agree with those that do not.** -/
theorem Machine.agree_timed (n : Nat) : (Machine.timed ⊤ n).Agree φ (.ofDepth n) := by
  induction n with
  | zero => exact ⟨rfl, fun _ => Related.exhausted⟩
  | succ n ih => exact ⟨rfl, fun ht => (ih.step ht).timed_top⟩

end Agreement

/-! ### Frozen objects -/

/-- A place without room for change has an object. -/
theorem Agent.getElem?_of_isSealed {a : Agent} {o : ObjectId} (h : (a.object o).IsSealed) :
    a.objects[o.index]? = some (a.object o) := by
  cases hx : a.objects[o.index]? with
  | none =>
    rw [Agent.object_eq_getD, hx] at h
    cases h.isExtensible
  | some x => rw [Agent.object_eq_getD, hx, Option.getD_some]

/-- **Steps of objects and realms keep what is frozen.** -/
theorem Agent.Registers.keepsFrozen {a b : Agent} (h : a.Registers b) : a.KeepsFrozen b := by
  intro o ho
  have hthere : ∃ x, b.objects[o.index]? = some x ∧ (a.object o).Shows x :=
    Registry.shows_of_steps h ho (Agent.getElem?_of_isSealed ho) (.refl _)
  obtain ⟨x, hx, hshows⟩ := hthere
  have hobject : b.object o = x := by rw [Agent.object_eq_getD, hx, Option.getD_some]
  have hsealed := hshows.isSealed ho
  rw [hobject]
  exact ⟨hsealed, hsealed.isFrozen, hshows.ownKeys, hshows.ownProperty?⟩

/-- A call of the method that freezes freezes its argument, and does nothing else. -/
theorem callBuiltin_freeze (m : Machine) (this : Value) (o : ObjectId) (args : List Value) (a : Agent) :
    m.callBuiltin (.object .freeze) this (.object o :: args) a
      = .ok (.object o) (a.modifyObject o Object.freeze) := rfl

/-- The object at the place is the frozen one afterwards. -/
theorem Agent.object_freeze {a : Agent} {o : ObjectId} (h : o.index < a.objects.size) :
    (a.modifyObject o Object.freeze).object o = (a.object o).freeze := by
  rw [Agent.modifyObject_eq h, Agent.object_eq_getD]
  dsimp only
  rw [Array.getElem?_setIfInBounds_self_of_lt h, Option.getD_some]

/-- The objects that come to be when a template is evaluated are frozen. -/
theorem isSealed_templateObject (t : Template) (a : Agent) {i : Nat} (hi : a.objects.size ≤ i)
    (hlt : i < ((templateObject t).after a).objects.size) :
    (((templateObject t).after a).object ⟨i⟩).IsSealed := by
  obtain ⟨j, hj⟩ | ⟨c, -, -, ⟨o, -, ho⟩ | ⟨-, ho⟩⟩ := templateObject_cases t a
  · rw [after_error hj] at hlt
    exact absurd hlt (Nat.not_lt.mpr hi)
  · rw [after_ok ho] at hlt
    exact absurd hlt (Nat.not_lt.mpr hi)
  · -- There are two new objects: the array for the template and that of its spellings.
    obtain ⟨⟨x, hx, hshows⟩, y, hy, hraw⟩ := a.registry.presents_withTemplate c.realm t
    rw [after_ok ho] at hlt ⊢
    have hsize : (a.withTemplate c.realm t).objects.size = a.objects.size + 2 := by
      change ((a.objects.push _).push _).size = _
      rw [Array.size_push, Array.size_push]
    have hcases : i = a.objects.size ∨ i = a.objects.size + 1 := by omega
    rw [Agent.object_eq_getD]
    rcases hcases with rfl | rfl
    · exact (congrArg (·.getD Object.empty) hx) ▸ hshows.isSealed (Object.isSealed_freeze _)
    · exact (congrArg (·.getD Object.empty) hy) ▸ hraw.isSealed (Object.isSealed_freeze _)

/-- **Frozen objects never change.**  Freezing leaves no room for change in an object of any kind; that is
what a call of the method for it does to its argument, and the objects that come to be for a template
are frozen.  What leaves no room for change at one moment of a session, whoever has frozen it and
whatever is under way there, has the same keys and the same properties at every later moment and at the
end, and is frozen; so it is of what is so at the beginning, and of the moments of a single task.  The
moments are those of the session as it is served without counting them. -/
theorem frozen_stays (n : Nat) :
    (∀ x : Object, x.freeze.IsSealed) ∧
    (∀ (m : Machine) (this : Value) (o : ObjectId) (args : List Value) (a : Agent),
      o.index < a.objects.size → ∃ b,
        m.callBuiltin (.object .freeze) this (.object o :: args) a = .ok (.object o) b ∧
          b.object o = (a.object o).freeze) ∧
    (∀ (t : Template) (a : Agent) (i : Nat), a.objects.size ≤ i →
      i < ((templateObject t).after a).objects.size →
        (((templateObject t).after a).object ⟨i⟩).IsSealed) ∧
    (∀ (isVerbose : Bool) (requests : List (Request × Tidying)),
      serve (.timed ⊤ n) requests (.new isVerbose) = serve (.ofDepth n) requests (.new isVerbose)) ∧
    (∀ (requests : List (Request × Tidying)) (a : Agent) (l : ℕ∞),
      a.KeepsFrozen ((Machine.timed l n).serving requests a) ∧
      ∀ k ≤ l, ((Machine.timed k n).serving requests a).KeepsFrozen
        ((Machine.timed l n).serving requests a)) ∧
    ∀ {α : Type} (t : Task α) (a : Agent) (l : ℕ∞),
      a.KeepsFrozen (((Machine.timed l n).run t).after a) ∧
      ∀ k ≤ l, (((Machine.timed k n).run t).after a).KeepsFrozen (((Machine.timed l n).run t).after a) := by
  refine ⟨Object.isSealed_freeze, fun m this o args a ho => ?_,
    fun t a i hi hlt => isSealed_templateObject t a hi hlt, fun isVerbose requests => ?_,
    fun requests a l => ⟨?_, fun k hk => ?_⟩, fun t a l => ⟨?_, fun k hk => ?_⟩⟩
  · exact ⟨_, callBuiltin_freeze m this o args a, Agent.object_freeze ho⟩
  · exact (serve_agrees (Machine.agree_timed n) rfl (fun _ _ => onFile_eq)
      (agrees_new (onFile (requests.map Prod.fst)) isVerbose)).1
  · exact (Machine.registers_serving (registering_machineTimed l n) requests a).keepsFrozen
  · exact (Machine.registers_serving_timed hk n requests a).keepsFrozen
  · exact (registering_machineTimed l n t a).keepsFrozen
  · exact (Machine.registers_timed hk n t a).keepsFrozen

/-- An agent that has an array whose only element is the array itself, a method that calls a function on
each element of an array, and the method that freezes. -/
def Agent.withCallback : Agent :=
  { Agent.new false with
    objects := #[.ofKind (.array (.ofList [.object ⟨0⟩])), .ofKind (.builtin (.arrayMethod .forEach)),
      .ofKind (.builtin (.object .freeze))] }

/-- A walk over an array is under way when it is frozen: it can be changed at the moment at which the
callback begins, and cannot at the moment at which it ends.  At the end it is what it was then. -/
theorem frozen_stays_visited :
    let x (k : ℕ∞) := (((Machine.timed k 3).run (.call ⟨1⟩ (.object ⟨0⟩) [.object ⟨2⟩])).after
      Agent.withCallback).object ⟨0⟩
    ¬(x 1).IsSealed ∧ (x 2).IsSealed ∧ (x ⊤).isFrozen = true ∧
      (x ⊤).ownKeys = [PropertyKey.ofNat 0, ("length" : PropertyKey)] := by
  intro x
  have hsealed : (x 2).IsSealed := by decide +kernel
  have hkeys : (x 2).ownKeys = [PropertyKey.ofNat 0, ("length" : PropertyKey)] := by decide +kernel
  obtain ⟨-, -, -, -, -, htask⟩ := frozen_stays 3
  obtain ⟨-, hfrozen, hkept, -⟩ := (htask (.call ⟨1⟩ (.object ⟨0⟩) [.object ⟨2⟩]) .withCallback ⊤).2 2
    le_top ⟨0⟩ hsealed
  exact ⟨by decide +kernel, hsealed, hfrozen, hkept.trans hkeys⟩

end Scriptlet
