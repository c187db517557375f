import Scriptlet.Proofs.Restoration
import Scriptlet.Proofs.Sessions
import Scriptlet.Proofs.Stopping
import Scriptlet.Proofs.Templates

/-!
# Template objects in sessions

What a session comes to tells what all its tagged templates have been given: a realm keeps the first
array that it has made for a template, and it is given to the tag whenever the template is evaluated.
So a run may be compared with its end.  A machine that knows the end, and stops as soon as anything
about templates is not as it is there, is never stopped.

A template is known by its realm and the offset at which it starts: each root is loaded into a realm of
its own, and no two templates of a source start at the same place.

## Main definitions

* `Agent.Confirms`, `Agent.ConfirmsTemplate` — what is known about templates at the end.
* `Machine.confirmed` — a machine that stops at what the end does not confirm.

## Main results

* `Machine.confirmed_follows` — until it is stopped, such a machine does what others do.
* `serve_templates` — **templates are given the same array whenever they are evaluated**, different ones
  are given different arrays, and these have their pieces throughout.
-/

namespace Scriptlet

open Eval Relation

/-! ### What is confirmed -/

namespace Agent

variable {a b : Agent}

/-- The first agent keeps the arrays that the second one keeps, for the same templates, and they have the
same pieces. -/
structure Confirms (b a : Agent) : Prop where
  template : ∀ {r k o}, a.template? r k = some o → b.template? r k = some o
  pieces : ∀ {r k o t}, a.template? r k = some o → (b.HasPieces o t ↔ a.HasPieces o t)

/-- The first agent keeps the array for the template that is evaluated in the second one; and it has the
pieces of the template, if there has been none for it. -/
def ConfirmsTemplate (b a : Agent) (t : Template) (o : ObjectId) : Prop :=
  ∃ c, context a = .ok c a ∧ b.template? c.realm t.span.start = some o ∧
    (a.template? c.realm t.span.start = none → b.HasPieces o t)

/-- **What comes later confirms** what is kept. -/
theorem confirms (ha : a.registry.IsSound) (h : a.Registers b) : b.Confirms a where
  template := Registry.template?_of_steps h
  pieces := hasPieces_of_steps ha h

theorem template?_withTemplate {r : RealmId} (hr : r.index < a.realms.size) (t : Template) :
    (a.withTemplate r t).template? r t.span.start = some ⟨a.objects.size⟩ := by
  change (a.registry.withTemplate r t).template? r t.span.start = _
  rw [Registry.template?_withTemplate hr, if_pos ⟨rfl, rfl⟩]
  rfl

/-- What comes after the evaluation of a template confirms the array. -/
theorem confirmsTemplate {t : Template} {o : ObjectId} {c : Agent} (h : templateObject t a = .ok o c)
    (hb : c.Registers b) : b.ConfirmsTemplate a t o := by
  obtain ⟨i, hi⟩ | ⟨d, hd, hlt, ⟨p, hp, heq⟩ | ⟨hnone, heq⟩⟩ := templateObject_cases t a
  · cases hi.symm.trans h
  · cases heq.symm.trans h
    refine ⟨d, hd, Registry.template?_of_steps hb hp, fun hnone => ?_⟩
    rw [hnone] at hp
    cases hp
  · cases heq.symm.trans h
    refine ⟨d, hd, Registry.template?_of_steps hb (template?_withTemplate hlt t), fun _ => ?_⟩
    exact hasPieces_of_presents (Registry.presents_of_steps hb
      (Registry.presents_withTemplate a.registry d.realm t))

end Agent

/-! ### Machines that know the end -/

namespace Eval

open Classical in
/-- The array for a template, if the agent confirms it. -/
noncomputable def confirmedTemplate (b : Agent) (t : Template) : Eval ObjectId := do
  let a ← get
  let o ← templateObject t
  if b.ConfirmsTemplate a t o then return o else throw (.broken .missingScope)

end Eval

namespace Machine

variable {α : Type} {b : Agent} {m m' : Machine}

/-- The value of a tagged template whose array is made in the given way. -/
def taggedBy (m : Machine) (p : Eval ObjectId) (tag : Expr) (t : Template) : Eval Value := do
  let (f, this) ← m.callee tag
  let o ← p
  let vs ← m.expressions t.expressions
  m.call (← requireFunction f tag.span) this (.object o :: vs)

/-- The value of an expression; arrays for tagged templates are made in the given way. -/
def evaluateTagging (m : Machine) (p : Template → Eval ObjectId) (e : Expr) : Eval Value := do
  let e := e.inner
  record (.evaluate e.node e.span)
  if e.isUnsupported (← realm).rules then unsupported e.kind e.span
  else
    match e with
    | .tagged _ tag t => m.taggedBy (p t) tag t
    | e => m.value e

/-- Does a task; the agent confirms the arrays for tagged templates. -/
noncomputable def confirmedStep (b : Agent) (m : Machine) : {α : Type} → Task α → Eval α
  | _, .expression e => m.evaluateTagging (confirmedTemplate b) e
  | _, t => m.step t

end Machine

open Classical in
/-- Does a task with a stack of machines of the given height; it stops, as if something were missing,
where the agent does not confirm what realms keep, or the array for a tagged template. -/
noncomputable def Task.runConfirmed (b : Agent) : Nat → {α : Type} → Task α → Eval α
  | 0, _, _ => throw .exhausted
  | n + 1, _, t => do
    if b.Confirms (← get) then Machine.confirmedStep b ⟨fun t => Task.runConfirmed b n t, n⟩ t
    else throw (.broken .missingScope)

/-- The machine on top of a stack of the given height that stops at what the agent does not confirm. -/
noncomputable def Machine.confirmed (b : Agent) (n : Nat) : Machine :=
  ⟨fun t => Task.runConfirmed b n t, n⟩

namespace Machine

variable {α : Type} {b : Agent} {m m' : Machine}

/-- Expressions are evaluated as usual if the arrays are made as usual. -/
theorem evaluateTagging_templateObject (m : Machine) (e : Expr) :
    m.evaluateTagging templateObject e = m.evaluateExpression e := by
  unfold evaluateTagging evaluateExpression
  refine bind_congr fun _ => bind_congr fun r => ?_
  split
  · rfl
  · cases e.inner <;> rfl

/-! #### What they register -/

theorem registering_confirmedTemplate (t : Template) : registering.Holds (confirmedTemplate b t) := by
  refine Law.bind _ registering.get fun a => Law.bind _ (registering.templateObject t) fun o => ?_
  split
  · exact registering.pure o
  · exact registering.throw _

theorem registering_evaluateTagging (hm : registering.Rules m) {p : Template → Eval ObjectId}
    (hp : ∀ t, registering.Holds (p t)) (e : Expr) : registering.Holds (m.evaluateTagging p e) := by
  have hobeys := GeneralLaw.obeys hm
  refine Law.bind _ (Law.record _) fun _ => Law.bind _ Law.realm fun r => ?_
  split
  · exact Law.unsupported _ _
  · split
    · refine Law.bind _ (Law.callee hobeys _) fun x => Law.bind _ (hp _) fun o => ?_
      refine Law.bind _ (Law.expressions hobeys _) fun vs => ?_
      exact Law.bind _ (Law.requireFunction _ _) fun f => Law.call hobeys f _ _
    · exact Law.value hobeys _ (GeneralLaw.assigns hm)

theorem registering_confirmedStep (hm : registering.Rules m) (t : Task α) :
    registering.Holds (confirmedStep b m t) := by
  cases t with
  | expression e => exact registering_evaluateTagging hm registering_confirmedTemplate e
  | _ =>
    unfold confirmedStep
    exact GeneralLaw.step hm _

/-- Also a machine that knows the end registers arrays for templates at most. -/
theorem registering_confirmed (b : Agent) (n : Nat) : registering.Rules (confirmed b n) := by
  induction n with
  | zero => exact fun _ _ => registering.throw _
  | succ n ih =>
    intro α t
    refine Law.bind _ registering.get fun a => ?_
    split
    · exact registering_confirmedStep ih t
    · exact registering.throw _

end Machine

/-- Computations are stopped at what the agent does not confirm: at an agent that it does not come of. -/
def Stopping.confirming (b : Agent) : Stopping where
  law := registering
  free := registering_free
  settled := @registering_settled
  Stops i c d := (∃ x, i = .broken x) ∧ ¬(c.registry.IsSound ∧ c.Registers b) ∧ c.Registers d
  uncaught := by
    rintro v c d ⟨⟨x, hx⟩, -⟩
    cases hx
  later h := fun ⟨hi, hc, hd⟩ => ⟨hi, hc, hd.trans (h _)⟩
  ending f hf := by
    rintro ⟨hi, hc, hd⟩
    refine ⟨hi, ?_, hd.ending hf⟩
    unfold Agent.Registers Agent.registry at hc ⊢
    rwa [(hf _).1, (hf _).2]

namespace Machine

variable {α : Type} {b : Agent} {m m' : Machine}

/-- Where a template is evaluated, a run is stopped if the end does not confirm the array. -/
theorem confirmedTemplate_follows (b : Agent) (t : Template) :
    (Stopping.confirming b).Follows (confirmedTemplate b t) (templateObject t) := by
  refine ⟨Registering.templateObject t, fun a => ?_⟩
  have hget : confirmedTemplate b t a = _ := bind_ok (get_apply a)
  rw [hget]
  cases ho : templateObject t a with
  | error i c => exact .inr (bind_error ho).symm
  | ok o c =>
    rw [bind_ok ho]
    by_cases hconfirms : b.ConfirmsTemplate a t o
    · rw [if_pos hconfirms]
      exact .inr rfl
    · refine .inl ⟨.broken .missingScope, c, ?_, ⟨_, rfl⟩, fun h => ?_, ?_⟩
      · rw [if_neg hconfirms]
        rfl
      · exact hconfirms (Agent.confirmsTemplate ho h.2)
      · rw [after_ok ho]
        exact .refl c

theorem evaluateTagging_follows (h : (Stopping.confirming b).IsBelow m m') (e : Expr) :
    (Stopping.confirming b).Follows (m.evaluateTagging (confirmedTemplate b) e)
      (m'.evaluateExpression e) := by
  rw [← evaluateTagging_templateObject]
  refine .bind (.refl (Law.record _)) fun _ => .bind (.refl Law.realm) fun r => ?_
  split
  · exact .refl (Law.unsupported _ _)
  · cases e.inner with
    | tagged s tag t =>
      refine .bind (h.callee tag) fun x => .bind (confirmedTemplate_follows b t) fun o => ?_
      refine .bind (h.expressions _) fun vs => .bind (.refl (Law.requireFunction _ _)) fun f => ?_
      exact h.call f _ _
    | _ => exact h.value _

/-- **Until it is stopped**, a machine that knows the end does what others do. -/
theorem confirmed_follows (b : Agent) (n : Nat) :
    (Stopping.confirming b).IsBelow (confirmed b n) (ofDepth n) := by
  induction n with
  | zero => exact ⟨fun _ => .refl (registering.throw _), .inl rfl⟩
  | succ n ih =>
    refine ⟨fun {α} t => ⟨registers_run (n + 1) t, fun a => ?_⟩, .inl rfl⟩
    have hget : Task.runConfirmed b (n + 1) t a = _ := bind_ok (get_apply a)
    change (∃ i c, Task.runConfirmed b (n + 1) t a = _ ∧ _) ∨ _ = Task.runConfirmed b (n + 1) t a
    rw [hget]
    by_cases hconfirms : b.Confirms a
    · rw [if_pos hconfirms]
      have hstep : (Stopping.confirming b).Follows (confirmedStep b (confirmed b n) t)
          ((ofDepth n).step t) := by
        cases t with
        | expression e => exact evaluateTagging_follows ih e
        | _ =>
          unfold confirmedStep
          exact ih.step _
      exact hstep.follows a
    · refine .inl ⟨.broken .missingScope, a, ?_, ⟨_, rfl⟩, fun h => ?_, registers_run (n + 1) t a⟩
      · rw [if_neg hconfirms]
        rfl
      · exact hconfirms (Agent.confirms h.1 h.2)

end Machine

/-! ### Sessions -/

variable {n : Nat} {a b : Agent}

/-- The agent that a host has come to after it has asked for one thing after the other. -/
theorem registers_foldl (requests : List (Request × Tidying)) (a : Agent) :
    a.Registers (requests.foldl (fun a x => (x.1.answer (.ofDepth n) x.2).after a) a) := by
  induction requests generalizing a with
  | nil => exact .refl a
  | cons x l ih => exact (registers_answer n x.1 x.2 a).trans (ih _)

/-- A session that knows its end is never stopped. -/
theorem serve_confirmed {requests : List (Request × Tidying)} (ha : a.registry.IsSound)
    (hb : requests.foldl (fun a x => (x.1.answer (.ofDepth n) x.2).after a) a = b) :
    serve (.confirmed b n) requests a = serve (.ofDepth n) requests a := by
  induction requests generalizing a with
  | nil => rfl
  | cons x l ih =>
    obtain ⟨r, t⟩ := x
    have hend := registers_foldl (n := n) l ((r.answer (.ofDepth n) t).after a)
    rw [List.foldl_cons] at hb
    rw [hb] at hend
    have hsame : r.answer (.ofDepth n) t a = r.answer (.confirmed b n) t a := by
      refine (((Machine.confirmed_follows b n).answer t r).follows a).resolve_left ?_
      rintro ⟨i, c, hc, -, hnot, hlater⟩
      -- It has been stopped in an agent that the end comes of.
      have hbefore := SessionLaw.answer (Machine.registering_confirmed b n) t r a
      rw [after_error hc] at hbefore
      exact hnot ⟨Registry.isSound_of_steps hbefore ha, hlater.trans hend⟩
    unfold serve
    rw [← hsame]
    cases hr : r.answer (.ofDepth n) t a with
    | ok vs c =>
      rw [after_ok hr] at hb
      have hsound := Registry.isSound_of_steps (after_ok hr ▸ registers_answer n r t a) ha
      dsimp only
      rw [ih hsound hb]
    | error i c =>
      cases i with
      | thrown v =>
        rw [after_error hr] at hb
        have hsound := Registry.isSound_of_steps (after_error hr ▸ registers_answer n r t a) ha
        dsimp only
        rw [ih hsound hb]
      | exhausted | broken => rfl

theorem isSound_new (isVerbose : Bool) : (Agent.new isVerbose).registry.IsSound where
  presents h := by cases h
  unique h := by cases h

/-- **Templates are given the same array whenever they are evaluated.**  A session may be compared with
its end throughout: whenever a tagged template is evaluated, the tag is given the array that the realm
keeps for it at the end; and whenever a task begins, the arrays that realms keep are those of the end,
and they are frozen arrays of the same pieces and spellings, which are those of the template since the
array came to be.  Different templates, and templates of different realms, have different arrays. -/
theorem serve_templates (n : Nat) (isVerbose : Bool) (requests : List (Request × Tidying)) :
    let b := Agent.ofRequests n isVerbose requests
    serve (.confirmed b n) requests (.new isVerbose) = serve (.ofDepth n) requests (.new isVerbose) ∧
    (∀ x ∈ serve (.ofDepth n) requests (.new isVerbose), x.isBroken = false) ∧
    (∀ r k o, b.template? r k = some o → ∃ t, t.span.start = k ∧ b.HasPieces o t) ∧
    ∀ r k r' k' o, b.template? r k = some o → b.template? r' k' = some o → r = r' ∧ k = k' := by
  intro b
  have hsound : b.registry.IsSound :=
    Registry.isSound_of_steps (registers_foldl requests _) (isSound_new isVerbose)
  refine ⟨serve_confirmed (isSound_new isVerbose) rfl, ?_, fun r k o ho => ?_, fun r k r' k' o ho ho' => ?_⟩
  · exact (serve_watching n isVerbose Condition.order_holds).2
  · obtain ⟨t, raw, ht, hpresents⟩ := hsound.presents ho
    exact ⟨t, ht, Agent.hasPieces_of_presents hpresents⟩
  · exact hsound.unique ho ho'

end Scriptlet
