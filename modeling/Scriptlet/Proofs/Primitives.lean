import Mathlib.Data.Sum.Basic
import Scriptlet.Evaluation.Statement
import Scriptlet.Proofs.Growth
import Scriptlet.Proofs.Outcomes

/-!
# Related primitives

The primitives of evaluation on corresponding places are related, one lemma for each of them.

## Main definitions

* `Completion.Rel` — corresponding completions.

## Main results

* `Related.object`, `Related.modifyObject`, `Related.changeObject`, `Related.allocate` — objects.
* `Related.raise` — throwing an error.
* `Related.newEnvironment`, `Related.createVariable`, `Related.initializeVariable`,
  `Related.readVariable`, `Related.writeVariable`, `Related.deleteVariable` — environments.
* `Related.realm`, `Related.inEnvironment`, `Related.inContext`, `Roams.setEnvironment` — what is
  being evaluated.
* `Related.iterate`, `Roams.iterate` — **a loop whose rounds are related is related**.
-/

namespace Scriptlet

open Eval

variable {α β γ δ : Type} {φ : RealmId → Filing} {ρ : World} {K : Stack φ} {a b : Agent}

/-! ### Changes of the state -/

/-- An agent that differs from another one in what it records and in what it is doing only. -/
theorem Territory.Spares.of_eq {U : Territory} {a' : Agent} (ho : a'.objects = a.objects)
    (he : a'.environments = a.environments) (hr : a'.realms = a.realms)
    (hm : a'.methods = a.methods) : Territory.Spares U U a a' := by
  have hid : ∀ m, a'.methodId? m = a.methodId? m := by
    intro m
    unfold Agent.methodId?
    rw [hm]
  exact
    { object_mono := id, environment_mono := id, realm_mono := id
      size := Nat.le_of_eq (congrArg Array.size ho.symm)
      method := by
        intro m o h
        rw [hid]
        exact h
      object := by
        intro o x hx _
        rw [ho]
        exact hx
      object_new := .inl
      environment := by
        intro e x hx _
        rw [he]
        exact hx
      environment_new := .inl
      realm := by
        intro r x hx _
        rw [hr]
        exact hx
      realm_new := .inl }

/-- Agents that differ from others in what they record and in what they are doing only. -/
theorem Extends.of_eq {a' b' : Agent} (ho : a'.objects = a.objects ∧ b'.objects = b.objects)
    (he : a'.environments = a.environments ∧ b'.environments = b.environments)
    (hr : a'.realms = a.realms ∧ b'.realms = b.realms)
    (hm : a'.methods = a.methods ∧ b'.methods = b.methods) : Extends ρ a b ρ a' b' :=
  ⟨World.le_refl ρ, .of_eq ho.1 he.1 hr.1 hm.1, .of_eq ho.2 he.2 hr.2 hm.2⟩

/-- Outcomes that are related in a world to which the agents have come. -/
theorem Outcome.after {σ : World} {a' b' : Agent} {good : World → Agent → Agent → α → β → Prop}
    {bad : World → Agent → Agent → Prop} {r : EStateM.Result Interrupt Agent α}
    {r' : EStateM.Result Interrupt Agent β} (ext : Extends ρ a b σ a' b')
    (h : Outcome σ a' b' good bad r r') : Outcome ρ a b good bad r r' := by
  cases h with
  | ok ext' h => exact .ok (ext.trans ext') h
  | thrown ext' hv h => exact .thrown (ext.trans ext') hv h
  | exhausted ext' h => exact .exhausted (ext.trans ext') h

/-- Outcomes that are related after a step on each side. -/
theorem Outcome.step {p : Eval α} {q : Eval β} {f : α → Eval γ} {g : β → Eval δ} {σ : World}
    {a' b' : Agent} {x : α} {y : β} {good : World → Agent → Agent → γ → δ → Prop}
    {bad : World → Agent → Agent → Prop} (hp : p a = .ok x a') (hq : q b = .ok y b')
    (ext : Extends ρ a b σ a' b') (h : Outcome σ a' b' good bad (f x a') (g y b')) :
    Outcome ρ a b good bad ((p >>= f) a) ((q >>= g) b) := by
  rw [bind_ok hp, bind_ok hq]
  exact h.after ext

/-- What a computation does on states is related, so the computations are. -/
theorem Related.of_ok {p : Eval α} {q : Eval β} {R : World → α → β → Prop} {f : Agent → α}
    {g : Agent → β} {f' g' : Agent → Agent} (hp : ∀ a, p a = .ok (f a) (f' a))
    (hq : ∀ b, q b = .ok (g b) (g' b))
    (h : ∀ a b, Agrees ρ K a b → ∃ σ, Extends ρ a b σ (f' a) (g' b) ∧ Agrees σ K (f' a) (g' b) ∧
      R σ (f a) (g b)) : Related ρ K p q R := by
  intro a b hab
  obtain ⟨σ, ext, hagree, hR⟩ := h a b hab
  rw [hp, hq]
  exact .ok ext ⟨hagree, hR⟩

/-! ### Objects -/

theorem Agent.modifyObject_eq {o : ObjectId} (h : o.index < a.objects.size)
    (f : Object → Object) :
    a.modifyObject o f
      = { a with objects := a.objects.setIfInBounds o.index (f (a.object o)) } := by
  unfold Agent.modifyObject
  congr 1
  apply Array.ext_getElem?
  intro i
  rw [Array.getElem?_modify, Array.getElem?_setIfInBounds, Agent.object_eq_getD]
  by_cases hi : o.index = i
  · subst hi
    simp [h]
  · rw [if_neg hi, if_neg hi]

theorem Eval.changeObject_apply {o : ObjectId} (h : o.index < a.objects.size)
    (f : Object → α × Object) (missing : α) :
    changeObject o f missing a
      = .ok (f (a.object o)).1
          { a with objects := a.objects.setIfInBounds o.index (f (a.object o)).2 } := by
  have ho : a.object o = a.objects[o.index] := by
    rw [Agent.object_eq_getD, Array.getElem?_eq_getElem h, Option.getD_some]
  have hset : ∀ x, (a.objects.set o.index .empty h).setIfInBounds o.index x
      = a.objects.setIfInBounds o.index x := by
    intro x
    apply Array.ext_getElem?
    intro i
    simp only [Array.getElem?_setIfInBounds, Array.size_set, Array.getElem?_set]
    split <;> rfl
  obtain ⟨objects, environments, realms, contexts, joining, methods, count, trace, verbose,
    reports⟩ := a
  dsimp only at h ho hset
  rw [changeObject, modifyGet_apply]
  simp only [dif_pos h, takeObject, hset, ← ho]

theorem Eval.changeObject_missing {o : ObjectId} (h : ¬o.index < a.objects.size)
    (f : Object → α × Object) (missing : α) : changeObject o f missing a = .ok missing a := by
  obtain ⟨objects, environments, realms, contexts, joining, methods, count, trace, verbose,
    reports⟩ := a
  rw [changeObject, modifyGet_apply]
  simp only [dif_neg h]

/-- Nothing changes if the object at the place, if there is one, does not. -/
theorem Agent.modifyObject_of_same {a : Agent} {o : ObjectId} {f : Object → Object}
    (h : ∀ x, a.objects[o.index]? = some x → f x = x) : a.modifyObject o f = a := by
  have hsame : a.objects.modify o.index f = a.objects := by
    apply Array.ext_getElem?
    intro i
    rw [Array.getElem?_modify]
    split
    · next hi =>
      subst hi
      cases hx : a.objects[o.index]? with
      | none => rfl
      | some x => rw [Option.map_some, h x hx]
    · rfl
  rw [modifyObject, hsame]

/-- What is left behind does not depend on what is told about the change. -/
theorem Eval.after_changeObject (o : ObjectId) (f : Object → α × Object) (missing : α) (a : Agent) :
    (changeObject o f missing).after a = a.modifyObject o fun x => (f x).2 := by
  by_cases h : o.index < a.objects.size
  · rw [after_ok (changeObject_apply h f missing), Agent.modifyObject_eq h]
  · rw [Agent.modifyObject_of_same fun x hx => absurd (Array.getElem?_eq_some_iff.mp hx).1 h]
    exact after_ok (changeObject_missing h f missing)

namespace Related

theorem object {o p : ObjectId} (h : ρ.object o p) :
    Related ρ K (Eval.object o) (Eval.object p) fun σ x y => Object.Rel σ x y :=
  get fun _ _ hab => pure (hab.object_rel h)

/-- Changing corresponding objects alike. -/
theorem modifyObject {o p : ObjectId} (h : ρ.object o p) {f g : Object → Object}
    (hfg : ∀ {x y}, Object.Rel ρ x y → Object.Rel ρ (f x) (g y))
    (hf : ∀ x, (f x).isFunction = x.isFunction) :
    Related ρ K (Eval.modifyObject o f) (Eval.modifyObject p g) fun _ _ _ => True := by
  refine of_ok (fun _ => rfl) (fun _ => rfl) fun a b hab => ⟨ρ, ?_⟩
  rw [Agent.modifyObject_eq (hab.lt_left h), Agent.modifyObject_eq (hab.lt_right h)]
  exact ⟨hab.extends_setObject h _ _,
    hab.setObject h (hfg (hab.object_rel h)) (hf _), trivial⟩

/-- Changing corresponding objects alike, with corresponding outcomes. -/
theorem changeObject {o p : ObjectId} (h : ρ.object o p) {f : Object → α × Object}
    {g : Object → β × Object} {missing : α} {missing' : β} {R : World → α → β → Prop}
    (hfg : ∀ {x y}, Object.Rel ρ x y → R ρ (f x).1 (g y).1 ∧ Object.Rel ρ (f x).2 (g y).2)
    (hf : ∀ x, (f x).2.isFunction = x.isFunction) :
    Related ρ K (Eval.changeObject o f missing) (Eval.changeObject p g missing') R := by
  intro a b hab
  obtain ⟨hR, hxy⟩ := hfg (hab.object_rel h)
  rw [Eval.changeObject_apply (hab.lt_left h), Eval.changeObject_apply (hab.lt_right h)]
  exact .ok (hab.extends_setObject h _ _) ⟨hab.setObject h hxy (hf _), hR⟩

theorem allocate {x y : Object} (h : Object.Rel ρ x y) :
    Related ρ K (Eval.allocate x) (Eval.allocate y) fun σ o p => σ.object o p :=
  fun _ _ hab => .ok (hab.extends_pushObject x y) ⟨hab.pushObject h, hab.object_pushedWorld⟩

theorem allocateArray {e e' : Elements Value} (h : Elements.Rel ρ.value e e') :
    Related ρ K (Eval.allocateArray e) (Eval.allocateArray e') fun σ o p => σ.object o p := by
  unfold Eval.allocateArray
  rw [h.length_eq]
  split
  · exact exhausted
  · exact allocate (.ofKind (.array h))

theorem arrayOf {vs ws : List Value} (h : ρ.values vs ws) :
    Related ρ K (Eval.arrayOf vs) (Eval.arrayOf ws) fun σ v w => σ.value v w :=
  (allocateArray (.ofList h)).bind fun _ hop => pure (.object hop)

theorem emptyObject : Related ρ K Eval.emptyObject Eval.emptyObject fun σ o p => σ.object o p :=
  allocate .empty

theorem errorObject (kind : ErrorKind) (message : Option Text) :
    Related ρ K (Eval.errorObject kind message) (Eval.errorObject kind message)
      fun σ o p => σ.object o p := by
  refine allocate (.withProperties (.ofKind (.error kind)) ?_)
  cases message with
  | none => exact .nil
  | some t => exact .cons (Object.Rel.hidden _ (.text t)) .nil

/-- Throwing an error. -/
theorem raise {R : World → α → β → Prop} (kind : ErrorKind) (message : String) :
    Related ρ K (Eval.raise kind message) (Eval.raise kind message) R :=
  (errorObject kind _).bind fun _ hop => throw (.object hop)

end Related

/-! ### What is being evaluated -/

namespace Related

variable {c : Context × Context}

theorem context_rel (hab : Agrees ρ (K.push c) a b) : Context.Rel ρ c.1 c.2 :=
  hab.contexts c List.mem_cons_self

/-- The innermost context is on top of the stack. -/
theorem context :
    Related ρ (K.push c) Eval.context Eval.context
      fun σ x y => (x = c.1 ∧ y = c.2) ∧ Context.Rel σ c.1 c.2 := by
  refine get fun a b hab => ?_
  rw [hab.contexts_left, hab.contexts_right]
  exact pure ⟨⟨rfl, rfl⟩, context_rel hab⟩

theorem environment :
    Related ρ (K.push c) Eval.environment Eval.environment
      fun σ e f => (e = c.1.environment ∧ f = c.2.environment) ∧ σ.environment e f := by
  refine context.bind fun _ h => pure ?_
  obtain ⟨⟨rfl, rfl⟩, hc⟩ := h
  exact ⟨⟨rfl, rfl⟩, hc.environment⟩

theorem realmAt {r s : RealmId} (h : ρ.realm r s) :
    Related ρ K (Eval.realmAt r) (Eval.realmAt s) fun σ x y => Realm.Rel σ r x y := by
  refine get fun a b hab => ?_
  obtain ⟨x, y, hx, hy, hxy⟩ := hab.realm h
  rw [hx, hy]
  exact pure hxy

/-- The realm of the code that is being evaluated. -/
theorem realm :
    Related ρ (K.push c) Eval.realm Eval.realm fun σ x y => Realm.Rel σ c.1.realm x y := by
  refine context.bind fun _ h => ?_
  obtain ⟨⟨rfl, rfl⟩, hc⟩ := h
  exact realmAt hc.realm

/-- A scope that the analysis has noted is known to the realm. -/
theorem scopeAt {place : Span} {s : Scope}
    (h : (ρ.filing c.1.realm).Covers [.scope place s]) :
    Related ρ (K.push c) (Eval.scopeAt place s) (Eval.scopeAt place s)
      fun _ x y => x = s ∧ y = s := by
  refine realm.bind fun hle hxy => ?_
  rw [Filing.covers_scope, ← hle.filing, ← hxy.filed] at h
  have hmem : place ∈ _ := hxy.entered place s h
  rw [if_pos (by simpa using hmem), if_pos (by rw [← hxy.scopes]; simpa using hmem)]
  exact pure ⟨rfl, rfl⟩

/-- What is recorded and reported does not correspond. -/
theorem recorded (hab : Agrees ρ K a b) (ts us : List Event) (ps qs : List Report) :
    ∃ σ, Extends ρ a b σ { a with trace := ts, reports := ps } { b with trace := us, reports := qs }
      ∧ Agrees σ K { a with trace := ts, reports := ps } { b with trace := us, reports := qs }
      ∧ True :=
  ⟨ρ, .of_eq ⟨rfl, rfl⟩ ⟨rfl, rfl⟩ ⟨rfl, rfl⟩ ⟨rfl, rfl⟩, { hab with }, trivial⟩

theorem recordIn {r s : RealmId} (h : ρ.realm r s) (e : Event) :
    Related ρ K (Eval.recordIn r e) (Eval.recordIn s e) fun _ _ _ => True := by
  refine (realmAt h).bind fun {σ x y} _ _ => ?_
  have hstep : ∀ (x : Realm) (a : Agent),
      (if x.isTraced then modify fun a => { a with trace := e :: a.trace } else Pure.pure () :
        Eval Unit) a
        = .ok () { a with trace := if x.isTraced then e :: a.trace else a.trace } := by
    intro x a
    split <;> rfl
  exact of_ok (hstep x) (hstep y) fun a b hab => recorded hab _ _ a.reports b.reports

theorem record (e : Event) :
    Related ρ (K.push c) (Eval.record e) (Eval.record e) fun _ _ _ => True := by
  refine context.bind fun _ h => ?_
  obtain ⟨⟨rfl, rfl⟩, hc⟩ := h
  exact recordIn hc.realm e

theorem report (r r' : Report) :
    Related ρ K (Eval.report r) (Eval.report r') fun _ _ _ => True := by
  have hstep : ∀ (r : Report) (a : Agent),
      Eval.report r a = .ok () { a with reports := if a.isVerbose then r :: a.reports else a.reports } := by
    intro r a
    change EStateM.Result.ok () (if a.isVerbose then _ else _) = _
    split <;> rfl
  exact of_ok (hstep r) (hstep r') fun a b hab => recorded hab a.trace b.trace _ _

theorem sourceText (place : Span) :
    Related ρ (K.push c) (Eval.sourceText place) (Eval.sourceText place) fun _ x y => x = y :=
  realm.bind fun _ hxy => pure (by rw [hxy.source])

/-- Throwing the error for syntax that has no meaning. -/
theorem unsupported {R : World → α → β → Prop} (kind : String) (place : Span) :
    Related ρ (K.push c) (Eval.unsupported kind place) (Eval.unsupported kind place) R := by
  refine realm.bind fun _ hxy => ?_
  rw [hxy.source]
  exact raise _ _

end Related

/-! ### Contexts -/

section Contexts

variable {c : Context × Context} {p : Eval α} {q : Eval β}

/-- What the innermost contexts are can be changed to others that correspond. -/
theorem Agrees.replaceContexts (hab : Agrees ρ K a b) {L : Stack φ} (hj : L.joining = K.joining)
    (hr : L.realms = K.realms) (hc : ∀ d ∈ L.contexts, Context.Rel ρ d.1 d.2) :
    Agrees ρ L { a with contexts := L.contexts.map Prod.fst }
      { b with contexts := L.contexts.map Prod.snd } :=
  { hab with
    contexts_left := rfl
    contexts_right := rfl
    contexts := hc
    joining_left := by rw [hj]; exact hab.joining_left
    joining_right := by rw [hj]; exact hab.joining_right
    joining := by rw [hj]; exact hab.joining
    realms_size := by rw [hr]; exact hab.realms_size }

/-- The innermost contexts get other environments that correspond. -/
theorem Agrees.move (hab : Agrees ρ (K.push c) a b) {e f : EnvironmentId}
    (hef : ρ.environment e f) :
    Agrees ρ (K.push (moved c e f)) { a with contexts := (moved c e f).1 :: K.contexts.map Prod.fst }
      { b with contexts := (moved c e f).2 :: K.contexts.map Prod.snd } := by
  refine hab.replaceContexts (L := K.push (moved c e f)) rfl rfl ?_
  rintro d (_ | ⟨_, hd⟩)
  · exact ⟨(Related.context_rel hab).realm, hef⟩
  · exact hab.contexts d (List.mem_cons_of_mem _ hd)

theorem Eval.setEnvironment_apply {d : Context} {rest : List Context}
    (h : a.contexts = d :: rest) (e : EnvironmentId) :
    Eval.setEnvironment e a = .ok () { a with contexts := { d with environment := e } :: rest } := by
  obtain ⟨objects, environments, realms, contexts, joining, methods, count, trace, verbose,
    reports⟩ := a
  dsimp only at h
  subst h
  rfl

theorem Roams.setEnvironment {e f : EnvironmentId} (hef : ρ.environment e f) :
    Roams ρ c K (Eval.setEnvironment e) (Eval.setEnvironment f)
      fun _ e' f' _ _ => e' = e ∧ f' = f := by
  intro a b hab
  rw [setEnvironment_apply hab.contexts_left, setEnvironment_apply hab.contexts_right]
  exact .ok (.of_eq ⟨rfl, rfl⟩ ⟨rfl, rfl⟩ ⟨rfl, rfl⟩ ⟨rfl, rfl⟩)
    ⟨e, f, hab.move hef, rfl, rfl⟩

/-- Computations with something after each of them, whatever comes of them. -/
theorem Outcome.ending {after after' : Agent → Agent}
    {good good' : World → Agent → Agent → α → β → Prop} {bad bad' : World → Agent → Agent → Prop}
    (h : Outcome ρ a b good bad (p a) (q b))
    (hgood : ∀ {σ a' b' x y}, ρ ≤ σ → good σ a' b' x y →
      Extends σ a' b' σ (after a') (after' b') ∧ good' σ (after a') (after' b') x y)
    (hbad : ∀ {σ a' b'}, ρ ≤ σ → bad σ a' b' →
      Extends σ a' b' σ (after a') (after' b') ∧ bad' σ (after a') (after' b')) :
    Outcome ρ a b good' bad' (Eval.ending p after a) (Eval.ending q after' b) := by
  unfold Eval.ending
  generalize p a = r, q b = r' at h
  cases h with
  | ok ext h => exact .ok (ext.trans (hgood ext.le h).1) (hgood ext.le h).2
  | thrown ext hv h => exact .thrown (ext.trans (hbad ext.le h).1) hv (hbad ext.le h).2
  | exhausted ext h => exact .exhausted (ext.trans (hbad ext.le h).1) (hbad ext.le h).2

/-- The innermost contexts get back the environments that they had. -/
theorem Agrees.goBack {e f : EnvironmentId} (hc : ρ.environment c.1.environment c.2.environment)
    (hab : Agrees ρ (K.push (moved c e f)) a b) :
    Extends ρ a b ρ (withEnvironmentOf c.1.environment a) (withEnvironmentOf c.2.environment b) ∧
      Agrees ρ (K.push c) (withEnvironmentOf c.1.environment a)
        (withEnvironmentOf c.2.environment b) := by
  have hleft : withEnvironmentOf c.1.environment a
      = { a with contexts := c.1 :: K.contexts.map Prod.fst } := by
    simp only [withEnvironmentOf, hab.contexts_left]
    rfl
  have hright : withEnvironmentOf c.2.environment b
      = { b with contexts := c.2 :: K.contexts.map Prod.snd } := by
    simp only [withEnvironmentOf, hab.contexts_right]
    rfl
  rw [hleft, hright]
  exact ⟨.of_eq ⟨rfl, rfl⟩ ⟨rfl, rfl⟩ ⟨rfl, rfl⟩ ⟨rfl, rfl⟩, hab.move hc⟩

/-- **Computations that roam from corresponding environments come back to where they are run
from.** -/
theorem Related.inEnvironment {e f : EnvironmentId} (hef : ρ.environment e f)
    {R : World → α → β → Prop}
    (h : ∀ {σ}, ρ ≤ σ → Roams σ (moved c e f) K p q fun σ _ _ x y => R σ x y) :
    Related ρ (K.push c) (Eval.inEnvironment e p) (Eval.inEnvironment f q) R := by
  refine environment.bind fun {σ x y} hle hxy a b hab => ?_
  obtain ⟨⟨rfl, rfl⟩, hc⟩ := hxy
  refine .step (setEnvironment_apply hab.contexts_left e)
    (setEnvironment_apply hab.contexts_right f)
    (.of_eq ⟨rfl, rfl⟩ ⟨rfl, rfl⟩ ⟨rfl, rfl⟩ ⟨rfl, rfl⟩) (.ending (h hle _ _ ?_) ?_ ?_)
  · exact hab.move (hle.environment hef)
  · rintro τ a' b' x y hle' ⟨e', f', hagree, hR⟩
    obtain ⟨ext, hback⟩ := hagree.goBack (hle'.environment hc)
    exact ⟨ext, hback, hR⟩
  · rintro τ a' b' hle' ⟨e', f', hagree⟩
    exact hagree.goBack (hle'.environment hc)

/-- Something else is evaluated in corresponding contexts. -/
theorem Agrees.push (hab : Agrees ρ K a b) (hc : Context.Rel ρ c.1 c.2) :
    Agrees ρ (K.push c) { a with contexts := c.1 :: a.contexts }
      { b with contexts := c.2 :: b.contexts } := by
  rw [hab.contexts_left, hab.contexts_right]
  refine hab.replaceContexts (L := K.push c) rfl rfl ?_
  rintro d (_ | ⟨_, hd⟩)
  · exact hc
  · exact hab.contexts d hd

/-- **Computations that roam in contexts of their own are related.** -/
theorem Related.inContext (hc : Context.Rel ρ c.1 c.2) {R : World → α → β → Prop}
    (h : Roams ρ c K p q fun σ _ _ x y => R σ x y) :
    Related ρ K (Eval.inContext c.1 p) (Eval.inContext c.2 q) R := by
  intro a b hab
  have hpush := hab.push hc
  have hpop : ∀ {σ a b c'}, Agrees σ (K.push c') a b →
      Extends σ a b σ { a with contexts := a.contexts.tail } { b with contexts := b.contexts.tail } ∧
        Agrees σ K { a with contexts := a.contexts.tail }
          { b with contexts := b.contexts.tail } := by
    intro σ a b c' hab
    refine ⟨.of_eq ⟨rfl, rfl⟩ ⟨rfl, rfl⟩ ⟨rfl, rfl⟩ ⟨rfl, rfl⟩, ?_⟩
    rw [hab.contexts_left, hab.contexts_right]
    exact hab.replaceContexts (L := K) rfl rfl fun d hd =>
      hab.contexts d (List.mem_cons_of_mem _ hd)
  refine .step rfl rfl (.of_eq ⟨rfl, rfl⟩ ⟨rfl, rfl⟩ ⟨rfl, rfl⟩ ⟨rfl, rfl⟩)
    (.ending (h _ _ hpush) ?_ ?_)
  · rintro τ a' b' x y - ⟨e', f', hagree, hR⟩
    exact ⟨(hpop hagree).1, (hpop hagree).2, hR⟩
  · rintro τ a' b' - ⟨e', f', hagree⟩
    exact hpop hagree

end Contexts

/-! ### Environments -/

section Environments

variable {e f : EnvironmentId} {name : String} {x y : Environment}

theorem Eval.updateEnvironment_apply (h : a.environments.get? e = some x)
    (g : Environment → Environment) :
    Eval.updateEnvironment e g a
      = .ok () { a with environments := a.environments.set e (g x) } :=
  bind_ok (environmentAt_apply h)

namespace Related

/-- **Environments made on both sides correspond**; the first one may have the given names. -/
theorem newEnvironment {o o' : Option EnvironmentId} (h : Option.Rel ρ.environment o o')
    (allows : String → Prop) :
    Related ρ K (Eval.newEnvironment o) (Eval.newEnvironment o')
      fun σ e f => σ.environment e f ∧ (σ.plan e).outer = o ∧ (σ.plan e).allows = allows := by
  have hdepth : ∃ d, ∀ i, o = some i → (ρ.plan i).depth < d := by
    cases o with
    | none => exact ⟨0, by simp⟩
    | some i => exact ⟨(ρ.plan i).depth + 1, by rintro _ ⟨⟩; exact Nat.lt_succ_self _⟩
  obtain ⟨d, hd⟩ := hdepth
  refine of_ok (fun _ => rfl) (fun _ => rfl) fun a b hab => ?_
  refine ⟨_, hab.extends_allocateEnvironment _ _ ⟨o, d, allows⟩,
    hab.allocateEnvironment h ⟨o, d, allows⟩ rfl hd, .inr ⟨rfl, rfl⟩, ?_, ?_⟩
  · exact congrArg Plan.outer (if_pos rfl)
  · exact congrArg Plan.allows (if_pos rfl)

theorem environmentAt (h : ρ.environment e f) :
    Related ρ K (Eval.environmentAt e) (Eval.environmentAt f)
      fun σ x y => Environment.Rel σ e x y := by
  intro a b hab
  obtain ⟨x, y, hx, hy, hxy⟩ := hab.environments.record h
  rw [environmentAt_apply hx, environmentAt_apply hy]
  exact .ok (.refl ρ a b) ⟨hab, hxy⟩

/-- What is found out about the names of an environment stays known. -/
theorem extends_noteBound (ρ : World) (e : EnvironmentId) (name : String) :
    Extends ρ a b (ρ.withBound e name) a b :=
  ⟨World.le_withBound e name, .of_eq rfl rfl rfl rfl, .of_eq rfl rfl rfl rfl⟩

theorem hasVariable (h : ρ.environment e f) (name : String) :
    Related ρ K (Eval.hasVariable e name) (Eval.hasVariable f name)
      fun σ x y => x = y ∧ (x = true → σ.isBound e name) := by
  intro a b hab
  obtain ⟨x, y, hx, hy, hxy⟩ := hab.environments.record h
  have hleft : Eval.hasVariable e name a = .ok (x.has name) a := bind_ok (environmentAt_apply hx)
  have hright : Eval.hasVariable f name b = .ok (y.has name) b := bind_ok (environmentAt_apply hy)
  rw [hleft, hright, ← hxy.has name]
  cases hn : x.has name with
  | false => exact .ok (.refl ρ a b) ⟨hab, rfl, by simp⟩
  | true => exact .ok (extends_noteBound ρ e name) ⟨hab.noteBound hx hn, rfl, fun _ => .inr ⟨rfl, rfl⟩⟩

theorem updateEnvironment (h : ρ.environment e f) {g g' : Environment → Environment}
    (hg : ∀ {x y}, Environment.Rel ρ e x y → Environment.Rel ρ e (g x) (g' y)) :
    Related ρ K (Eval.updateEnvironment e g) (Eval.updateEnvironment f g') fun _ _ _ => True := by
  intro a b hab
  obtain ⟨x, y, hx, hy, hxy⟩ := hab.environments.record h
  rw [updateEnvironment_apply hx, updateEnvironment_apply hy]
  exact .ok (Agrees.extends_setEnvironment h _ _) ⟨hab.setEnvironment h (hg hxy), trivial⟩

/-- A variable that an environment may have is created; it is there afterwards. -/
theorem createVariable (h : ρ.environment e f) (hn : (ρ.plan e).allows name) {u v : Variable}
    (huv : Variable.Rel ρ u v) :
    Related ρ K (Eval.createVariable e name u) (Eval.createVariable f name v)
      fun σ _ _ => σ.isBound e name := by
  intro a b hab
  obtain ⟨x, y, hx, hy, hxy⟩ := hab.environments.record h
  have hset := hab.setEnvironment h (hxy.insert hn huv)
  have hget := Environments.get?_set_self hx (x.insert name u)
  have hhas := (Environment.has_insert x name name u).mpr (.inl rfl)
  unfold Eval.createVariable
  rw [updateEnvironment_apply hx, updateEnvironment_apply hy]
  exact .ok ((Agrees.extends_setEnvironment h _ _).trans (extends_noteBound ρ e name))
    ⟨hset.noteBound hget hhas, .inr ⟨rfl, rfl⟩⟩

theorem initializeVariable (h : ρ.environment e f) (hb : ρ.isBound e name) {v w : Value}
    (hv : ρ.value v w) :
    Related ρ K (Eval.initializeVariable e name v) (Eval.initializeVariable f name w)
      fun _ _ _ => True := by
  intro a b hab
  obtain ⟨x, y, hx, hy, hxy⟩ := hab.environments.record h
  obtain ⟨u, u', hu, hu', huu⟩ := hxy.isSome_find? hb
  refine .step (environmentAt_apply hx) (environmentAt_apply hy) (.refl ρ a b) ?_
  rw [hu, hu']
  refine updateEnvironment h (fun hxy => hxy.insert ?_ ?_) a b hab
  · exact hxy.allowed name (hxy.bound name hb)
  · exact ⟨.some hv, huu.isStrict, huu.isMutable, huu.isDeletable⟩

theorem readVariable (h : ρ.environment e f) (name : String) :
    Related ρ K (Eval.readVariable e name) (Eval.readVariable f name)
      fun σ v w => σ.value v w := by
  refine (environmentAt h).bind fun _ hxy => ?_
  obtain ⟨hx, hy⟩ | ⟨u, v, hx, hy, huv⟩ := Option.rel_cases (hxy.find? name)
  · rw [hx, hy]
    exact raise _ _
  · rw [hx, hy, Option.bind_some, Option.bind_some]
    obtain ⟨hu, hv⟩ | ⟨_, _, hu, hv, hvw⟩ := Option.rel_cases huv.value
    · rw [hu, hv]
      exact raise _ _
    · rw [hu, hv]
      exact pure hvw

/-- Assigning to a variable; where one would be created, it has to be there. -/
theorem writeVariable (h : ρ.environment e f) {v w : Value} (hv : ρ.value v w) {isStrict : Bool}
    (hb : isStrict = true ∨ ρ.isBound e name) :
    Related ρ K (Eval.writeVariable e name v isStrict) (Eval.writeVariable f name w isStrict)
      fun _ _ _ => True := by
  refine (environmentAt h).bind fun hle hxy => ?_
  obtain ⟨hx, hy⟩ | ⟨u, u', hx, hy, huu⟩ := Option.rel_cases (hxy.find? name)
  · rw [hx, hy]
    rcases hb with rfl | hb
    · exact raise _ _
    · obtain ⟨u, -, hu, -⟩ := hxy.isSome_find? (hle.isBound ⟨f, h⟩ hb)
      rw [hx] at hu
      cases hu
  · rw [hx, hy]
    dsimp only
    rw [World.value?.isNone_eq huu.value, huu.isMutable, huu.isStrict]
    split
    · exact raise _ _
    split
    · refine updateEnvironment (hle.environment h) fun hxy' => hxy'.insert ?_ ?_
      · exact hxy.allowed name (by rw [Environment.has, hx]; rfl)
      · exact ⟨.some (hv.mono hle), rfl, rfl, huu.isDeletable⟩
    split
    · exact raise _ _
    · exact pure trivial

theorem deleteVariable (h : ρ.environment e f) (name : String) :
    Related ρ K (Eval.deleteVariable e name) (Eval.deleteVariable f name)
      fun _ x y => x = y := by
  refine (environmentAt h).bind fun _ hxy => ?_
  obtain ⟨hx, hy⟩ | ⟨u, v, hx, hy, huv⟩ := Option.rel_cases (hxy.find? name)
  · rw [hx, hy]
    exact pure rfl
  · rw [hx, hy]
    dsimp only
    rw [huv.isDeletable.1, huv.isDeletable.2]
    exact pure rfl

end Related

end Environments

/-! ### Loops, handlers and what follows -/

/-- **A loop whose rounds are related is related.** -/
theorem Related.iterate {τ τ' : Type} {I : World → τ → τ' → Prop} {R : World → α → β → Prop}
    {p : τ → Eval (Sum τ α)} {q : τ' → Eval (Sum τ' β)}
    (h : ∀ {σ s t}, ρ ≤ σ → I σ s t →
      Related σ K (p s) (q t) fun υ r r' => Sum.LiftRel (I υ) (R υ) r r')
    (n : Nat) {s : τ} {t : τ'} (hI : I ρ s t) :
    Related ρ K (Eval.iterate p n s) (Eval.iterate q n t) R := by
  induction n generalizing ρ s t with
  | zero => exact exhausted
  | succ n ih =>
    intro a b hab
    have hround := h (World.le_refl ρ) hI a b hab
    unfold Eval.iterate
    generalize p s a = r, q t b = r' at hround
    cases hround with
    | ok ext hgood =>
      obtain ⟨hagree, hr⟩ := hgood
      cases hr with
      | inl hI => exact (ih (fun hle => h (World.le_trans ext.le hle)) hI _ _ hagree).after ext
      | inr hR => exact .ok ext ⟨hagree, hR⟩
    | thrown ext hv hagree => exact .thrown ext hv hagree
    | exhausted ext hagree => exact .exhausted ext hagree

/-- **A loop whose rounds roam, each from where the last one has come to, roams.** -/
theorem Roams.iterate {c : Context × Context} {τ τ' : Type}
    {I : World → EnvironmentId → EnvironmentId → τ → τ' → Prop} {R : World → α → β → Prop}
    {p : τ → Eval (Sum τ α)} {q : τ' → Eval (Sum τ' β)}
    (h : ∀ {σ e f s t}, ρ ≤ σ → I σ e f s t →
      Roams σ (moved c e f) K (p s) (q t) fun υ e f r r' => Sum.LiftRel (I υ e f) (R υ) r r')
    (n : Nat) {e f : EnvironmentId} {s : τ} {t : τ'} (hI : I ρ e f s t) :
    Roams ρ (moved c e f) K (Eval.iterate p n s) (Eval.iterate q n t)
      fun σ _ _ x y => R σ x y := by
  induction n generalizing ρ e f s t with
  | zero => exact fun a b hab => .exhausted (.refl ρ a b) ⟨e, f, hab⟩
  | succ n ih =>
    intro a b hab
    have hround := h (World.le_refl ρ) hI a b hab
    unfold Eval.iterate
    generalize p s a = r, q t b = r' at hround
    cases hround with
    | ok ext hgood =>
      obtain ⟨e', f', hagree, hr⟩ := hgood
      cases hr with
      | inl hI => exact (ih (fun hle => h (World.le_trans ext.le hle)) hI _ _ hagree).after ext
      | inr hR => exact .ok ext ⟨e', f', hagree, hR⟩
    | thrown ext hv hbad => exact .thrown ext hv hbad
    | exhausted ext hbad => exact .exhausted ext hbad

/-- Computations whose handlers are related for corresponding thrown values. -/
theorem Related.catching {p : Eval α} {q : Eval β} {f : Value → Eval α} {g : Value → Eval β}
    {R : World → α → β → Prop} (h : Related ρ K p q R)
    (hfg : ∀ {σ v w}, ρ ≤ σ → σ.value v w → Related σ K (f v) (g w) R) :
    Related ρ K (Eval.catching p f) (Eval.catching q g) R := by
  intro a b hab
  have hpq := h a b hab
  unfold Eval.catching
  generalize p a = r, q b = r' at hpq
  cases hpq with
  | ok ext hgood => exact .ok ext hgood
  | thrown ext hv hagree => exact (hfg ext.le hv _ _ hagree).after ext
  | exhausted ext hagree => exact .exhausted ext hagree

/-- Corresponding completions. -/
structure Completion.Rel (ρ : World) (c d : Completion) : Prop where
  kind : c.kind = d.kind
  value : ρ.value? c.value d.value

theorem Completion.Rel.mono {σ : World} (h : ρ ≤ σ) {c d : Completion} (hc : Rel ρ c d) :
    Rel σ c d :=
  ⟨hc.kind, World.value?.mono h hc.value⟩

theorem Completion.Rel.isAbrupt {c d : Completion} (h : Rel ρ c d) : c.isAbrupt = d.isAbrupt := by
  unfold Completion.isAbrupt
  rw [h.kind]

/-- Computations with related ones that follow them, also when a value is thrown. -/
theorem Related.followedBy {p q p' q' : Eval Completion}
    (h : Related ρ K p q fun σ c d => Completion.Rel σ c d)
    (h' : ∀ {σ}, ρ ≤ σ → Related σ K p' q' fun σ c d => Completion.Rel σ c d) :
    Related ρ K (Eval.followedBy p p') (Eval.followedBy q q')
      fun σ c d => Completion.Rel σ c d := by
  intro a b hab
  have hpq := h a b hab
  unfold Eval.followedBy
  generalize p a = r, q b = r' at hpq
  cases hpq with
  | ok ext hgood =>
    dsimp only
    have hlast := h' ext.le _ _ hgood.1
    -- What the last part does to an abrupt end overrides the first one's, as `finally` does.
    generalize p' _ = s, q' _ = s' at hlast ⊢
    cases hlast with
    | ok ext' hgood' =>
      dsimp only
      rw [hgood'.2.isAbrupt]
      refine .ok (ext.trans ext') ⟨hgood'.1, ?_⟩
      split
      · exact hgood'.2
      · exact hgood.2.mono ext'.le
    | thrown ext' hv hagree => exact .thrown (ext.trans ext') hv hagree
    | exhausted ext' hagree => exact .exhausted (ext.trans ext') hagree
  | thrown ext hv hagree =>
    dsimp only
    have hlast := h' ext.le _ _ hagree
    generalize p' _ = s, q' _ = s' at hlast ⊢
    cases hlast with
    | ok ext' hgood' =>
      dsimp only
      rw [hgood'.2.isAbrupt]
      split
      · exact .ok (ext.trans ext') hgood'
      · exact .thrown (ext.trans ext') (hv.mono ext'.le) hgood'.1
    | thrown ext' hv' hagree' => exact .thrown (ext.trans ext') hv' hagree'
    | exhausted ext' hagree' => exact .exhausted (ext.trans ext') hagree'
  | exhausted ext hagree => exact .exhausted ext hagree

end Scriptlet
