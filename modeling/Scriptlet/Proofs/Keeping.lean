import Scriptlet.Proofs.Templates

/-!
# Environments that are kept

In a root that is an expression, no name is assigned to: evaluation refuses assignments there, and only
they change an environment that is not new.  A call makes an environment of its own, and fills it before
its body is evaluated.

What is to be kept is taken down beforehand.  That an agent has kept it is an invariant then, and not a
relation to an agent before; an environment that has not been taken down may be changed.

## Main definitions

* `Agent.HasKept` — the agent has kept environments, and evaluates a root that is an expression.
* `Keeps` — computations by which agents keep environments.
* `sheltering` — the law of such computations.

## Main results

* `Keeps.fills`, `Keeps.opens` — new environments may be filled.
* `Keeps.inContext` — what is evaluated in a new environment keeps the others.
-/

namespace Scriptlet

open Eval Relation

/-! ### Realms of expressions -/

/-- The realm is that of a root that is an expression. -/
def Agent.IsExpressionRealm (a : Agent) (r : RealmId) : Prop :=
  ∃ x, a.realms[r.index]? = some x ∧ x.isExpressionOnly = true

/-- A realm stays with its root. -/
theorem Registry.Step.isExpressionOnly {s s' : Registry} (h : s.Step s') {i : Nat}
    (hi : ∃ x, s.realms[i]? = some x ∧ x.isExpressionOnly = true) :
    ∃ x, s'.realms[i]? = some x ∧ x.isExpressionOnly = true := by
  obtain ⟨x, hx, hexpression⟩ := hi
  cases h with
  | objects => exact ⟨x, hx, hexpression⟩
  | realm =>
    obtain ⟨hlt, -⟩ := Array.getElem?_eq_some_iff.mp hx
    exact ⟨x, by rw [Array.getElem?_push, if_neg (Nat.ne_of_lt hlt), hx], hexpression⟩
  | @template r t hr =>
    unfold withTemplate
    dsimp only
    rw [Array.getElem?_modify, hx]
    split
    · exact ⟨x.withTemplate t.span.start ⟨s.objects.size⟩, rfl, hexpression⟩
    · exact ⟨x, rfl, hexpression⟩

/-- A realm of an expression stays one. -/
theorem Agent.Registers.isExpressionRealm {a b : Agent} {r : RealmId} (h : a.Registers b)
    (hr : a.IsExpressionRealm r) : b.IsExpressionRealm r := by
  have hsteps : ∀ {s s' : Registry}, ReflTransGen Registry.Step s s' →
      (∃ x, s.realms[r.index]? = some x ∧ x.isExpressionOnly = true) →
      ∃ x, s'.realms[r.index]? = some x ∧ x.isExpressionOnly = true := by
    intro s s' h hs
    induction h with
    | refl => exact hs
    | tail _ hstep ih => exact hstep.isExpressionOnly ih
  exact hsteps h hr

/-! ### What is kept -/

/-- No variable may be deleted. -/
def Environments.IsLasting (s : Environments) : Prop :=
  ∀ e x name v, s.get? e = some x → x.find? name = some v → v.isDeletable = false

/-- The agent has kept the environments, and what it evaluates is in a root that is an expression. -/
structure Agent.HasKept (a : Agent) (s : Environments) : Prop where
  tidy : a.environments.IsTidy
  records : ∀ e x, s.get? e = some x → a.environments.get? e = some x
  here : ∀ c ∈ a.contexts.head?, a.IsExpressionRealm c.realm

namespace Agent.HasKept

variable {a b : Agent} {s : Environments} {e : EnvironmentId} {x : Environment}

/-- What is kept depends on the environments, the realms and the contexts only. -/
theorem of_same (h : a.HasKept s) (henvironments : b.environments = a.environments)
    (hrealms : a.Registers b) (hcontexts : b.contexts = a.contexts) : b.HasKept s where
  tidy := henvironments ▸ h.tidy
  records := henvironments ▸ h.records
  here c hc := hrealms.isExpressionRealm (h.here c (hcontexts ▸ hc))

/-- A new environment may be changed. -/
theorem set (h : a.HasKept s) (he : s.get? e = none) (hx : a.environments.get? e = some x)
    (y : Environment) : HasKept { a with environments := a.environments.set e y } s where
  tidy := Environments.isTidy_set h.tidy hx y
  records i z hz := by
    have hi : i ≠ e := by
      rintro rfl
      cases he.symm.trans hz
    dsimp only
    rw [Environments.get?_set_of_ne hi]
    exact h.records i z hz
  here := h.here

/-- An environment that is made is a new one. -/
theorem get?_allocate (h : a.HasKept s) (y : Environment) :
    s.get? (a.environments.allocate y).1 = none := by
  refine Option.eq_none_iff_forall_ne_some.mpr fun z hz => ?_
  have hthere := h.records _ z hz
  rw [Environments.vacant_allocate h.tidy] at hthere
  cases hthere

/-- A new record takes no place that is kept. -/
theorem allocate (h : a.HasKept s) (y : Environment) :
    HasKept { a with environments := (a.environments.allocate y).2 } s where
  tidy := Environments.isTidy_allocate h.tidy y
  records i z hz := by
    have hi : i ≠ (a.environments.allocate y).1 := by
      rintro rfl
      cases (h.get?_allocate y).symm.trans hz
    dsimp only
    rw [Environments.get?_allocate_of_ne _ hi]
    exact h.records i z hz
  here := h.here

end Agent.HasKept

/-! ### Computations that leave environments -/

/-- The computation leaves environments as they are. -/
abbrev Still {α : Type} (p : Eval α) : Prop := Leads (fun a b => b.environments = a.environments) p

namespace Still

variable {α β : Type} {p : Eval α} {f : α → Eval β}

/-- One task after another leaves the environments where each of them does. -/
theorem bind (h : Still p) (hf : ∀ x, Still (f x)) : Still (p >>= f) :=
  h.seq (fun h h' => h'.trans h) hf

/-- Whether an array is frozen is only looked up. -/
theorem requireThawed (id : ObjectId) : Still (Eval.requireThawed id) := by
  refine bind (bind (p := MonadState.get) (fun _ => rfl) fun _ => fun _ => rfl) fun e => ?_
  split <;> exact fun _ => rfl

/-- Whether an array may grow is only looked up. -/
theorem requireRoom (id : ObjectId) (count : Nat) : Still (Eval.requireRoom id count) := by
  refine bind (requireThawed id) fun _ => ?_
  refine bind (bind (p := MonadState.get) (fun _ => rfl) fun _ => fun _ => rfl) fun e => ?_
  split <;> exact fun _ => rfl

/-- A change of an object leaves the environments. -/
theorem changeObject (id : ObjectId) (f : Object → α × Object) (missing : α) :
    Still (Eval.changeObject id f missing) := fun a => by
  rw [after_changeObject]
  rfl

/-- A change of an array leaves the environments. -/
theorem changeArray (id : ObjectId) (f : Elements Value → α × Elements Value) (missing : α) :
    Still (Eval.changeArray id f missing) :=
  bind (requireThawed id) fun _ => changeObject id _ missing

/-- A template's object is made without an environment. -/
theorem templateObject (t : Template) : Still (Eval.templateObject t) := by
  intro a
  obtain ⟨i, hi⟩ | ⟨c, -, -, ⟨o, -, ho⟩ | ⟨-, ho⟩⟩ := templateObject_cases t a
  · rw [after_error hi]
  · rw [after_ok ho]
  · rw [after_ok ho]
    rfl

/-- An error is made without an environment. -/
theorem causedError (kind : ErrorKind) (message : Option Text) (cause : Option Value) : Still (do
    let id ← Eval.errorObject kind message
    setCause id cause
    return Value.object id) := by
  refine bind (p := Eval.errorObject kind message) (fun _ => rfl) fun id => ?_
  refine bind (p := setCause id cause) ?_ fun _ _ => rfl
  cases cause <;> exact fun _ => rfl

/-- The context is only looked up. -/
theorem context : Still Eval.context := by
  intro a
  cases hc : a.contexts with
  | nil => rw [after_error (context_of_nil hc)]
  | cons c rest => rw [after_ok (context_eq hc)]

/-- A function is made in an environment that stays as it is. -/
theorem closure (f : Function) (e : EnvironmentId) (name : String) : Still (Eval.closure f e name) :=
  bind context fun _ => bind (p := allocate _) (fun _ => rfl) fun _ _ => rfl

end Still

/-! ### Computations that alter an environment -/

/-- The environments are the same, but for a variable of the given one, which is a new one at most if
the condition holds.  One that may not be deleted does not become one that may be. -/
inductive Environments.Alters (e : EnvironmentId) (adds : Prop) (s : Environments) : Environments → Prop
  | same : Alters e adds s s
  | insert {x : Environment} {name : String} {v : Variable} (hx : s.get? e = some x)
    (hlasting : ∀ w, x.find? name = some w → w.isDeletable = false → v.isDeletable = false)
    (hadds : x.find? name = none → adds) : Alters e adds s (s.set e (x.insert name v))

/-- An alteration gives a variable of one record, or none. -/
theorem Environments.Alters.cases {e : EnvironmentId} {adds : Prop} {s t : Environments}
    (h : s.Alters e adds t) :
    t = s ∨ ∃ x name v, s.get? e = some x ∧
      (∀ w, x.find? name = some w → w.isDeletable = false → v.isDeletable = false) ∧
      (x.find? name = none → adds) ∧ t = s.set e (x.insert name v) := by
  cases h with
  | same => exact .inl rfl
  | insert hx hlasting hadds => exact .inr ⟨_, _, _, hx, hlasting, hadds, rfl⟩

/-- The computation alters one environment at most. -/
abbrev Altering {α : Type} (e : EnvironmentId) (adds : Prop) (p : Eval α) : Prop :=
  Leads (fun a b => a.environments.Alters e adds b.environments) p

namespace Altering

variable {adds : Prop} (e : EnvironmentId) (name : String)

/-- A variable that is there is changed. -/
theorem updateEnvironment {a : Agent} {x : Environment} {v w : Variable}
    (hx : a.environments.get? e = some x) (hw : x.find? name = some w)
    (hv : v.isDeletable = w.isDeletable) : a.environments.Alters e adds
      ((Eval.updateEnvironment e (·.insert name v)).after a).environments := by
  rw [after_ok (updateEnvironment_apply hx _)]
  refine .insert hx (fun u hu hlasting => ?_) fun hnone => ?_
  · cases hw.symm.trans hu
    rw [hv, hlasting]
  · cases hw.symm.trans hnone

/-- An environment that is missing is not altered. -/
theorem of_environmentAt {α : Type} {f : Environment → Eval α}
    (hf : ∀ (a : Agent) x, a.environments.get? e = some x →
      a.environments.Alters e adds ((f x).after a).environments) :
    Altering e adds (environmentAt e >>= f) := by
  intro a
  cases hx : a.environments.get? e with
  | none =>
    rw [after_error (bind_error (environmentAt_of_none hx))]
    exact .same
  | some x =>
    unfold Eval.after
    rw [bind_ok (environmentAt_apply hx)]
    exact hf a x hx

/-- Creating a variable alters its environment. -/
theorem createVariable {v : Variable} (hv : v.isDeletable = false) :
    Altering e True (Eval.createVariable e name v) := by
  refine of_environmentAt e fun a x hx => ?_
  exact .insert hx (fun _ _ _ => hv) fun _ => trivial

/-- Initializing a variable alters its environment and adds no name. -/
theorem initializeVariable (v : Value) : Altering e False (Eval.initializeVariable e name v) := by
  refine of_environmentAt e fun a x hx => ?_
  cases hw : x.find? name with
  | none => exact .same
  | some w => exact updateEnvironment e name hx hw rfl

/-- Writing a variable alters its environment, and adds a name in sloppy code only. -/
theorem writeVariable (v : Value) (isStrict : Bool) :
    Altering e (isStrict = false) (Eval.writeVariable e name v isStrict) := by
  refine of_environmentAt e fun a x hx => ?_
  cases hw : x.find? name with
  | none =>
    cases isStrict with
    | true => exact .same
    | false =>
      change a.environments.Alters e _ ((Eval.updateEnvironment e (·.insert name _)).after a).environments
      rw [after_ok (updateEnvironment_apply hx _)]
      refine .insert hx (fun u hu => ?_) fun _ => rfl
      -- The name was missing, so no variable is replaced.
      cases hw.symm.trans hu
  | some w =>
    dsimp only
    split
    · exact .same
    · split
      · exact updateEnvironment e name hx hw rfl
      · split <;> exact .same

end Altering

/-! ### Relations that are about environments -/

/-- A relation of agents that only their environments, realms and contexts count for. -/
structure Agent.IsOutward (R : Agent → Agent → Prop) : Prop where
  same : ∀ {a b : Agent}, b.environments = a.environments → a.Registers b → b.contexts = a.contexts → R a b
  trans : ∀ {a b c : Agent}, R a b → R b c → R a c

namespace Agent.IsOutward

variable {R : Agent → Agent → Prop} (hR : IsOutward R)

include hR

/-- The relation holds of an agent and itself. -/
theorem refl (a : Agent) : R a a := hR.same rfl (.of_same rfl) rfl

/-- What leaves the environments keeps to the relation. -/
theorem still {α : Type} {p : Eval α} (he : Evolving p) (hr : Registering p) (h : Still p) :
    Leads R p := fun a => hR.same (h a) (hr a) (he a).contexts

/-- The innermost environment is only looked up. -/
theorem environment : Leads R Eval.environment :=
  hR.still Evolving.creation.environment (Law.environment (L := registering.toLaw)) <|
    .bind .context fun _ _ => rfl

theorem closure (f : Function) (e : EnvironmentId) (name : String) :
    Leads R (Eval.closure f e name) :=
  hR.still (Evolving.creation.closure f e name) (Law.closure registering.toLaw f e name)
    (.closure f e name)

/-- An array that is noted for a while changes no environment. -/
theorem joining {α : Type} {p : Eval α} (o : ObjectId) (h : Leads R p) : Leads R (do
    modify fun a => { a with joining := o :: a.joining }
    ending p fun a => { a with joining := a.joining.erase o }) := by
  intro a
  have hafter : Eval.after (do
      modify fun a => { a with joining := o :: a.joining }
      ending p fun a => { a with joining := a.joining.erase o }) a
      = (fun b : Agent => { b with joining := b.joining.erase o })
          (p.after { a with joining := o :: a.joining }) := after_ending ..
  have hstart : R a { a with joining := o :: a.joining } := hR.same rfl (.of_same rfl) rfl
  rw [hafter]
  exact hR.trans hstart (hR.trans (h _) (hR.same rfl (.of_same rfl) rfl))

/-- Nothing is tidied up, and only an error is reported. -/
theorem concluding {α : Type} {p : Eval α} (h : Leads R p) :
    Leads R (Eval.concluding Tidying.nothing.apply p) := by
  have hreport : ∀ (b : Agent) v, R b (b.reportUncaught v) := by
    intro b v
    unfold Agent.reportUncaught
    split
    · exact hR.same rfl (.of_same rfl) rfl
    · exact hR.refl b
  intro a
  rcases after_concluding Tidying.nothing.apply p a with heq | ⟨v, heq⟩
  · exact heq ▸ h a
  · exact heq ▸ hR.trans (h a) (hreport _ v)

/-- A write is one to the length of an array, or changes one object. -/
theorem write {p : Eval Bool} (id : ObjectId) (key : PropertyKey) (v : Value) (h : Leads R p) :
    Leads R (do
      if key.isNamed "length" && (← Eval.object id).isArray then p
      else Eval.changeObject id (·.write key v) false) := by
  have hread : Leads R (Eval.object id) := hR.refl
  refine hread.seq hR.trans fun o => ?_
  split
  · exact h
  · exact hR.still (.changeObject id (fun _ => .write key v) false)
      (.changeObject id (fun _ => .write key v) false) (.changeObject id _ _)

end Agent.IsOutward

/-- **The law of computations that lead to related agents**, if the relation is outward: only functions
and deletions come to environments. -/
def Law.outward {R : Agent → Agent → Prop} (hR : Agent.IsOutward R)
    (hfunction : ∀ f, Leads R (Eval.functionValue f))
    (hdelete : ∀ e name, Leads R (Eval.deleteVariable e name)) : Law where
  Holds := Leads R
  CountsOnKeys := False
  pure _ := hR.refl
  throw _ := hR.refl
  get := hR.refl
  bindOf h hf := h.seqOf hR.trans fun a x b hx => hf a x b False.elim hx
  catching := Leads.catching (R := R) hR.trans
  followedBy := Leads.followedBy (R := R) hR.trans
  joining := hR.joining
  adjust f hf := hR.still (evolution.adjust f hf) (registering.adjust f hf) fun a => (hf a).environments
  newRealm r hr := hR.still (evolution.newRealm r hr) (registering.newRealm r hr) fun _ => rfl
  allocate o ho := hR.still (evolution.allocate o ho) (registering.allocate o ho) fun _ => rfl
  method b := hR.still (evolution.method b) (registering.method b) <|
    .method (fun _ => rfl) fun _ => rfl
  functionValue := hfunction
  templateObject t := hR.still (evolution.templateObject t) (registering.templateObject t)
    (.templateObject t)
  causedError kind message cause := hR.still (evolution.causedError kind message cause)
    (registering.causedError kind message cause) (.causedError kind message cause)
  nameFunction v name := hR.still (evolution.nameFunction v name) (registering.nameFunction v name) <| by
    cases v <;> exact fun _ => rfl
  freeze v := hR.still (evolution.freeze v) (registering.freeze v) <| by
    cases v <;> exact fun _ => rfl
  delete id key := hR.still (evolution.delete id key) (registering.delete id key)
    (.changeObject id _ _)
  setLength id n hn := hR.still (evolution.setLength id n hn) (registering.setLength id n hn)
    (.changeObject id _ _)
  write id key v _ := hR.write id key v
  define id key v := hR.still (evolution.define id key v) (registering.define id key v)
    (.changeObject id _ _)
  changeArray id f missing hf := hR.still (evolution.changeArray id f missing hf)
    (registering.changeArray id f missing hf) (.changeArray id f missing)
  growArray id count f hf := hR.still (evolution.growArray id count f hf)
    (registering.growArray id count f hf) <| .bind (.requireRoom id count) fun _ => .changeArray id _ ()
  deleteVariable := hdelete

/-! ### Computations that keep environments -/

/-- Keeping environments is a relation that only environments matter to. -/
theorem Agent.isOutward_hasKept (s : Environments) :
    Agent.IsOutward fun a b => a.HasKept s → b.HasKept s :=
  ⟨fun he hr hc ha => ha.of_same he hr hc, fun h h' ha => h' (h ha)⟩

/-- The computation leads from agents that have kept the environments to such agents. -/
abbrev Keeps {α : Type} (s : Environments) (p : Eval α) : Prop :=
  Leads (fun a b => a.HasKept s → b.HasKept s) p

namespace Keeps

variable {α β : Type} {s : Environments} {p : Eval α} {f : α → Eval β} {e : EnvironmentId}

/-- One task after another keeps what each of them keeps. -/
theorem bind (h : Keeps s p) (hf : ∀ x, Keeps s (f x)) : Keeps s (p >>= f) :=
  h.seq (fun h h' ha => h' (h ha)) hf

theorem pure (x : α) : Keeps s (Pure.pure x : Eval α) := fun _ ha => ha

theorem throw (i : Interrupt) : Keeps s (throw i : Eval α) := fun _ ha => ha

/-- A new environment may be altered. -/
theorem of_altering (hevolves : Evolving p) (hregisters : Registering p) (h : Altering e adds p)
    (he : s.get? e = none) : Keeps s p := by
  intro a ha
  have halters : a.environments.Alters e adds (p.after a).environments := h a
  obtain hsame | ⟨x, name, v, hx, -, -, hset⟩ := halters.cases
  · exact ha.of_same hsame (hregisters a) (hevolves a).contexts
  · exact (ha.set he hx _).of_same hset (hregisters a) (hevolves a).contexts

/-- A name is created outside what is kept. -/
theorem createVariable (he : s.get? e = none) (name : String) {v : Variable}
    (hv : v.isDeletable = false) : Keeps s (Eval.createVariable e name v) :=
  of_altering (evolution.createVariable e name v hv) (registering.createVariable e name v hv)
    (.createVariable e name hv) he

/-- A variable is initialized outside what is kept. -/
theorem initializeVariable (he : s.get? e = none) (name : String) (v : Value) :
    Keeps s (Eval.initializeVariable e name v) :=
  of_altering (evolution.initializeVariable e name v) (registering.initializeVariable e name v)
    (.initializeVariable e name v) he

/-- A variable is written outside what is kept. -/
theorem writeVariable (he : s.get? e = none) (name : String) (v : Value) (isStrict : Bool) :
    Keeps s (Eval.writeVariable e name v isStrict) :=
  of_altering (evolution.writeVariable e name v isStrict) (registering.writeVariable e name v isStrict)
    (.writeVariable e name v isStrict) he

/-- Nothing that is to be kept can be deleted. -/
theorem deleteVariable (hs : s.IsLasting) (e : EnvironmentId) (name : String) :
    Keeps s (Eval.deleteVariable e name) := by
  intro a ha
  unfold Eval.deleteVariable
  cases hx : a.environments.get? e with
  | none =>
    rw [after_error (bind_error (environmentAt_of_none hx))]
    exact ha
  | some x =>
    unfold Eval.after
    rw [bind_ok (environmentAt_apply hx)]
    cases hv : x.find? name with
    | none => exact ha
    | some v =>
      dsimp only
      by_cases hdeletable : v.isDeletable = true
      · rw [if_pos hdeletable, bind_ok (updateEnvironment_apply hx _)]
        -- A record that is kept has no deletable variable, so this one is not kept.
        refine ha.set ?_ hx _
        refine Option.eq_none_iff_forall_ne_some.mpr fun y hy => ?_
        cases hx.symm.trans (ha.records e y hy)
        rw [hs e x name v hy hv] at hdeletable
        cases hdeletable
      · rw [if_neg hdeletable]
        exact ha

/-- An environment that is made is none of those that are to be kept. -/
theorem newEnvironment (outer : Option EnvironmentId) {f : EnvironmentId → Eval α}
    (hf : ∀ e, s.get? e = none → Keeps s (f e)) : Keeps s (Eval.newEnvironment outer >>= f) := by
  intro a ha
  have happly : Eval.newEnvironment outer a = .ok (a.environments.allocate ⟨outer, []⟩).1
      { a with environments := (a.environments.allocate ⟨outer, []⟩).2 } := rfl
  unfold Eval.after
  rw [bind_ok happly]
  exact hf _ (ha.get?_allocate _) _ (ha.allocate _)

/-- A function that knows itself has an environment of its own. -/
theorem functionValue (f : Function) : Keeps s (Eval.functionValue f) := by
  have hclosure := fun e name => (Agent.isOutward_hasKept s).closure f e name
  refine bind (Agent.isOutward_hasKept s).environment fun e => ?_
  split
  · exact hclosure e ""
  · refine newEnvironment _ fun i hi => bind (createVariable hi _ rfl) fun _ => ?_
    refine bind (hclosure i _) fun v => bind (initializeVariable hi _ v) fun _ => pure v

/-- Another environment may be entered. -/
theorem setEnvironment (e : EnvironmentId) : Keeps s (Eval.setEnvironment e) := by
  intro a ha
  obtain ⟨objects, environments, realms, contexts, joining, methods, count, trace, verbose,
    reports⟩ := a
  cases contexts with
  | nil => exact ha
  | cons c rest =>
    refine ⟨ha.tidy, ha.records, fun d hd => ?_⟩
    cases hd
    exact ha.here c rfl

/-- **What is evaluated in a new environment keeps the others**, if it does so as long as this is the
innermost one. -/
theorem inContext {r : RealmId} (he : s.get? e = none) (hwanders : Leads Agent.Wanders p)
    (hregisters : Registering p)
    (h : ∀ a : Agent, a.HasKept s → (∀ c ∈ a.contexts.head?, s.get? c.environment = none) →
      (p.after a).HasKept s)
    {a : Agent} (ha : a.HasKept s) (hr : a.IsExpressionRealm r) :
    ((Eval.inContext ⟨r, e⟩ p).after a).HasKept s := by
  have hafter : (Eval.inContext ⟨r, e⟩ p).after a = (fun b : Agent => { b with contexts := b.contexts.tail })
      (p.after { a with contexts := ⟨r, e⟩ :: a.contexts }) := after_ending ..
  have hstart : Agent.HasKept { a with contexts := ⟨r, e⟩ :: a.contexts } s := by
    refine ⟨ha.tidy, ha.records, fun c hc => ?_⟩
    cases hc
    exact hr
  have hinner := h _ hstart fun c hc => by
    cases hc
    exact he
  -- Inside, the innermost context is the new one; afterwards it is the one from before, whose realm
  -- stays what it was.
  have houter : (p.after { a with contexts := ⟨r, e⟩ :: a.contexts }).contexts.tail = a.contexts :=
    (hwanders _).outer
  rw [hafter]
  refine ⟨hinner.tidy, hinner.records, fun c hc => ?_⟩
  dsimp only at hc
  rw [houter] at hc
  exact (hregisters _).isExpressionRealm (ha.here c hc)

end Keeps

/-! ### The law -/

/-- **The law of computations by which agents keep environments.** -/
def sheltering {s : Environments} (hs : s.IsLasting) : Law :=
  .outward (Agent.isOutward_hasKept s) Keeps.functionValue (Keeps.deleteVariable hs)

namespace Keeps

variable {s : Environments} (hs : s.IsLasting)

/-- **New environments may be filled.** -/
theorem fills {e : EnvironmentId} (he : s.get? e = none) : (sheltering hs).Fills e where
  createVariable name _ := createVariable he name
  initializeVariable := initializeVariable he
  writeVariable := writeVariable he

/-- A new environment is not one of those kept, so everything may be done in it. -/
theorem opens : (sheltering hs).Opens := fun _ _ outer hf => newEnvironment outer fun e he => hf e (fills hs he)

end Keeps

end Scriptlet
