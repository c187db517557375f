import Scriptlet.Proofs.Confinement
import Scriptlet.Proofs.Linking

/-!
# Environments apart from what is evaluated

Code comes to the environments from its own one outwards, and to those of the closures that it calls.
An environment that is not among the former stays as it is until a closure inside it changes it.

A machine is looked at that stops instead of calling a closure that would change the environment.  What
it does up to there is what the other machines do, and it leaves the environment as it is.

## Main definitions

* `Agent.IsApart` — an environment that nothing which is being evaluated is inside of.
* `Agent.Secures` — the record of such an environment.
* `securing` — the law of computations that leave it as it is.
* `Machine.IsSecuring` — a machine whose tasks leave it as it is.

## Main results

* `Agent.IsApart.run` — an environment that is apart stays so, even if closures change it.
* `Machine.IsSecuring.bindPattern`, `Machine.IsSecuring.assignTarget` — patterns and targets leave it.
-/

namespace Scriptlet

open Eval

/-! ### Searches that miss an environment -/

namespace Environments

variable {s : Environments} {e i : EnvironmentId} {o : Option EnvironmentId}

/-- A search does not find what it misses. -/
theorem Misses.ne_of_holderFrom (h : s.Misses e o) (name : String) {fuel : Nat}
    (hholder : s.holderFrom name fuel o = .environment i) : i ≠ e := by
  induction h generalizing fuel with
  | nowhere => cases fuel <;> cases hholder
  | inside hx hne _ ih =>
    cases fuel with
    | zero => cases hholder
    | succ fuel =>
      rw [Environments.holderFrom, hx] at hholder
      dsimp only at hholder
      split at hholder
      · cases hholder
        exact hne
      · exact ih hholder

theorem Misses.ne (h : s.Misses e (some i)) : i ≠ e := by
  cases h with
  | inside _ hne _ => exact hne

theorem Misses.outer (h : s.Misses e (some i)) {x : Environment} (hx : s.get? i = some x) :
    s.Misses e x.outer := by
  cases h with
  | inside hy _ houter =>
    cases hx.symm.trans hy
    exact houter

/-- What is new is outside of nothing. -/
theorem Misses.allocate (h : s.Misses e o) (hs : s.IsTidy) (he : (s.get? e).isSome) :
    ((s.allocate ⟨o, []⟩).2).Misses e (some (s.allocate ⟨o, []⟩).1) := by
  refine .inside (get?_allocate_self hs _) (fun heq => ?_) (h.stay (stay_allocate hs _))
  rw [← heq, vacant_allocate hs] at he
  cases he

end Environments

/-! ### Agents -/

/-- Nothing that is being evaluated is inside the environment; the free places are in order. -/
structure Agent.IsApart (a : Agent) (e : EnvironmentId) : Prop where
  tidy : a.environments.IsTidy
  contexts : ∀ c ∈ a.contexts, a.environments.Misses e (some c.environment)

/-- An environment is there that is apart, and it has the variables of the record that may not be
deleted, with their values. -/
structure Agent.Secures (a : Agent) (e : EnvironmentId) (x : Environment) : Prop extends a.IsApart e where
  there : (a.environments.get? e).isSome
  lasting : ∀ {name v}, x.find? name = some v → v.isDeletable = false →
    a.environments.find? e name = some v

namespace Agent

variable {a b : Agent} {e i : EnvironmentId} {x y : Environment}

/-- An environment that is apart stays so while the same is being evaluated. -/
theorem IsApart.of_links (h : a.IsApart e) (hlinks : a.Links b)
    (hcontexts : ∀ c ∈ b.contexts, c ∈ a.contexts) : b.IsApart e where
  tidy := (hlinks h.tidy).1
  contexts c hc := (h.contexts c (hcontexts c hc)).stay (hlinks h.tidy).2

/-- **An environment that is apart stays so**, even if closures change it. -/
theorem IsApart.run (h : a.IsApart e) (n : Nat) {α : Type} (t : Task α) :
    ((Task.run n t).after a).IsApart e :=
  h.of_links (links_run n t a) fun _ hc => (evolves_run n t a).contexts ▸ hc

namespace Secures

/-- The variables that may not be deleted are what counts. -/
theorem of_links (h : a.Secures e x) (hlinks : a.Links b) (hcontexts : ∀ c ∈ b.contexts, c ∈ a.contexts)
    (hvariables : ∀ name v, a.environments.find? e name = some v → v.isDeletable = false →
      b.environments.find? e name = some v) : b.Secures e x where
  toIsApart := h.toIsApart.of_links hlinks hcontexts
  there := by
    obtain ⟨y, hy⟩ := Option.isSome_iff_exists.mp h.there
    obtain ⟨z, hz, -⟩ := (hlinks h.tidy).2 e y hy
    exact Option.isSome_iff_exists.mpr ⟨z, hz⟩
  lasting hv hlasting := hvariables _ _ (h.lasting hv hlasting) hlasting

theorem of_same (h : a.Secures e x) (henvironments : b.environments = a.environments)
    (hcontexts : ∀ c ∈ b.contexts, c ∈ a.contexts) : b.Secures e x :=
  h.of_links (.of_same henvironments) hcontexts fun _ _ hv _ => henvironments ▸ hv

/-- Another environment is changed. -/
theorem set (h : a.Secures e x) (hi : i ≠ e) (hy : a.environments.get? i = some y) {z : Environment}
    (hz : y.Stays z) (henvironments : b.environments = a.environments.set i z)
    (hcontexts : b.contexts = a.contexts) : b.Secures e x := by
  refine h.of_links (.set hy hz henvironments) (fun _ hc => hcontexts ▸ hc) fun name v hv _ => ?_
  rwa [henvironments, Environments.find?, Environments.get?_set_of_ne hi.symm]

/-- An environment that is made is another one. -/
theorem allocate (h : a.Secures e x) (outer : Option EnvironmentId) :
    (a.environments.allocate ⟨outer, []⟩).1 ≠ e ∧
      Secures { a with environments := (a.environments.allocate ⟨outer, []⟩).2 } e x := by
  refine ⟨fun heq => ?_, h.of_links (fun ha => ⟨?_, Environments.stay_allocate ha _⟩) (fun _ => id) ?_⟩
  · have hthere := h.there
    rw [← heq, Environments.vacant_allocate h.tidy] at hthere
    cases hthere
  · exact Environments.isTidy_allocate ha _
  · intro name v hv _
    dsimp only
    rwa [Environments.find?_allocate h.tidy]

end Secures

end Agent

/-! ### Computations that leave the environment -/

/-- The computation leaves the record of an environment that is apart. -/
abbrev Securing {α : Type} (e : EnvironmentId) (x : Environment) (p : Eval α) : Prop :=
  Leads (fun a b => a.Secures e x → b.Secures e x) p

/-- The computation does so if the environment is not among those from the given one outwards. -/
def SecuringIn {α : Type} (e : EnvironmentId) (x : Environment) (o : Option EnvironmentId)
    (p : Eval α) : Prop := ∀ a : Agent, a.Secures e x → a.environments.Misses e o → (p.after a).Secures e x

/-- The place is none of the environment's. -/
def Reference.Avoids (r : Reference) (e : EnvironmentId) : Prop := ∀ name, r ≠ .variable e name

theorem Reference.Avoids.ne {e i : EnvironmentId} {name : String} (h : («variable» i name).Avoids e) :
    i ≠ e := by
  rintro rfl
  exact h name rfl

/-- What the computation results in where an environment is apart. -/
def Yields {α : Type} (e : EnvironmentId) (x : Environment) (P : α → Prop) (p : Eval α) : Prop :=
  ∀ a r b, a.Secures e x → p a = .ok r b → P r

theorem Agent.isOutward_secures (e : EnvironmentId) (x : Environment) :
    Agent.IsOutward fun a b => a.Secures e x → b.Secures e x :=
  ⟨fun he _ hc ha => ha.of_same he fun _ h => hc ▸ h, fun h h' ha => h' (h ha)⟩

/-- Other environments may be entered. -/
theorem Agent.Secures.withEnvironmentOf {a : Agent} {e i : EnvironmentId} {x : Environment}
    (h : a.Secures e x) (hi : a.environments.Misses e (some i)) :
    (Eval.withEnvironmentOf i a).Secures e x where
  tidy := by
    rw [environments_withEnvironmentOf]
    exact h.tidy
  contexts c hc := by
    rw [environments_withEnvironmentOf]
    unfold Eval.withEnvironmentOf at hc
    split at hc
    · next d rest hcontexts =>
      rcases List.mem_cons.mp hc with rfl | hc
      · exact hi
      · exact h.contexts c (hcontexts ▸ List.mem_cons_of_mem d hc)
    · exact h.contexts c hc
  there := by
    rw [environments_withEnvironmentOf]
    exact h.there
  lasting hv hlasting := by
    rw [environments_withEnvironmentOf]
    exact h.lasting hv hlasting

section

variable {α β : Type} {e i : EnvironmentId} {x : Environment} {o : Option EnvironmentId} {p : Eval α}
  {f : α → Eval β}

namespace Securing

theorem bind (h : Securing e x p) (hf : ∀ r, Securing e x (f r)) : Securing e x (p >>= f) :=
  h.seq (fun h h' ha => h' (h ha)) hf

/-- The second computation is one for a result of the first. -/
theorem bindYields {P : α → Prop} (h : Securing e x p) (hp : Yields e x P p)
    (hf : ∀ r, P r → Securing e x (f r)) : Securing e x (p >>= f) := by
  intro a ha
  rcases after_bind p f a with heq | ⟨r, hr, heq⟩
  · exact heq ▸ h a ha
  · exact heq ▸ hf r (hp a r _ ha hr) _ (h a ha)

theorem of_altering (hevolves : Evolving p) {adds : Prop} (h : Altering i adds p) (hi : i ≠ e) :
    Securing e x p := by
  intro a ha
  have halters : a.environments.Alters i adds (p.after a).environments := h a
  obtain hsame | ⟨y, name, v, hy, hlasting, -, hset⟩ := halters.cases
  · exact ha.of_same hsame fun _ hc => (hevolves a).contexts ▸ hc
  · exact ha.set hi hy (.insert hlasting) hset (hevolves a).contexts

/-- Only variables that may be deleted are. -/
theorem deleteVariable (i : EnvironmentId) (name : String) :
    Securing e x (Eval.deleteVariable i name) := by
  intro a ha
  unfold Eval.deleteVariable
  cases hy : a.environments.get? i with
  | none =>
    rw [after_error (bind_error (environmentAt_of_none hy))]
    exact ha
  | some y =>
    unfold Eval.after
    rw [bind_ok (environmentAt_apply hy)]
    cases hv : y.find? name with
    | none => exact ha
    | some v =>
      dsimp only
      -- What may be deleted is not among the variables that last.
      by_cases hdeletable : v.isDeletable = true
      · rw [if_pos hdeletable, bind_ok (updateEnvironment_apply hy _)]
        have hstays := Environment.Stays.erase hv hdeletable
        refine ha.of_links (.set hy hstays rfl) (fun _ => id) fun n w hw hlasting => ?_
        change (a.environments.set i _).find? e n = _
        by_cases hi : e = i
        · subst hi
          rw [Environments.find?_of_get? (Environments.get?_set_self hy _)]
          rw [Environments.find?_of_get? hy] at hw
          rw [Environment.find?_erase y, hw]
          rintro rfl
          cases hv.symm.trans hw
          rw [hdeletable] at hlasting
          cases hlasting
        · rwa [Environments.find?, Environments.get?_set_of_ne hi]
      · rw [if_neg hdeletable]
        exact ha

/-- What is being evaluated is not inside the environment. -/
theorem environment {f : EnvironmentId → Eval α} (hf : ∀ i, SecuringIn e x (some i) (f i)) :
    Securing e x (Eval.environment >>= f) := by
  intro a ha
  cases hc : a.contexts with
  | nil =>
    have hnone : Eval.environment a = _ := bind_error (context_of_nil hc)
    rwa [after_error (bind_error hnone)]
  | cons c rest =>
    unfold Eval.after
    rw [bind_ok (environment_eq hc)]
    exact hf _ a ha (ha.contexts c (hc ▸ List.mem_cons_self))

end Securing

namespace Yields

variable {P : α → Prop} {Q : β → Prop}

theorem pure {r : α} (hr : P r) : Yields e x P (Pure.pure r) := by
  rintro a _ b - h
  cases h
  exact hr

theorem raise (kind : ErrorKind) (message : String) : Yields e x P (Eval.raise kind message) := by
  rintro a r b - h
  cases h

theorem property (v : Value) (k : PropertyKey) :
    Yields e x (fun o : Option Reference => ∀ r ∈ o, r.Avoids e) (Pure.pure (some (.property v k))) :=
  pure fun r hr => by
    cases hr
    exact fun _ => nofun

theorem bindYields (h : Securing e x p) (hp : Yields e x P p) (hf : ∀ r, P r → Yields e x Q (f r)) :
    Yields e x Q (p >>= f) := by
  intro a r b ha hr
  obtain ⟨s, c, hs, hr⟩ := bind_eq_ok hr
  have hc := h a ha
  rw [after_ok hs] at hc
  exact hf s (hp a s c ha hs) c r b hc hr

theorem bind (h : Securing e x p) (hf : ∀ r, Yields e x Q (f r)) : Yields e x Q (p >>= f) :=
  bindYields (P := fun _ => True) h (fun _ _ _ _ _ => trivial) fun r _ => hf r

end Yields

namespace SecuringIn

theorem of_securing (h : Securing e x p) : SecuringIn e x o p := fun a ha _ => h a ha

/-- **One after the other**, if the first computation leaves the links. -/
theorem bind (h : SecuringIn e x o p) (hlinks : Linking p) (hf : ∀ r, SecuringIn e x o (f r)) :
    SecuringIn e x o (p >>= f) := by
  intro a ha ho
  rcases after_bind p f a with heq | ⟨r, -, heq⟩
  · exact heq ▸ h a ha ho
  · exact heq ▸ hf r _ (h a ha ho) (ho.stay (hlinks a ha.tidy).2)

/-- A new environment is another one, and not inside the one that is missed. -/
theorem newEnvironment {f : EnvironmentId → Eval α}
    (hf : ∀ i, i ≠ e → SecuringIn e x (some i) (f i)) :
    SecuringIn e x o (Eval.newEnvironment o >>= f) := by
  intro a ha ho
  obtain ⟨hne, hmade⟩ := ha.allocate o
  exact hf _ hne _ hmade (ho.allocate ha.tidy ha.there)

theorem environmentAt {f : Environment → Eval α} (hf : ∀ y, SecuringIn e x y.outer (f y)) :
    SecuringIn e x (some i) (Eval.environmentAt i >>= f) := by
  intro a ha hi
  cases hy : a.environments.get? i with
  | none => rwa [after_error (bind_error (environmentAt_of_none hy))]
  | some y =>
    unfold Eval.after
    rw [bind_ok (environmentAt_apply hy)]
    exact hf y a ha (hi.outer hy)

theorem setEnvironment : SecuringIn e x (some i) (Eval.setEnvironment i) := fun a ha hi => by
  rw [after_setEnvironment]
  exact ha.withEnvironmentOf hi

/-- **What is done in another environment** goes back to the one before it. -/
theorem inEnvironment (h : Securing e x p) (hlinks : Linking p) :
    SecuringIn e x (some i) (Eval.inEnvironment i p) := by
  intro a ha hi
  cases hc : a.contexts with
  | nil =>
    have hnone : Eval.environment a = _ := bind_error (context_of_nil hc)
    have happly : Eval.inEnvironment i p a = _ := bind_error hnone
    rwa [after_error happly]
  | cons c rest =>
    have hstart := ha.withEnvironmentOf hi
    have hold := ha.contexts c (hc ▸ List.mem_cons_self)
    rw [← environments_withEnvironmentOf i a] at hold
    unfold Eval.after
    rw [inEnvironment_eq hc]
    change ((Eval.ending p _).after _).Secures e x
    rw [after_ending]
    exact (h _ hstart).withEnvironmentOf (hold.stay (hlinks _ hstart.tidy).2)

/-- **What is done in a context of its own** leaves the other ones. -/
theorem inContext {r : RealmId} (h : SecuringIn e x (some i) p) :
    SecuringIn e x (some i) (Eval.inContext ⟨r, i⟩ p) := by
  intro a ha hi
  have hafter : (Eval.inContext ⟨r, i⟩ p).after a = (fun b : Agent => { b with contexts := b.contexts.tail })
      (p.after { a with contexts := ⟨r, i⟩ :: a.contexts }) := after_ending ..
  have hstart : Agent.Secures { a with contexts := ⟨r, i⟩ :: a.contexts } e x := by
    refine ⟨⟨ha.tidy, fun c hc => ?_⟩, ha.there, ha.lasting⟩
    rcases List.mem_cons.mp hc with rfl | hc
    · exact hi
    · exact ha.contexts c hc
  rw [hafter]
  exact (h _ hstart hi).of_same rfl fun _ hc => List.mem_of_mem_tail hc

/-- Nothing is tidied up, and only an error is reported. -/
theorem concluding {p : Eval Value} (h : SecuringIn e x o p) :
    SecuringIn e x o (Eval.concluding Tidying.nothing.apply p) := by
  intro a ha ho
  have hreport : ∀ (b : Agent) v, b.Secures e x → (b.reportUncaught v).Secures e x := by
    intro b v hb
    unfold Agent.reportUncaught
    split
    · exact hb.of_same rfl fun _ => id
    · exact hb
  rcases after_concluding Tidying.nothing.apply p a with heq | ⟨v, heq⟩
  · exact heq ▸ h a ha ho
  · exact heq ▸ hreport _ v (h a ha ho)

end SecuringIn

end

/-! ### The law -/

section

variable {α : Type} {e i : EnvironmentId} {x : Environment}

/-- A function that knows itself has an environment of its own. -/
theorem Securing.functionValue (f : Function) : Securing e x (Eval.functionValue f) := by
  have hclosure := fun i name => (Agent.isOutward_secures e x).closure f i name
  refine Securing.environment fun i => ?_
  split
  · exact .of_securing (hclosure i "")
  · next name _ =>
    refine SecuringIn.newEnvironment fun j hj => .of_securing ?_
    refine .bind (.of_altering (evolution.createVariable j name _ rfl) (.createVariable j name rfl) hj)
      fun _ => .bind (hclosure j name) fun v => ?_
    refine .bind (.of_altering (evolution.initializeVariable j name v) (.initializeVariable j name v) hj)
      fun _ => fun _ ha => ha

/-- **The law of computations that leave the record of an environment that is apart.** -/
def securing (e : EnvironmentId) (x : Environment) : Law :=
  .outward (Agent.isOutward_secures e x) Securing.functionValue Securing.deleteVariable

/-- Other environments may be filled. -/
theorem Securing.fills (x : Environment) (hi : i ≠ e) : (securing e x).Fills i where
  createVariable name v hv :=
    Securing.of_altering (evolution.createVariable i name v hv) (.createVariable i name hv) hi
  initializeVariable name v := Securing.of_altering (evolution.initializeVariable i name v)
    (.initializeVariable i name v) hi
  writeVariable name v isStrict := Securing.of_altering (evolution.writeVariable i name v isStrict)
    (.writeVariable i name v isStrict) hi

/-- What is found from where code is being evaluated is no place of an environment that is apart. -/
theorem Yields.resolve (name : String) : Yields e x (·.Avoids e) (Eval.resolve name) := by
  intro a r b ha h
  unfold Eval.resolve at h
  cases hc : a.contexts with
  | nil =>
    have hnone : Eval.environment a = _ := bind_error (context_of_nil hc)
    rw [bind_error hnone] at h
    cases h
  | cons c rest =>
    have hmisses := ha.contexts c (hc ▸ List.mem_cons_self)
    rw [bind_ok (environment_eq hc), bind_ok (get_apply a)] at h
    cases hholder : a.environments.holder name c.environment with
    | environment j =>
      rw [hholder] at h
      cases h
      rintro n hn
      cases hn
      exact hmisses.ne_of_holderFrom name hholder rfl
    | nowhere =>
      rw [hholder] at h
      cases h
      exact fun _ => nofun
    | dangling =>
      rw [hholder] at h
      cases h

/-! ### Machines -/

/-- The machine leaves the record of an environment that is apart, whatever it does; and the places that
it finds are other ones. -/
structure Machine.IsSecuring (m : Machine) (e : EnvironmentId) (x : Environment) : Prop where
  links : linking.Rules m
  obeys : (securing e x).Obeys m
  finds : ∀ place name, Yields e x (·.Avoids e) (m.run (.name place name))
  statement : ∀ s, Securing e x (m.run (.statement s))
  assign : ∀ t v, Securing e x (m.run (.assign t v))
  bind : ∀ p v {o}, o ≠ some e → Securing e x (m.run (.bind p v o))

namespace Machine.IsSecuring

variable {m : Machine} (h : m.IsSecuring e x)

include h

/-! #### Places -/

section Places

variable (place : Span) (name : String) (t : Target) (v : Value)

theorem finds_name : Yields e x (fun o : Option Reference => ∀ r ∈ o, r.Avoids e) (do
    record (.evaluate "IdentifierReference" place)
    return some (← m.name place name)) := by
  refine .bind (Law.record (L := securing e x) _) fun _ => ?_
  refine .bindYields (h.obeys (.name place name)) (h.finds place name) fun r hr => .pure fun s hs => ?_
  cases hs
  exact hr

theorem finds_referenceOf? (t : Expr) :
    Yields e x (fun o : Option Reference => ∀ r ∈ o, r.Avoids e) (m.referenceOf? t) := by
  have hexpression := fun t => Law.expression (L := securing e x) h.obeys t
  have hkey := fun v => Law.toKey (L := securing e x) h.obeys v
  have hrecord := fun event => Law.record (L := securing e x) event
  unfold Machine.referenceOf?
  cases t.inner with
  | identifier place name => exact h.finds_name place name
  | member place object name =>
    exact .bind (hrecord _) fun _ => .bind (hexpression object) fun v => .property v _
  | index place object key =>
    refine .bind (hrecord _) fun _ => .bind (hexpression object) fun v => ?_
    exact .bind (hexpression key) fun w => .bind (hkey w) fun k => .property v k
  | _ => exact .pure fun _ => nofun

theorem finds_targetReference? :
    Yields e x (fun o : Option Reference => ∀ r ∈ o, r.Avoids e) (m.targetReference? t) := by
  have hexpression := fun t => Law.expression (L := securing e x) h.obeys t
  have hkey := fun v => Law.toKey (L := securing e x) h.obeys v
  have hrecord := fun event => Law.record (L := securing e x) event
  cases t with
  | identifier place name => exact h.finds_name place name
  | member place object name =>
    exact .bind (hrecord _) fun _ => .bind (hexpression object) fun v => .property v _
  | index place object key =>
    refine .bind (hrecord _) fun _ => .bind (hexpression object) fun v => ?_
    exact .bind (hexpression key) fun w => .bind (hkey w) fun k => .property v k
  | privateMember place => exact .bind (Law.realm (L := securing e x)) fun _ => .raise _ _
  | wrapped w content =>
    refine .bindYields (Law.referenceOf? h.obeys content) (h.finds_referenceOf? content) fun o ho => ?_
    cases o with
    | some r => exact .pure ho
    | none => exact .bind (hexpression content) fun _ => .raise _ _
  | array | object => exact .pure fun _ => nofun

/-- **An assignment to a place that is found** leaves the environment. -/
theorem writeReference {r : Reference} (hr : r.Avoids e) : Securing e x (m.writeReference r v) := by
  cases r with
  | «variable» i name =>
    exact (Securing.fills x hr.ne).writeVariable name v true
  | unresolvable name => exact Law.raise (L := securing e x) _ _
  | property base k =>
    cases base with
    | object id => exact Law.assignOn (L := securing e x) h.obeys v id k
    | _ =>
      unfold Machine.writeReference
      dsimp only
      split
      · exact Law.raise (L := securing e x) _ _
      · exact (securing e x).bind (securing e x).get fun a => Law.raise _ _

theorem bindName {o : Option EnvironmentId} (ho : o ≠ some e) : Securing e x (m.bindName name v o) := by
  cases o with
  | some i => exact (Securing.fills x fun hi => ho (congrArg some hi)).initializeVariable name v
  | none =>
    exact .bindYields (Law.resolve (L := securing e x) name) (.resolve name) fun r hr =>
      h.writeReference v hr

theorem bindPattern (p : Pattern) {o : Option EnvironmentId} (ho : o ≠ some e) :
    Securing e x (m.bindPattern p v o) :=
  Law.bindPattern h.obeys v p (fun p v => h.bind p v ho) fun name v => h.bindName name v ho

end Places

/-! #### Targets -/

section Targets

variable (t : Target) (v : Value) {r : Option Reference} (hr : ∀ s ∈ r, s.Avoids e)

theorem targetReference? : Securing e x (m.targetReference? t) :=
  Law.targetReference? (L := securing e x) h.obeys t

include hr

theorem assignAt : Securing e x (m.assignAt t r v) := by
  cases r with
  | some r => exact h.writeReference v (hr r rfl)
  | none => exact h.assign t v

theorem assignPart (part : TargetElement) : Securing e x (m.assignPart part r v) := by
  unfold Machine.assignPart
  split
  · split
    · exact .bind (Law.namedBy (L := securing e x) h.obeys _ _) fun v => h.assignAt _ v hr
    · exact h.assignAt _ v hr
  · exact h.assignAt _ v hr

omit hr

theorem assignElements (parts : List (Option TargetElement)) (w : Walk) :
    Securing e x (m.assignElements parts w) := by
  have hnext := fun w => Law.nextOf (L := securing e x) w
  induction parts generalizing w with
  | nil => exact (securing e x).pure w
  | cons part parts ih =>
    cases part with
    | none => exact .bind (hnext w) fun w => ih _
    | some part =>
      refine .bindYields (h.targetReference? part.target) (h.finds_targetReference? _) fun r hr => ?_
      exact .bind (hnext w) fun w => .bind (h.assignPart _ hr part) fun _ => ih _

theorem assignProperties (parts : List TargetProperty) (keys : List PropertyKey) :
    Securing e x (m.assignProperties v parts keys) := by
  have hget := fun k => Law.getOf (L := securing e x) v k
  induction parts generalizing keys with
  | nil => exact (securing e x).pure keys
  | cons part parts ih =>
    cases part with
    | shorthand place name initializer =>
      refine .bindYields (h.obeys (.name place name)) (h.finds place name) fun r hr => ?_
      have hwrite := fun v => Securing.bind (h.writeReference v hr) fun _ => ih (name :: keys)
      refine .bind (hget _) fun w => ?_
      cases initializer with
      | none => exact hwrite w
      | some e =>
        dsimp only
        split
        · exact .bind (Law.named (L := securing _ x) h.obeys e name) hwrite
        · exact hwrite w
    | named name part =>
      refine .bind (Law.nameKey h.obeys name) fun k => ?_
      refine .bindYields (h.targetReference? part.target) (h.finds_targetReference? _) fun r hr => ?_
      exact .bind (hget k) fun w => .bind (h.assignPart w hr part) fun _ => ih _

/-- **An assignment to a target** leaves the environment. -/
theorem assignTarget : Securing e x (m.assignTarget t v) := by
  cases t with
  | array elements rest =>
    refine .bind (Law.startWalk (L := securing e x) v) fun w => ?_
    refine .bind (h.assignElements elements w) fun w => ?_
    cases rest with
    | none => exact (securing e x).pure ()
    | some t =>
      refine .bindYields (h.targetReference? t) (h.finds_targetReference? t) fun r hr => ?_
      refine .bind (Law.restOf (L := securing e x) w) fun vs => ?_
      exact .bind (Law.arrayOf (L := securing e x) vs) fun v => h.assignAt t v hr
  | object properties rest =>
    refine .bind (Law.requireParts (L := securing e x) v) fun _ => ?_
    refine .bind (h.assignProperties v properties []) fun keys => ?_
    cases rest with
    | none => exact (securing e x).pure ()
    | some t =>
      refine .bindYields (h.targetReference? t) (h.finds_targetReference? t) fun r hr => ?_
      refine .bind (Law.emptyObject (L := securing e x)) fun id => ?_
      exact .bind (Law.copyProperties (L := securing e x) id v keys) fun _ => h.assignAt t _ hr
  | _ =>
    refine .bindYields (h.targetReference? _) (h.finds_targetReference? _) fun r hr => ?_
    cases r with
    | some r => exact h.writeReference v (hr r rfl)
    | none => exact (securing e x).pure ()

end Targets

end Machine.IsSecuring

end

end Scriptlet
