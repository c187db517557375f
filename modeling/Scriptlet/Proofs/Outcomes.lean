import Scriptlet.Loading

/-!
# What computations leave behind

A computation leaves an agent behind, whatever comes of it.  How agents are put together with each
other follows how computations are, so that a relation of agents which is reflexive and transitive
holds between the agents before and after a computation if it does so for its pieces.

## Main definitions

* `Eval.after` — the agent that a computation leaves behind.
* `Eval.Leads` — computations that lead from every agent to a related one.
* `Eval.Throws` — computations that throw a new error.

## Main results

* `Eval.bind_ok`, `Eval.bind_error`, `Eval.bind_eq_ok` — what a sequence of two computations does.
* `Eval.after_bind`, `Eval.after_catching`, `Eval.after_followedBy` — what they leave behind.
* `Eval.Leads.seq`, `Eval.Leads.iterate`, `Eval.Leads.catching` — **a relation of agents that holds for
  the pieces of a computation holds for the whole**.
-/

namespace Scriptlet

namespace Eval

/-- The agent that a computation leaves behind. -/
def after {α : Type} (p : Eval α) (a : Agent) : Agent :=
  match p a with
  | .ok _ b => b
  | .error _ b => b

variable {α β σ : Type} {p : Eval α} {f : α → Eval β} {a b : Agent}

theorem after_ok {x : α} (h : p a = .ok x b) : p.after a = b := by rw [after, h]

theorem after_error {i : Interrupt} (h : p a = .error i b) : p.after a = b := by rw [after, h]

theorem after_congr {q : Eval α} (h : p a = q b) : p.after a = q.after b := by
  unfold after
  rw [h]

theorem bind_ok {x : α} (h : p a = .ok x b) : (p >>= f) a = f x b := by
  change EStateM.bind p f a = _
  rw [EStateM.bind, h]

theorem bind_error {i : Interrupt} (h : p a = .error i b) : (p >>= f) a = .error i b := by
  change EStateM.bind p f a = _
  rw [EStateM.bind, h]

theorem bind_congr_left {q : Eval α} (h : p a = q b) : (p >>= f) a = (q >>= f) b := by
  change EStateM.bind p f a = EStateM.bind q f b
  rw [EStateM.bind, EStateM.bind, h]

/-- What is the same after every result of a computation may come after it. -/
theorem bind_congr_ok {g : α → Eval β} (h : ∀ x b, p a = .ok x b → f x b = g x b) :
    (p >>= f) a = (p >>= g) a := by
  cases hx : p a with
  | error i b => rw [bind_error hx, bind_error hx]
  | ok x b =>
    rw [bind_ok hx, bind_ok hx]
    exact h x b hx

/-- What follows a throw is not reached. -/
theorem throw_bind (i : Interrupt) (f : α → Eval β) : (throw i >>= f : Eval β) = throw i := rfl

/-- A sequence has a result if both computations have one. -/
theorem bind_eq_ok {y : β} (h : (p >>= f) a = .ok y b) :
    ∃ x c, p a = .ok x c ∧ f x c = .ok y b := by
  change EStateM.bind p f a = _ at h
  unfold EStateM.bind at h
  cases hp : p a with
  | ok x c =>
    rw [hp] at h
    exact ⟨x, c, rfl, h⟩
  | error i c =>
    rw [hp] at h
    cases h

theorem after_bind (p : Eval α) (f : α → Eval β) (a : Agent) :
    (p >>= f).after a = p.after a ∨
      ∃ x, p a = .ok x (p.after a) ∧ (p >>= f).after a = (f x).after (p.after a) := by
  change Eval.after (EStateM.bind p f) a = _ ∨ ∃ x, _ ∧ Eval.after (EStateM.bind p f) a = _
  unfold after EStateM.bind
  cases p a with
  | ok x b => exact .inr ⟨x, rfl, rfl⟩
  | error i b => exact .inl rfl

theorem after_ending (p : Eval α) (f : Agent → Agent) (a : Agent) :
    (ending p f).after a = f (p.after a) := by
  unfold after ending
  cases p a <;> rfl

theorem after_catching (p : Eval α) (f : Value → Eval α) (a : Agent) :
    (catching p f).after a = p.after a ∨ ∃ v, (catching p f).after a = (f v).after (p.after a) := by
  unfold after catching
  cases p a with
  | ok x b => exact .inl rfl
  | error i b =>
    cases i with
    | thrown v => exact .inr ⟨v, rfl⟩
    | exhausted | broken => exact .inl rfl

/-- What follows is run whether a value is returned or thrown. -/
theorem after_followedBy_eq (p q : Eval Completion) (a : Agent) : (followedBy p q).after a =
    match p a with
    | .ok _ b | .error (.thrown _) b => q.after b
    | .error _ b => b := by
  unfold after followedBy
  -- The second part runs after an end of the first one and after a throw, and after nothing else.
  cases p a with
  | ok x b =>
    dsimp only
    cases q b <;> rfl
  | error i b =>
    cases i with
    | thrown v =>
      dsimp only
      cases q b with
      | ok d c => rcases Bool.eq_false_or_eq_true d.isAbrupt with hd | hd <;> simp [hd]
      | error j c => rfl
    | exhausted | broken => rfl

theorem after_followedBy (p q : Eval Completion) (a : Agent) :
    (followedBy p q).after a = p.after a ∨ (followedBy p q).after a = q.after (p.after a) := by
  rw [after_followedBy_eq, after]
  cases p a with
  | ok x b => exact .inr rfl
  | error i b =>
    cases i with
    | thrown v => exact .inr rfl
    | exhausted | broken => exact .inl rfl

theorem after_concluding (tidy : Agent → Agent) (p : Eval α) (a : Agent) :
    (concluding tidy p).after a = tidy (p.after a) ∨
      ∃ v, (concluding tidy p).after a = (tidy (p.after a)).reportUncaught v := by
  unfold after concluding
  cases p a with
  | ok x b => exact .inl rfl
  | error i b =>
    cases i with
    | thrown v => exact .inr ⟨v, rfl⟩
    | exhausted | broken => exact .inl rfl

/-- A computation that gives a result has one. -/
theorem ok_of_run' (h : (p.run' a).isSome = true) : ∃ x b, p a = .ok x b := by
  unfold EStateM.run' EStateM.run at h
  cases hp : p a with
  | ok x b => exact ⟨x, b, rfl⟩
  | error i b =>
    rw [hp] at h
    cases h

/-- There is no result, but there is one if what is thrown is caught. -/
theorem thrown_of_run' {f : Value → Eval α} (h : (p.run' a).isSome = false)
    (hf : ((catching p f).run' a).isSome = true) : ∃ v b, p a = .error (.thrown v) b := by
  unfold EStateM.run' EStateM.run at h hf
  unfold catching at hf
  cases hp : p a with
  | ok x b =>
    rw [hp] at h
    cases h
  | error i b =>
    rw [hp] at hf
    cases i with
    | thrown v => exact ⟨v, b, rfl⟩
    | exhausted | broken => cases hf

theorem get_apply (a : Agent) : (get : Eval Agent) a = .ok a a := rfl

theorem object_apply (id : ObjectId) (a : Agent) : object id a = .ok (a.object id) a := rfl

theorem elementsOf_apply (id : ObjectId) (a : Agent) : elementsOf id a = .ok (a.elements id) a := rfl

theorem thisArray_eq {id : ObjectId} (h : (a.object id).isArray = true) (f : ArrayMethod) :
    thisArray f (.object id) a = .ok id a := by
  unfold thisArray
  rw [bind_ok (get_apply a)]
  simp only [Agent.array?, h, if_true]
  rfl

/-- A method is called on an array, or that is an error. -/
theorem thisArray_ok {g : ArrayMethod} {this : Value} {id : ObjectId}
    (h : thisArray g this a = .ok id b) :
    b = a ∧ this = .object id ∧ (a.object id).isArray = true := by
  unfold thisArray at h
  rw [bind_ok (get_apply a)] at h
  cases this with
  | object i =>
    cases harray : (a.object i).isArray with
    | true =>
      simp only [Agent.array?, harray, if_true] at h
      cases h
      exact ⟨rfl, rfl, harray⟩
    | false =>
      simp only [Agent.array?, harray, Bool.false_eq_true, if_false] at h
      cases h
  | _ => cases h

theorem modifyGet_apply (f : Agent → α × Agent) (a : Agent) :
    (modifyGet f : Eval α) a = .ok (f a).1 (f a).2 := rfl

theorem context_eq {c : Context} {rest : List Context} (hc : a.contexts = c :: rest) :
    context a = .ok c a := by
  unfold context
  rw [bind_ok (get_apply a), hc]
  rfl

theorem context_of_nil (hc : a.contexts = []) : context a = .error (.broken .missingContext) a := by
  unfold context
  rw [bind_ok (get_apply a), hc]
  rfl

theorem environment_eq {c : Context} {rest : List Context} (hc : a.contexts = c :: rest) :
    environment a = .ok c.environment a := bind_ok (context_eq hc)

theorem realmAt_eq {i : RealmId} {r : Realm} (hr : a.realms[i.index]? = some r) :
    realmAt i a = .ok r a := by
  unfold realmAt
  rw [bind_ok (get_apply a), hr]
  rfl

theorem realmAt_of_none {i : RealmId} (hr : a.realms[i.index]? = none) :
    realmAt i a = .error (.broken .missingRealm) a := by
  unfold realmAt
  rw [bind_ok (get_apply a), hr]
  rfl

/-- The scope is the given one, if the realm knows the place. -/
theorem scopeAt_apply (place : Span) (s : Scope) (a : Agent) :
    scopeAt place s a = .ok s a ∨ ∃ i, scopeAt place s a = .error i a := by
  unfold scopeAt
  cases hc : a.contexts with
  | nil => exact .inr ⟨_, bind_error (bind_error (context_of_nil hc))⟩
  | cons c rest =>
    cases hr : a.realms[c.realm.index]? with
    | none =>
      have hrealm : realm a = _ := (bind_ok (context_eq hc)).trans (realmAt_of_none hr)
      exact .inr ⟨_, bind_error hrealm⟩
    | some r =>
      have hrealm : realm a = _ := (bind_ok (context_eq hc)).trans (realmAt_eq hr)
      rw [bind_ok hrealm]
      split
      · exact .inl rfl
      · exact .inr ⟨_, rfl⟩

theorem environmentAt_apply {e : EnvironmentId} {x : Environment}
    (h : a.environments.get? e = some x) : environmentAt e a = .ok x a := by
  unfold environmentAt
  rw [bind_ok (get_apply a), h]
  rfl

theorem environmentAt_of_none {e : EnvironmentId} (h : a.environments.get? e = none) :
    environmentAt e a = .error (.broken .missingEnvironment) a := by
  unfold environmentAt
  rw [bind_ok (get_apply a), h]
  rfl

theorem environments_withEnvironmentOf (e : EnvironmentId) (a : Agent) :
    (withEnvironmentOf e a).environments = a.environments := by
  unfold withEnvironmentOf
  split <;> rfl

/-- An environment is set if there is a context. -/
theorem after_setEnvironment (e : EnvironmentId) (a : Agent) :
    (setEnvironment e).after a = withEnvironmentOf e a := by
  obtain ⟨objects, environments, realms, contexts, joining, methods, count, trace, verbose, reports⟩ := a
  cases contexts <;> rfl

theorem setEnvironment_eq {c : Context} {rest : List Context} (hc : a.contexts = c :: rest)
    (e : EnvironmentId) : setEnvironment e a = .ok () (withEnvironmentOf e a) := by
  unfold setEnvironment withEnvironmentOf
  rw [bind_ok (get_apply a), hc]
  rfl

/-- What is done in an environment is done there, and the environment before it is set again. -/
theorem inEnvironment_eq {c : Context} {rest : List Context} (hc : a.contexts = c :: rest)
    (e : EnvironmentId) (p : Eval α) : inEnvironment e p a
      = ending p (withEnvironmentOf c.environment) (withEnvironmentOf e a) := by
  unfold inEnvironment
  rw [bind_ok (environment_eq hc), bind_ok (setEnvironment_eq hc e)]

/-- Nothing is done but to see that an array is not frozen. -/
theorem requireThawed_ok {id : ObjectId} {x : PUnit} (h : requireThawed id a = .ok x b) :
    b = a ∧ (a.elements id).isFrozen = false := by
  cases hfrozen : (a.elements id).isFrozen with
  | true =>
    change (if (a.elements id).isFrozen = true then raise _ _ else Pure.pure () : Eval Unit) a
      = _ at h
    rw [hfrozen] at h
    cases h
  | false =>
    change (if (a.elements id).isFrozen = true then raise _ _ else Pure.pure () : Eval Unit) a
      = _ at h
    rw [hfrozen] at h
    cases h
    exact ⟨rfl, rfl⟩

/-- Nothing is done but to see that an array has room. -/
theorem requireRoom_ok {id : ObjectId} {count : Nat} {x : PUnit}
    (h : requireRoom id count a = .ok x b) :
    b = a ∧ (a.elements id).length + count ≤ maxArrayLength := by
  obtain ⟨_, c, hthawed, hrest⟩ := bind_eq_ok h
  obtain ⟨rfl, -⟩ := requireThawed_ok hthawed
  change (if maxArrayLength < (c.elements id).length + count then invalidLength
    else Pure.pure () : Eval Unit) c = _ at hrest
  split at hrest
  · cases hrest
  · next hroom =>
    cases hrest
    exact ⟨rfl, Nat.le_of_not_lt hroom⟩

/-- An array that is not too long is made. -/
theorem allocateArray_eq {e : Elements Value} (h : ¬maxArrayLength < e.length) :
    allocateArray e = allocate (.ofKind (.array e)) := if_neg h

/-- There is a new array unless it were too long. -/
theorem allocateArray_cases (e : Elements Value) :
    allocateArray e = throw .exhausted ∨
      e.length ≤ maxArrayLength ∧ allocateArray e = allocate (.ofKind (.array e)) := by
  by_cases h : maxArrayLength < e.length
  · exact .inl (if_pos h)
  · exact .inr ⟨Nat.le_of_not_lt h, allocateArray_eq h⟩

/-- The object for a method is the one that there is, or a new one. -/
theorem method_cases (b : Builtin) (a : Agent) :
    (∃ id, a.methods.find? (·.1 == b) = some (b, id) ∧ method b a = .ok (.object id) a) ∨
      a.methods.find? (·.1 == b) = none ∧ method b a = .ok (.object ⟨a.objects.size⟩) { a with
        objects := a.objects.push (.ofKind (.builtin b))
        methods := (b, ⟨a.objects.size⟩) :: a.methods } := by
  unfold method
  rw [bind_ok (get_apply a)]
  cases hfind : a.methods.find? (·.1 == b) with
  | none => exact .inr ⟨rfl, rfl⟩
  | some p =>
    obtain ⟨n, id⟩ := p
    obtain rfl : n = b := eq_of_beq (List.find?_some (p := fun e : Builtin × ObjectId => e.1 == b) hfind)
    exact .inl ⟨id, rfl, rfl⟩

/-- A property that an object has neither of its own nor as a feature is a method, or undefined. -/
theorem getFrom_common {id : ObjectId} {t : Text} (hown : (a.object id).ownValue? (.text t) = none)
    (hfeature : (a.object id).feature? (.text t) = none) :
    getFrom id (.text t) a
      = (match (a.object id).method? t.toString with
        | some m => method m
        | none => pure .undefined) a := by
  -- The object has no property and no feature of this name, so the search ends at the methods of its
  -- kind.
  have hcommon : common? (.object id) (.text t) a
      = (match (a.object id).method? t.toString with
        | some m => do return some (← method m)
        | none => pure none) a := by
    have hagent : a.feature? (.object id) (.text t) = none := hfeature
    unfold common?
    rw [bind_ok (get_apply a), hagent]
    rfl
  unfold getFrom
  rw [bind_ok (object_apply id a), hown]
  change (common? (.object id) (.text t) >>= _) a = _
  rw [bind_congr_left hcommon]
  cases (a.object id).method? t.toString with
  | none => rfl
  | some m =>
    change ((method m >>= fun v => Pure.pure (some v)) >>= _) a = method m a
    cases hm : method m a with
    | error i b => rw [bind_error (bind_error hm)]
    | ok v b =>
      have hsome : (method m >>= fun v => Pure.pure (some v)) a = .ok (some v) b := bind_ok hm
      rw [bind_ok hsome]
      rfl

/-- A loop is its first round and the loop after it. -/
theorem iterate_succ (p : σ → Eval (Sum σ α)) (n : Nat) (s : σ) :
    iterate p (n + 1) s = p s >>= Sum.elim (iterate p n) Pure.pure := by
  funext a
  change _ = EStateM.bind _ _ a
  unfold iterate EStateM.bind
  cases p s a with
  | ok x b => cases x <;> rfl
  | error i b => rfl

/-- The computation leads from every agent to a related one. -/
def Leads (R : Agent → Agent → Prop) (p : Eval α) : Prop := ∀ a, R a (p.after a)

namespace Leads

variable {R S T : Agent → Agent → Prop}

theorem imp (h : Leads R p) (hRS : ∀ {a b}, R a b → S a b) : Leads S p := fun a => hRS (h a)

/-- At most a new object is made for a method. -/
theorem method {b : Builtin} (hrefl : ∀ a, R a a) (hnew : ∀ a : Agent, R a { a with
    objects := a.objects.push (.ofKind (.builtin b))
    methods := (b, ⟨a.objects.size⟩) :: a.methods }) : Leads R (Eval.method b) := by
  intro a
  obtain ⟨id, -, h⟩ | ⟨-, h⟩ := method_cases b a
  · rw [after_ok h]
    exact hrefl a
  · rw [after_ok h]
    exact hnew a

section Preorder

variable (hrefl : ∀ a, R a a) (htrans : ∀ {a b c}, R a b → R b c → R a c)

include htrans in
/-- The second computation is one for a result of the first. -/
theorem seqOf (h : Leads R p) (hf : ∀ a x b, p a = .ok x b → Leads R (f x)) :
    Leads R (p >>= f) := by
  intro a
  rcases after_bind p f a with heq | ⟨x, hx, heq⟩
  · exact heq ▸ h a
  · exact heq ▸ htrans (h a) (hf a x _ hx _)

include htrans in
theorem seq (h : Leads R p) (hf : ∀ x, Leads R (f x)) : Leads R (p >>= f) :=
  h.seqOf htrans fun _ x _ _ => hf x

include hrefl htrans in
/-- **A loop** leads where its rounds lead. -/
theorem iterate {p : σ → Eval (Sum σ α)} (h : ∀ s, Leads R (p s)) (n : Nat) (s : σ) :
    Leads R (Eval.iterate p n s) := by
  induction n generalizing s with
  | zero => exact hrefl
  | succ n ih =>
    rw [iterate_succ]
    refine seq htrans (h s) fun x => ?_
    cases x with
    | inl s => exact ih s
    | inr r => exact hrefl

include htrans in
theorem catching {f : Value → Eval α} (h : Leads R p) (hf : ∀ v, Leads R (f v)) :
    Leads R (Eval.catching p f) := by
  intro a
  rcases after_catching p f a with heq | ⟨v, heq⟩
  · exact heq ▸ h a
  · exact heq ▸ htrans (h a) (hf v _)

include htrans in
theorem followedBy {p q : Eval Completion} (h : Leads R p) (hq : Leads R q) :
    Leads R (Eval.followedBy p q) := by
  intro a
  rcases after_followedBy p q a with heq | heq
  · exact heq ▸ h a
  · exact heq ▸ htrans (h a) (hq _)

end Preorder

end Leads

/-- The computation throws a new error of the given kind, and leaves environments as they are. -/
def Throws (p : Eval α) (kind : ErrorKind) (a : Agent) : Prop :=
  ∃ o b, p a = .error (.thrown (.object o)) b ∧ (b.object o).kind = .error kind
    ∧ b.environments = a.environments

theorem throws_raise (kind : ErrorKind) (message : String) (a : Agent) :
    Throws (raise kind message : Eval α) kind a := by
  refine ⟨⟨a.objects.size⟩, _, rfl, ?_, rfl⟩
  change ((a.objects.push _).getD a.objects.size .empty).kind = _
  rw [Array.getD_eq_getD_getElem?, Array.getElem?_push_size]
  rfl

namespace Throws

variable {kind : ErrorKind}

/-- What follows a throw is not reached. -/
theorem bind (h : Throws p kind a) (f : α → Eval β) : Throws (p >>= f) kind a := by
  obtain ⟨o, b, hp, ho⟩ := h
  exact ⟨o, b, bind_error hp, ho⟩

/-- What comes before a throw may change all but environments. -/
theorem after_ok {x : α} (hp : p a = .ok x b) (hab : b.environments = a.environments)
    (h : Throws (f x) kind b) : Throws (p >>= f) kind a := by
  obtain ⟨o, c, hf, ho, hbc⟩ := h
  exact ⟨o, c, (bind_ok hp).trans hf, ho, hbc.trans hab⟩

end Throws

end Eval

end Scriptlet
