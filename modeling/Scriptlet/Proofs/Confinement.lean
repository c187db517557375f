import Scriptlet.Proofs.Acceptance
import Scriptlet.Proofs.Heights
import Scriptlet.Proofs.InertTypes
import Scriptlet.Proofs.Keeping
import Scriptlet.Proofs.VariableHistories

/-!
# Roots that are expressions

An expression that is loaded as a root cannot assign to names: evaluation refuses it, and so do the
functions in it, whose bodies are expressions as well.  All environments stay as they are while it is
evaluated, as long as it does not come to a closure of another root.

It may come to one without being given any.  The functions for methods are the same in all roots, and
properties may be put on them.

## Main definitions

* `Agent.Confines` — closures of roots that are expressions, whose bodies are expressions.
* `Condition.confinement` — only such closures are called.
* `Condition.steadiness` — expressions leave environments as they are, unless other closures are called.

## Main results

* `Machine.isKeeping_watching` — **a machine that calls only such closures keeps environments**.
* `serve_steady` — **expressions that are roots leave environments as they are** as long as they do not
  come to closures of other roots.
* `expression_assigns` — a root that comes to one without being given it.
-/

namespace Scriptlet

open Eval

/-! ### Calls that are confined -/

/-- The closure is that of a root that is an expression, and its body is one. -/
def Agent.Confines (a : Agent) (c : Closure) : Prop :=
  a.IsExpressionRealm c.realm ∧ ∃ e, c.code.body = .concise e

/-- If the task is to call a closure, this is confined. -/
def Task.IsConfined (a : Agent) : {α : Type} → Task α → Prop
  | _, .call f _ _ => ∀ c, (a.object f).kind = .closure c → a.Confines c
  | _, _ => True

/-- Only closures that are confined are called. -/
def Condition.confinement : Condition := ⟨fun t a => t.IsConfined a⟩

/-- A machine that watches obeys what all machines obey. -/
theorem GeneralLaw.watching (L : GeneralLaw) (P : Condition) (n : Nat) : L.Rules (.watching P n) := by
  induction n with
  | zero => exact fun _ _ => L.throw _
  | succ n ih =>
    intro α t
    refine L.bind L.get fun a => ?_
    split
    · exact step ih t
    · exact L.throw _

/-- Computations may be stopped as if something were missing, and nothing else stops them. -/
def Stopping.breaking : Stopping :=
  { exhaustion with
    Stops := fun i _ _ => ∃ x, i = .broken x
    uncaught := nofun
    later := fun _ h => h
    ending := fun _ _ h => h }

/-- **Until it is stopped**, a machine that watches does what others do. -/
theorem Machine.isBelow_watching (P : Condition) (n : Nat) :
    Stopping.breaking.IsBelow (watching P n) (ofDepth n) := by
  induction n with
  | zero => exact ⟨fun _ => .refl trivial, .inl rfl⟩
  | succ n ih =>
    refine ⟨fun {α} t => ⟨trivial, fun a => ?_⟩, .inl rfl⟩
    by_cases hadmits : P.admits t a
    · have hpass : Task.runWatching P (n + 1) t a = (watching P n).step t a := congrFun (if_pos hadmits) a
      change (∃ i b, Task.runWatching P (n + 1) t a = _ ∧ _) ∨ _ = Task.runWatching P (n + 1) t a
      rw [hpass]
      exact (ih.step t).follows a
    · have hstop : Task.runWatching P (n + 1) t a = .error (.broken .missingScope) a :=
        congrFun (if_neg hadmits) a
      exact .inl ⟨_, a, hstop, _, rfl⟩

/-! ### Machines that keep environments -/

section Machines

variable {s : Environments}

/-- The machine keeps the environments whatever it evaluates in roots that are expressions, also when it
gives values to names in a new environment. -/
structure Machine.IsKeeping (m : Machine) (hs : s.IsLasting) : Prop where
  evolves : evolution.Rules m
  registers : registering.Rules m
  obeys : (sheltering hs).Obeys m
  bind : ∀ {e}, s.get? e = none → ∀ p v, Keeps s (m.run (.bind p v (some e)))

namespace Keeps

variable {α β : Type} {p : Eval α} {f : α → Eval β} {a : Agent}

/-- What is evaluated belongs to a root that is an expression. -/
theorem realm {f : Realm → Eval α} (hf : ∀ r, r.isExpressionOnly = true → Keeps s (f r)) :
    Keeps s (Eval.realm >>= f) := by
  intro a ha
  cases hc : a.contexts with
  | nil =>
    have hnone : Eval.realm a = _ := bind_error (context_of_nil hc)
    rwa [after_error (bind_error hnone)]
  | cons c rest =>
    obtain ⟨r, hr, hexpression⟩ := ha.here c (by rw [hc]; rfl)
    unfold Eval.after
    rw [bind_ok (realm_eq ⟨c, rest, hc, hr⟩)]
    exact hf r hexpression a ha

/-- What is evaluated is evaluated in a new environment. -/
theorem inside {f : EnvironmentId → Eval α} (hf : ∀ e, s.get? e = none → Keeps s (f e))
    (ha : a.HasKept s) (hnew : ∀ c ∈ a.contexts.head?, s.get? c.environment = none) :
    ((Eval.environment >>= f).after a).HasKept s := by
  cases hc : a.contexts with
  | nil =>
    have hnone : Eval.environment a = _ := bind_error (context_of_nil hc)
    rwa [after_error (bind_error hnone)]
  | cons c rest =>
    unfold Eval.after
    rw [bind_ok (environment_eq hc)]
    exact hf _ (hnew c (by rw [hc]; rfl)) a ha

/-- One computation after the other, if the second one is for a realm of an expression. -/
theorem bindIn {r : RealmId} (h : Keeps s p) (hregisters : Registering p)
    (hf : ∀ x (b : Agent), b.HasKept s → b.IsExpressionRealm r → ((f x).after b).HasKept s)
    (ha : a.HasKept s) (hr : a.IsExpressionRealm r) : ((p >>= f).after a).HasKept s := by
  rcases after_bind p f a with heq | ⟨x, -, heq⟩
  · rw [heq]
    exact h a ha
  · rw [heq]
    exact hf x _ (h a ha) ((hregisters a).isExpressionRealm hr)

end Keeps

namespace Machine.IsKeeping

variable {m : Machine} {hs : s.IsLasting} (h : m.IsKeeping hs) {a : Agent}

include h

/-- Values are given to names in a new environment. -/
theorem bindPattern {e : EnvironmentId} (he : s.get? e = none) (p : Pattern) (v : Value) :
    Keeps s (m.bindPattern p v (some e)) :=
  Law.bindPattern h.obeys v p (h.bind he) fun name v => Keeps.initializeVariable he name v

/-- **Assignments are refused**, and everything else keeps the environments. -/
theorem evaluateExpression (e : Expr) : Keeps s (m.evaluateExpression e) := by
  refine Keeps.bind (Law.record (L := sheltering hs) _) fun _ => Keeps.realm fun r hr => ?_
  split
  · exact Law.unsupported (L := sheltering hs) _ _
  · next hsupported =>
    refine Law.valueOf h.obeys e.inner fun hassigning => ?_
    have hrefused : e.inner.isUnsupported r.rules = true := by
      revert hassigning
      cases e.inner with
      | assign | update => exact fun _ => hr
      | _ => nofun
    exact absurd hrefused hsupported

/-- The names of a function are created in the environment of the call. -/
theorem enter (f : Function) (args : List Value) (ha : a.HasKept s)
    (hnew : ∀ c ∈ a.contexts.head?, s.get? c.environment = none) :
    ((m.enter f args).after a).HasKept s := by
  have hscope : Evolving (scopeAt f.span (Scope.ofFunction f)) := Law.scopeAt (L := evolution.toLaw) _ _
  have hkeeps : Keeps s (scopeAt f.span (Scope.ofFunction f)) := Law.scopeAt (L := sheltering hs) _ _
  unfold Machine.enter
  rcases after_bind (scopeAt f.span (Scope.ofFunction f)) _ a with heq | ⟨scope, -, heq⟩
  · rw [heq]
    exact hkeeps a ha
  · rw [heq]
    refine Keeps.inside (fun e he => ?_) (hkeeps a ha) ((hscope a).contexts ▸ hnew)
    have hfills := Keeps.fills hs he
    refine (sheltering hs).bind (Law.forM (fun d => hfills.createParameter d) _) fun _ => ?_
    refine (sheltering hs).bind (Law.Fills.bindParameters h.obeys (h.bind he) _ _) fun left => ?_
    refine (sheltering hs).bind (Law.Fills.bindRest (h.bind he) _ _) fun _ => ?_
    refine hfills.bodyEnvironment f (Keeps.opens hs) scope fun inner hinner => ?_
    refine Keeps.bind (Keeps.setEnvironment inner) fun _ => ?_
    refine (sheltering hs).bind (Law.forM (fun d => hinner.createLexical d) _) fun _ => ?_
    exact Law.forM (fun f => hinner.assignFunction f) _

/-- **A call of a confined closure** has an environment of its own. -/
theorem callClosure {c : Closure} (args : List Value) (ha : a.HasKept s) (hc : a.Confines c) :
    ((m.callClosure c args).after a).HasKept s := by
  obtain ⟨hr, e, hbody⟩ := hc
  refine Keeps.bindIn (Law.recordCall (L := sheltering hs) c) (Law.recordCall (L := registering.toLaw) c)
    (fun _ b hb hr => ?_) ha hr
  refine Keeps.bindIn (Law.report (L := sheltering hs) _) (Law.report (L := registering.toLaw) _)
    (fun _ b hb hr => ?_) hb hr
  -- The environment of the call is new, so that what is kept is kept beside it.
  have hmade : newEnvironment (some c.environment) b
      = .ok (b.environments.allocate ⟨some c.environment, []⟩).1
        { b with environments := (b.environments.allocate ⟨some c.environment, []⟩).2 } := rfl
  unfold Eval.after
  rw [bind_ok hmade]
  refine Keeps.inContext (hb.get?_allocate _) ?_ ?_ (fun b hb hnew => ?_) (hb.allocate _) hr
  · exact evolution.bindRoaming (GeneralLaw.enter h.evolves evolution.fills _ _) fun _ =>
      evolution.roam (GeneralLaw.body h.evolves _)
  · exact Registering.bind (GeneralLaw.enter h.registers registering.fills _ _) fun _ =>
      GeneralLaw.body h.registers _
  -- If the entry is interrupted nothing else is done; otherwise the body is an expression.
  · rcases after_bind (m.enter c.code args) _ b with heq | ⟨_, -, heq⟩
    · rw [heq]
      exact h.enter c.code args hb hnew
    · rw [heq]
      have hkeeps : Keeps s (m.body c.code) := by
        unfold Machine.body
        rw [hbody]
        exact Law.expression h.obeys e
      exact hkeeps _ (h.enter c.code args hb hnew)

theorem callFunction (f : ObjectId) (this : Value) (args : List Value) (ha : a.HasKept s)
    (hf : ∀ c, (a.object f).kind = .closure c → a.Confines c) :
    ((m.callFunction f this args).after a).HasKept s := by
  have hobject : object f a = .ok (a.object f) a := rfl
  unfold Machine.callFunction Eval.after
  rw [bind_ok hobject]
  cases hkind : (a.object f).kind with
  | closure c => exact h.callClosure args ha (hf c hkind)
  | builtin b => exact Law.callBuiltin h.obeys this args b a ha
  | ordinary | array | error => exact ha

end Machine.IsKeeping

/-- A machine that watches for calls does a task, or is stopped. -/
theorem Keeps.runWatching {n : Nat} {α : Type} {t : Task α}
    (h : ∀ a : Agent, a.HasKept s → t.IsConfined a →
      (((Machine.watching .confinement n).step t).after a).HasKept s) :
    Keeps s (Task.runWatching .confinement (n + 1) t) := by
  intro a ha
  unfold Eval.after
  by_cases hconfined : t.IsConfined a
  · have hpass : Task.runWatching .confinement (n + 1) t a
        = (Machine.watching .confinement n).step t a := congrFun (if_pos hconfined) a
    rw [hpass]
    exact h a ha hconfined
  · have hstop : Task.runWatching .confinement (n + 1) t a = .error (.broken .missingScope) a :=
      congrFun (if_neg hconfined) a
    rwa [hstop]

/-- **A machine that calls only confined closures keeps environments.** -/
theorem Machine.isKeeping_watching (hs : s.IsLasting) (n : Nat) :
    (watching .confinement n).IsKeeping hs := by
  induction n with
  | zero =>
    exact ⟨evolution.watching _ 0, registering.watching _ 0, fun _ _ _ => Keeps.throw _,
      fun _ _ _ => Keeps.throw _⟩
  | succ n ih =>
    refine ⟨evolution.watching _ _, registering.watching _ _, fun α t ht => ?_, fun he p v => ?_⟩
    · refine Keeps.runWatching fun a ha hconfined => ?_
      cases ht with
      | expression e => exact ih.evaluateExpression e a ha
      | name _ name => exact Law.resolve (L := sheltering hs) name a ha
      | link e => exact Law.evaluateLink ih.obeys e a ha
      | call f this args => exact ih.callFunction f this args ha hconfined
      | primitive o hint => exact Law.primitiveOf ih.obeys o hint a ha
    · exact Keeps.runWatching fun a ha _ => ih.bindPattern he p v a ha

end Machines

/-! ### Sessions -/

/-- The computation leaves the environments of the agent as they are. -/
def Eval.LeavesEnvironments {α : Type} (p : Eval α) (a : Agent) : Prop :=
  ∀ e x, a.environments.get? e = some x → (p.after a).environments.get? e = some x

/-- All closures of roots that are expressions have an expression as their body. -/
def Agent.IsConcise (a : Agent) : Prop :=
  ∀ o c, (a.object o).kind = .closure c → a.IsExpressionRealm c.realm → ∃ e, c.code.body = .concise e

/-- If the task is to evaluate an expression in a root that is one, an assignment is refused, and all
environments are left as they are, unless a closure that is not confined is called on the way. -/
def Task.IsSteady (a : Agent) : {α : Type} → Task α → Prop
  | _, .expression e => ∀ r, a.Evaluates r → r.isExpressionOnly = true → ∀ n,
      (e.inner.isAssigning = true → (Task.run (n + 1) (.expression e)).Throws .syntaxError a) ∧
      ((Task.run n (.expression e)).LeavesEnvironments a ∨
        ∃ x b, Task.runWatching .confinement n (.expression e) a = .error (.broken x) b)
  | _, _ => True

/-- Expressions leave environments as they are, unless closures are called that are not confined; those
of roots that are expressions are. -/
def Condition.steadiness : Condition := ⟨fun t a => a.IsConcise ∧ t.IsSteady a⟩

section

variable {φ : RealmId → Filing} {ρ : World} {K : Stack φ} {a b : Agent}

/-- **Closures of roots that are expressions have an expression as their body** in every session. -/
theorem Agrees.isConcise (h : Agrees ρ K a b) (hφ : ∀ r, (φ r).IsAccepted ∧ (φ r).IsRuled) :
    a.IsConcise := by
  rintro o c hc ⟨x, hx, hexpression⟩
  obtain ⟨⟨y, hy, hroot⟩, haccepts⟩ := h.hasAccepted hφ o c hc
  cases hx.symm.trans hy
  refine (haccepts.isArrow ?_).2
  rw [← hroot]
  unfold Realm.isExpressionOnly at hexpression
  split at hexpression
  · next hr => rw [hr]; rfl
  · cases hexpression

/-- **Expressions leave environments as they are**, unless closures are called that are not confined. -/
theorem Agrees.isSteady (h : Agrees ρ K a b) {α : Type} (t : Task α) : t.IsSteady a := by
  cases t with
  | expression e =>
    intro r hr hexpression n
    refine ⟨fun hassigning => ?_, ?_⟩
    · rw [Task.run_inner]
      refine Machine.expression_unsupported hr ?_
      revert hassigning
      cases e.inner with
      | assign | update => exact fun _ => hexpression
      | _ => nofun
    -- Environments last and are tidy, and the context is that of a root that is an expression.
    · have hlasting : a.environments.IsLasting := fun e x name v => h.environments.lasting
      have hkept : a.HasKept a.environments := by
        refine ⟨h.environments.tidy_left, fun _ _ => id, fun c hc => ?_⟩
        obtain ⟨d, rest, hcontexts, hrealm⟩ := hr
        rw [hcontexts] at hc
        cases hc
        exact ⟨r, hrealm, hexpression⟩
      -- The watched machine is stopped where a call is not confined, and does the same otherwise.
      rcases ((Machine.isBelow_watching .confinement n).run (.expression e)).follows a with
        ⟨i, c, hc, x, rfl⟩ | hsame
      · exact .inr ⟨x, c, hc⟩
      · refine .inl fun i x hx => ?_
        have hafter := (Machine.isKeeping_watching hlasting n).obeys (.expression e) a hkept
        have happly : Task.run n (.expression e) a
            = (Machine.watching .confinement n).run (.expression e) a := hsame
        rw [Eval.after, happly]
        exact hafter.records i x hx
  | _ => exact trivial

end

/-- **Expressions that are roots leave environments as they are.**  Whenever an expression is about to
be evaluated in such a root, as the root itself, as a part of it or in a later call of a function that
is written in it, then it is refused if it assigns to anything; and otherwise all environments are what
they were when its evaluation has come to an end, whichever it is.  Only a call of a closure of another
root may change them: those of roots that are expressions have an expression as their body. -/
theorem serve_steady (n : Nat) (isVerbose : Bool) (requests : List (Request × Tidying)) :
    serve (.watching .steadiness n) requests (.new isVerbose)
        = serve (.ofDepth n) requests (.new isVerbose) ∧
      ∀ x ∈ serve (.ofDepth n) requests (.new isVerbose), x.isBroken = false := by
  have hφ : ∀ r, (onFile (requests.map Prod.fst) r).IsAccepted ∧
      (onFile (requests.map Prod.fst) r).IsRuled :=
    fun r => ⟨isAccepted_onFile _ r, isRuled_onFile _ r⟩
  exact serve_watching n isVerbose fun _ hab => ⟨hab.isConcise hφ, hab.isSteady _⟩

/-- The program of the text of an expression, if it can be read and the grammar allows it; it is given
nothing. -/
def Program.ofExpression? (text : String) : Option Program :=
  let source := Source.ofString text
  match source.expression false with
  | .error _ => none
  | .ok e =>
    if h : (Root.expression e).isGrammatical ⟨true, false⟩ = true then
      some ⟨.expression e, source, ⟨[], false, false⟩, h⟩
    else none

/-- Whether the variable has the given truth value. -/
def Environments.holdsBoolean (s : Environments) (e : EnvironmentId) (name : String) (b : Bool) : Bool :=
  match (s.find? e name).bind (·.value) with
  | some (.boolean c) => c == b
  | _ => false

/-- **An expression comes to a closure that it is not given**: a function has put it on the function for
a method, and the variable that it assigns to changes when the expression is evaluated. -/
theorem expression_assigns : ∃ p q,
    Program.ofText? "function a() \x7b let n = false; [].pop.set ||= () => n ||= true \x7d" = some p ∧
    Program.ofExpression? "[].pop.set()" = some q ∧
    (Agent.ofSession 100 false
      [.load p, .invoke (.object ⟨0⟩) []]).environments.holdsBoolean ⟨2⟩ "n" false = true ∧
    (Agent.ofSession 100 false
      [.load p, .invoke (.object ⟨0⟩) [], .load q]).environments.holdsBoolean ⟨2⟩ "n" true = true := by
  have hread : (Program.ofText?
      "function a() \x7b let n = false; [].pop.set ||= () => n ||= true \x7d").any (fun p =>
        (Program.ofExpression? "[].pop.set()").any fun q =>
          (Agent.ofSession 100 false
            [.load p, .invoke (.object ⟨0⟩) []]).environments.holdsBoolean ⟨2⟩ "n" false &&
          (Agent.ofSession 100 false [.load p, .invoke (.object ⟨0⟩) [],
            .load q]).environments.holdsBoolean ⟨2⟩ "n" true) = true := by
    decide +kernel
  obtain ⟨p, hp, hread⟩ := (Option.any_eq_true ..).mp hread
  obtain ⟨q, hq, hread⟩ := (Option.any_eq_true ..).mp hread
  rw [Bool.and_eq_true] at hread
  exact ⟨p, q, hp, hq, hread⟩

end Scriptlet
