import Scriptlet.Proofs.CountingLoops
import Scriptlet.Proofs.FunctionEntry

/-!
# Calls of functions

A call makes an environment inside that of the closure and enters the function there.  In a session
whose functions declare no name twice, the names that this makes are those which the parameters and the
body ask for, whenever a closure is called.  No closure that there is when the parameters have their
values sees the names of a body that has an environment of its own.

## Main definitions

* `Closure.opening`, `Closure.Opens` — what a call does before the function is entered.
* `Closure.IsEntered` — a call, and the names that it makes.
* `Condition.entries` — functions are entered as their parameters say.

## Main results

* `Closure.isEntered` — **a closure of a session is entered as its parameters say**.
* `function_enters` — **functions are entered as their parameters say**, in every session.
* `parameter_writes_seen` — what the body assigns to a parameter is seen, if it does not declare it
  again.
-/

namespace Scriptlet

open Eval

variable {a b : Agent} {e : EnvironmentId} {c : Closure}

/-! ### What comes before the function -/

/-- What a call of a closure does before the function is entered: its environment is made. -/
def Closure.opening (c : Closure) : Eval EnvironmentId := do
  recordCall c
  report (.calling c.name)
  newEnvironment (some c.environment)

/-- The agent evaluates something in the context. -/
def Agent.inside (a : Agent) (c : Context) : Agent := { a with contexts := c :: a.contexts }

/-- An environment without names has been made inside that of the closure. -/
structure Closure.Opens (c : Closure) (e : EnvironmentId) (a b : Agent) : Prop where
  fresh : a.environments.get? e = none
  record : b.environments.get? e = some ⟨some c.environment, []⟩
  others : ∀ i, i ≠ e → b.environments.get? i = a.environments.get? i
  contexts : b.contexts = a.contexts
  objects : b.objects = a.objects

theorem Machine.callClosure_eq (m : Machine) (c : Closure) (args : List Value) :
    m.callClosure c args = c.opening >>= fun e => inContext ⟨c.realm, e⟩ (do
      m.enter c.code args
      m.body c.code) := by
  unfold callClosure Closure.opening
  simp only [bind_assoc]

/-- Calls are recorded in realms that are there. -/
theorem recordCall_eq {r : Realm} (hr : a.realms[c.realm.index]? = some r) :
    ∃ trace, recordCall c a = .ok () { a with trace := trace } := by
  unfold recordCall recordIn
  split
  · rw [bind_ok (realmAt_eq hr)]
    split
    · exact ⟨_, rfl⟩
    · exact ⟨a.trace, rfl⟩
  · exact ⟨a.trace, rfl⟩

theorem Closure.opens (ha : a.environments.IsTidy) {r : Realm}
    (hr : a.realms[c.realm.index]? = some r) :
    ∃ e b, c.opening a = .ok e b ∧ c.Opens e a b := by
  obtain ⟨trace, hrecord⟩ := recordCall_eq (c := c) hr
  have hreport : ∀ d : Agent, ∃ reports, report (.calling c.name) d = .ok () { d with reports := reports } := by
    intro d
    change ∃ reports, EStateM.Result.ok () (if d.isVerbose then _ else _) = _
    split
    · exact ⟨_, rfl⟩
    · exact ⟨d.reports, rfl⟩
  obtain ⟨reports, hreport⟩ := hreport { a with trace := trace }
  obtain ⟨e, b, hmade⟩ : ∃ e b, newEnvironment (some c.environment)
      { a with trace := trace, reports := reports } = .ok e b := ⟨_, _, rfl⟩
  obtain ⟨hfresh, hthere, hothers, hcontexts, hobjects⟩ :=
    newEnvironment_ok (a := { a with trace := trace, reports := reports }) ha hmade
  refine ⟨e, b, ?_, hfresh, hthere, hothers, hcontexts, hobjects⟩
  unfold opening
  rw [bind_ok hrecord, bind_ok hreport, hmade]

/-! ### Entries -/

/-- **A call, and the names that it makes.**  An environment is made inside that of the closure, and the
function is entered in it; then its body is evaluated in the environment that it has come to.  If it has
one of its own, then no closure that there is when the parameters have their values sees the names of
the body, neither now nor later; a parameter that the body does not declare again is the same variable
for all of them. -/
structure Closure.IsEntered (c : Closure) (n : Nat) (args : List Value) (a : Agent) (e : EnvironmentId)
    (b : Agent) : Prop where
  opens : c.Opens e a b
  calls : (Machine.ofDepth n).callClosure c args a = inContext ⟨c.realm, e⟩ (do
    (Machine.ofDepth n).enter c.code args
    (Machine.ofDepth n).body c.code) b
  plain : c.code.hasParameterExpressions = false → ∀ d,
    (Machine.ofDepth n).enter c.code args (b.inside ⟨c.realm, e⟩) = .ok () d →
    c.code.EntersPlain args ⟨c.realm, e⟩ (b.inside ⟨c.realm, e⟩) d
  nested : c.code.hasParameterExpressions = true → ∀ d,
    (Machine.ofDepth n).enter c.code args (b.inside ⟨c.realm, e⟩) = .ok () d →
    ∃ filled inner, c.code.EntersNested (.ofDepth n) args ⟨c.realm, e⟩ a.contexts
        (b.inside ⟨c.realm, e⟩) d filled inner ∧
      (∀ o x, (filled.object o).kind = .closure x → ∀ t, d.environments.Stay t → ∀ name,
        t.holder name x.environment ≠ .environment inner) ∧
      ∀ name ∈ c.code.parameterNames, d.environments.holder name e = .environment e ∧
        (name ∉ c.code.varNames → (∀ k, ¬c.code.DeclaresInBody name k) →
          d.environments.holder name inner = .environment e)

section Agreement

variable {φ : RealmId → Filing} {ρ : World} {K : Stack φ} {α β : Type} {p : Eval α} {q : Eval β}

/-- What a computation leaves agrees with what a related one leaves. -/
theorem Related.agrees_of_ok {R : World → α → β → Prop} (h : Related ρ K p q R) (hab : Agrees ρ K a b)
    {x : α} {d : Agent} (hp : p a = .ok x d) :
    ∃ σ y d', ρ ≤ σ ∧ Agrees σ K d d' ∧ R σ x y := by
  have houtcome := h a b hab
  rw [hp] at houtcome
  generalize q b = o at houtcome
  cases houtcome with
  | ok ext h => exact ⟨_, _, _, ext.le, h⟩

/-- What a roaming computation leaves agrees with what a related one leaves. -/
theorem Roams.agrees_of_ok {k : Context × Context}
    {R : World → EnvironmentId → EnvironmentId → α → β → Prop} (h : Roams ρ k K p q R)
    (hab : Agrees ρ (K.push k) a b) {x : α} {d : Agent} (hp : p a = .ok x d) :
    ∃ σ i j d', Agrees σ (K.push (moved k i j)) d d' := by
  have houtcome := h a b hab
  rw [hp] at houtcome
  generalize q b = o at houtcome
  cases houtcome with
  | ok ext h =>
    obtain ⟨i, j, hagree, -⟩ := h
    exact ⟨_, i, j, _, hagree⟩

variable {d : Closure} {vs ws : List Value}

/-- The environments that calls of corresponding closures make correspond. -/
theorem Related.opening (h : Closure.Rel ρ c d) :
    Related ρ K c.opening d.opening fun σ e e' => σ.environment e e' ∧
      (σ.plan e).outer = some c.environment ∧ (σ.plan e).allows = c.code.firstNames := by
  refine (Related.recordCall h).bind fun hle₁ _ => (Related.report _ _).bind fun hle₂ _ => ?_
  exact Related.newEnvironment (.some ((World.le_trans hle₁ hle₂).environment h.environment)) _

/-- **A closure of a session is entered as its parameters say**, if no function declares a name twice. -/
theorem Closure.isEntered {φ : RealmId → Filing} {ρ : World} {K : Stack φ} (hab : Agrees ρ K a b)
    (honce : DeclareOnce φ) {f : ObjectId} (hf : (a.object f).kind = .closure c)
    (hv : ρ.values vs ws) (n : Nat) : ∃ e made, c.IsEntered n vs a e made := by
  obtain ⟨d, hcd⟩ := hab.closure_rel hf
  obtain ⟨r, -, hr, -, -⟩ := hab.realm hcd.realm
  obtain ⟨e, made, hmade, hopens⟩ := Closure.opens hab.environments.tidy_left hr
  -- The call makes its environment where agents agree.
  obtain ⟨σ, e', made', hle, hagree, he, houter, hallows⟩ :=
    (Related.opening hcd).agrees_of_ok hab hmade
  have hinside := hagree.push (c := (⟨c.realm, e⟩, ⟨d.realm, e'⟩)) ⟨hle.realm hcd.realm, he⟩
  change Agrees _ _ (made.inside ⟨c.realm, e⟩) _ at hinside
  obtain ⟨S, hS, hn⟩ := hcd.around
  have hn : (σ.filing c.realm).Covers (c.code.innerNotes ⟨(σ.filing c.realm).rules, S⟩) := by
    rw [hle.filing]
    exact hn
  have hcode : c.code.declaresOnce = true := hab.isOrderly honce f c.code (by
    rw [Object.code?, hf])
  have hm := Machine.agree_ofDepth (φ := φ) n
  have hcontexts : (made.inside ⟨c.realm, e⟩).contexts = ⟨c.realm, e⟩ :: a.contexts := by
    rw [← hopens.contexts]
    rfl
  have hsound : (made.inside ⟨c.realm, e⟩).environments.IsSound :=
    ⟨hinside.environments.tidy_left, hinside.lasting⟩
  refine ⟨e, made, hopens, ?_, fun hplain last hlast => ?_, fun hnested last hlast => ?_⟩
  · rw [Machine.callClosure_eq, bind_ok hmade]
  · obtain ⟨v, filled, hreceive, hprepare⟩ := Machine.enter_ok hcontexts hlast
    exact entersPlain_of_ok hcode hplain hcontexts hopens.record hreceive hprepare
  · obtain ⟨v, filled, hreceive, hprepare⟩ := Machine.enter_ok hcontexts hlast
    obtain ⟨τ, i, j, last', hend⟩ := (hm.enter he houter hallows (hS.mono hle) hn
      (World.values.mono hle hv)).agrees_of_ok hinside hlast
    obtain ⟨inner, henters⟩ := entersNested_of_ok hcode hnested hsound hcontexts hopens.record
      (hend.isOrderly honce) hreceive hprepare
    obtain ⟨τ', -, filled', -, hfilled, -⟩ := (hm.receive he houter hallows (hS.mono hle) hn
      (World.values.mono hle hv)).agrees_of_ok hinside hreceive
    refine ⟨filled, inner, henters, fun o x hx t ht name => ?_, fun name hname => henters.shared hname⟩
    -- What a closure is inside of is there already, and the environment of the body is not.
    obtain ⟨y, hxy⟩ := hfilled.closure_rel hx
    exact henters.unseen (hfilled.environments.misses henters.fresh _ _ hxy.environment) ht name

end Agreement

/-! ### Sessions -/

/-- If the task is to call a closure, this is entered as its parameters say, whatever the height of the
machine. -/
def Task.Enters (a : Agent) : {α : Type} → Task α → Prop
  | _, .call f _ args => ∀ c, (a.object f).kind = .closure c → ∀ n, ∃ e b, c.IsEntered n args a e b
  | _, _ => True

/-- The condition that functions are entered as their parameters say. -/
def Condition.entries : Condition := ⟨fun t a => t.Enters a⟩

/-- **Functions are entered as their parameters say** wherever agreeing agents come to a call. -/
theorem Condition.entries_holds {φ : RealmId → Filing} (honce : DeclareOnce φ) :
    Condition.entries.Holds φ := by
  intro α t t' ρ K a b ht hab
  cases ht with
  | call hf hv hvs => exact fun c hc n => Closure.isEntered hab honce hc hvs n
  | _ => exact trivial

section

variable (n : Nat) (isVerbose : Bool) (requests : List (Request × Tidying))

/-- **A function is entered as its parameters say**, in every session whose functions declare no name
twice.  A call makes an environment inside that of the closure.  If the parameters are names and nothing
more, all names of the function are made there.  Otherwise the parameters get their values there from
left to right, and the names of the body are made in another environment inside that one; a variable of
the body with the name of a parameter starts with its value.  No closure that there is when the
parameters have their values sees the names of the body, neither now nor later. -/
theorem function_enters (h : ∀ p, .load p ∈ requests.map Prod.fst → p.declaresOnce = true) :
    serve (.watching .entries n) requests (.new isVerbose)
        = serve (.ofDepth n) requests (.new isVerbose) ∧
      ∀ x ∈ serve (.ofDepth n) requests (.new isVerbose), x.isBroken = false :=
  serve_watching n isVerbose (Condition.entries_holds (declareOnce_onFile h))

end

/-- A closure of the parameters that does not see what the body gives to its own variable of the name. -/
theorem function_enters_default : ∃ p, Program.ofText?
      "function f(a, g = () => a) \x7b var a = true; return g() \x7d" = some p ∧
    p.filing?.isSome = true ∧ p.declaresOnce = true ∧
    serve (.watching .entries 100) [(.load p, .nothing),
        (.invoke (.object ⟨0⟩) [.boolean false], .nothing)] (.new false)
      = serve (.ofDepth 100) [(.load p, .nothing),
        (.invoke (.object ⟨0⟩) [.boolean false], .nothing)] (.new false) ∧
    ∃ x ∈ serve (.ofDepth 100) [(.load p, .nothing),
      (.invoke (.object ⟨0⟩) [.boolean false], .nothing)] (.new false), x.isBoolean false = true := by
  have hread : (Program.ofText?
      "function f(a, g = () => a) \x7b var a = true; return g() \x7d").any (fun p =>
      p.filing?.isSome && p.declaresOnce && (serve (.ofDepth 100) [(.load p, .nothing),
        (.invoke (.object ⟨0⟩) [.boolean false], .nothing)] (.new false)).any (·.isBoolean false))
        = true := by decide +kernel
  obtain ⟨p, hp, hcalled⟩ := (Option.any_eq_true ..).mp hread
  rw [Bool.and_eq_true, Bool.and_eq_true, List.any_eq_true] at hcalled
  refine ⟨p, hp, hcalled.1.1, hcalled.1.2, (function_enters 100 false _ fun q hq => ?_).1, hcalled.2⟩
  rcases List.mem_cons.mp hq with hq | hq
  · cases hq
    exact hcalled.1.2
  · cases List.mem_singleton.mp hq

/-- Whether the answer is a number. -/
def Answer.isNumber : Answer → Bool
  | .returned [.number _] _ => true
  | _ => false

/-- **What is made with the parameters sees what the body does to them**, if it does not declare them
again: a closure finds a number where a truth value was passed.  A parameter that is declared by let as
well does not have its argument. -/
theorem parameter_writes_seen :
    (∃ p, Program.ofText? "function f(a, g = () => a) \x7b a++; return g() \x7d" = some p ∧
      p.filing?.isSome = true ∧ p.declaresOnce = true ∧
      ∃ x ∈ serve (.ofDepth 100) [(.load p, .nothing),
        (.invoke (.object ⟨0⟩) [.boolean true], .nothing)] (.new false), x.isNumber = true) ∧
    ∃ p, Program.ofText? "function f(a) \x7b return a; let a \x7d" = some p ∧
      p.filing?.isSome = true ∧ p.declaresOnce = false ∧
      ∀ x ∈ serve (.ofDepth 100) [(.load p, .nothing),
        (.invoke (.object ⟨0⟩) [.boolean true], .nothing)] (.new false), x.isBoolean true = false := by
  have hseen : (Program.ofText? "function f(a, g = () => a) \x7b a++; return g() \x7d").any
      (fun p => p.filing?.isSome && p.declaresOnce && (serve (.ofDepth 100) [(.load p, .nothing),
        (.invoke (.object ⟨0⟩) [.boolean true], .nothing)] (.new false)).any (·.isNumber)) = true := by
    decide +kernel
  have hlost : (Program.ofText? "function f(a) \x7b return a; let a \x7d").any
      (fun p => p.filing?.isSome && !p.declaresOnce && (serve (.ofDepth 100) [(.load p, .nothing),
        (.invoke (.object ⟨0⟩) [.boolean true], .nothing)] (.new false)).all fun x => !x.isBoolean true)
        = true := by decide +kernel
  obtain ⟨p, hp, hcalled⟩ := (Option.any_eq_true ..).mp hseen
  obtain ⟨q, hq, hfailed⟩ := (Option.any_eq_true ..).mp hlost
  rw [Bool.and_eq_true, Bool.and_eq_true, List.any_eq_true] at hcalled
  rw [Bool.and_eq_true, Bool.and_eq_true, Bool.not_eq_true', List.all_eq_true] at hfailed
  refine ⟨⟨p, hp, hcalled.1.1, hcalled.1.2, hcalled.2⟩, q, hq, hfailed.1.1, hfailed.1.2, fun x hx => ?_⟩
  simpa using hfailed.2 x hx

end Scriptlet
