import Scriptlet.Evaluation.Run
import Scriptlet.Proofs.Statements

/-!
# Related runs

Stacks of machines agree, whatever their height.  Moreover a machine may be told to stop, as if the
state were out of order, at the first task that does not satisfy a condition; if tasks satisfy the
condition wherever agreeing agents come to corresponding ones, then such a machine agrees with one
that does not look.

## Main definitions

* `Condition` — conditions on tasks and the agents that come to them.
* `Task.runWatching`, `Machine.watching` — machines that stop where a condition fails.

## Main results

* `Machine.Agree.step` — agreeing machines do corresponding tasks in related ways.
* `Machine.agree_watching` — **machines that watch for what always holds agree with those that do
  not watch**.
* `Machine.agree_ofDepth` — machines of the same height agree.
-/

namespace Scriptlet

open Eval

variable {φ : RealmId → Filing} {m m' : Machine} {ρ : World} {K : Stack φ} {v w : Value}
  {vs ws : List Value}

/-- Functions are known to be functions. -/
theorem Related.functionObject {f g : ObjectId} (h : ρ.callable f g) :
    Related ρ K (Eval.object f) (Eval.object g)
      fun σ x y => Object.Rel σ x y ∧ x.isFunction = true :=
  get fun _ _ hab => pure ⟨hab.object_rel h.1, hab.function h.2⟩

namespace Machine.Agree

/-- **Calls of corresponding functions are related.** -/
theorem callFunction (h : m.Agree φ m') {f g : ObjectId} (hf : ρ.callable f g) (hv : ρ.value v w)
    (hvs : ρ.values vs ws) :
    Related ρ K (m.callFunction f v vs) (m'.callFunction g w ws) fun σ v w => σ.value v w := by
  refine (Related.functionObject hf).bind fun {_ x y} hle hxy => ?_
  obtain ⟨hxy, hx⟩ := hxy
  obtain ⟨kind, isExtensible, properties⟩ := x
  obtain ⟨kind', isExtensible', properties'⟩ := y
  have hkind : ObjectKind.Rel _ kind kind' := hxy.kind
  cases hkind with
  | closure hc => exact h.callClosure hc (World.values.mono hle hvs)
  | builtin b => exact h.callBuiltin b (hv.mono hle) (World.values.mono hle hvs)
  | ordinary => cases hx
  | array he => cases hx
  | error k => cases hx

/-- **Agreeing machines do corresponding tasks in related ways.** -/
theorem step (h : m.Agree φ m') {α : Type} {t t' : Task α} (ht : Task.Rel ρ K t t') :
    Related ρ K (m.step t) (m'.step t') fun σ x y => t.Result σ x y := by
  cases ht with
  | expression he => exact h.evaluateExpression he
  | name hn => exact Related.resolve _
  | link he => exact h.evaluateLink he
  | statement hs hb => exact h.evaluateStatement hs hb
  | assign ht hv => exact h.assignTarget ht hv
  | bind hp hv he => exact h.bindPattern hp hv he
  | call hf hv hvs => exact h.callFunction hf hv hvs
  | primitive ho => exact h.primitiveOf ho _

end Machine.Agree

/-! ### Watching -/

/-- Conditions on tasks and the agents that come to them. -/
structure Condition where
  /-- Whether a task of an agent satisfies the condition. -/
  admits : {α : Type} → Task α → Agent → Prop

namespace Condition

/-- Tasks satisfy the condition wherever agreeing agents come to corresponding ones, in realms with
the given filings. -/
def Holds (P : Condition) (φ : RealmId → Filing) : Prop :=
  ∀ {α : Type} {t t' : Task α} {ρ : World} {K : Stack φ} {a b : Agent},
    Task.Rel ρ K t t' → Agrees ρ K a b → P.admits t a

end Condition

open Classical in
/-- Does a task with a stack of machines of the given height; it stops, as if something were missing,
at the first task that does not satisfy the condition. -/
noncomputable def Task.runWatching (P : Condition) : Nat → {α : Type} → Task α → Eval α
  | 0, _, _ => throw .exhausted
  | n + 1, _, t => do
    if P.admits t (← get) then Machine.step ⟨fun t => Task.runWatching P n t, n⟩ t
    else throw (.broken .missingScope)

namespace Machine

/-- The machine on top of a stack of the given height that stops at the first task that does not
satisfy the condition. -/
noncomputable def watching (P : Condition) (n : Nat) : Machine :=
  ⟨fun t => Task.runWatching P n t, n⟩

/-- **Machines that watch for what always holds agree with those that do not watch.** -/
theorem agree_watching {P : Condition} (hP : P.Holds φ) (n : Nat) :
    (watching P n).Agree φ (ofDepth n) := by
  induction n with
  | zero => exact ⟨rfl, fun _ => Related.exhausted⟩
  | succ n ih =>
    refine ⟨rfl, fun {α t t' ρ K} ht a b hab => ?_⟩
    have hpass : Task.runWatching P (n + 1) t a = (watching P n).step t a :=
      congrFun (if_pos (hP ht hab)) a
    change Outcome ρ a b _ _ (Task.runWatching P (n + 1) t a) (Task.run (n + 1) t' b)
    rw [hpass]
    exact ih.step ht a b hab

/-- Machines of the same height agree. -/
theorem agree_ofDepth (n : Nat) : (ofDepth n).Agree φ (ofDepth n) := by
  induction n with
  | zero => exact ⟨rfl, fun _ => Related.exhausted⟩
  | succ n ih => exact ⟨rfl, fun ht => ih.step ht⟩

end Machine

end Scriptlet
