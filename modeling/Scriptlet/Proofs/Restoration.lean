import Scriptlet.Proofs.Evolution

/-!
# Contexts after a run

Blocks, loops, handlers and calls go into other environments and into contexts of their own, and leave
them in many ways: at their end, by a jump or by a throw.  Whichever it is, what was being evaluated
before is being evaluated again.  So a handler and a finalizer find the environment in which their
statement started, and nothing is being evaluated once a host has its answer.

## Main definitions

* `Machine.HandlerStarts`, `Machine.FinalizerStarts` — where the parts of a statement start that wait
  for a throw or for the end.
* `Agent.ofRequests` — what an agent comes to when a host asks for one thing after the other.

## Main results

* `evaluation_restores` — **contexts are restored**, by every task and at every end of it.
-/

namespace Scriptlet

open Eval

namespace Machine

/-- The handler, if the block throws, starts in the contexts in which the block started; otherwise it
is not there. -/
def HandlerStarts (m : Machine) (b : Block) (h : Handler) (a : Agent) : Prop :=
  match m.block b a with
  | .error (.thrown v) c => m.guarded b (some h) a = m.handle h v c ∧ c.contexts = a.contexts
  | r => m.guarded b (some h) a = r

/-- The finalizer starts in the contexts in which the block started, whether the block with its handler
ends or throws; the run stops without it only if it is stopped. -/
def FinalizerStarts (m : Machine) (b : Block) (h : Option Handler) (last : Block) (a : Agent) : Prop :=
  match m.guarded b h a with
  | .ok _ c | .error (.thrown _) c =>
    (followedBy (m.guarded b h) (m.block last)).after a = (m.block last).after c ∧
      c.contexts = a.contexts
  | .error _ c => (followedBy (m.guarded b h) (m.block last)).after a = c

end Machine

/-- What an agent that had nothing has come to after a host has asked for one thing after the other,
and has tidied the agent up after each. -/
def Agent.ofRequests (n : Nat) (isVerbose : Bool) (requests : List (Request × Tidying)) : Agent :=
  requests.foldl (fun a x => (x.1.answer (.ofDepth n) x.2).after a) (.new isVerbose)

/-- Whatever relation the answers to requests lead along, agents have come along it from nothing. -/
theorem leads_ofRequests {R : Agent → Agent → Prop} (hrefl : ∀ a, R a a)
    (htrans : ∀ {a b c}, R a b → R b c → R a c) {n : Nat}
    (h : ∀ (r : Request) (t : Tidying), Leads R (r.answer (.ofDepth n) t)) (isVerbose : Bool)
    (requests : List (Request × Tidying)) :
    R (.new isVerbose) (.ofRequests n isVerbose requests) := by
  suffices hall : ∀ (l : List (Request × Tidying)) (a : Agent),
      R a (l.foldl (fun a x => (x.1.answer (.ofDepth n) x.2).after a) a) from
    hall requests (.new isVerbose)
  intro l
  induction l with
  | nil => exact hrefl
  | cons x l ih => exact fun a => htrans (h x.1 x.2 a) (ih _)

variable {m : Machine}

/-- A block that leaves the contexts as they were leaves them to its handler. -/
theorem handlerStarts {b : Block} (hb : Evolving (m.block b)) (h : Handler) (a : Agent) :
    m.HandlerStarts b h a := by
  have hguarded : m.guarded b (some h) a = catching (m.block b) (m.handle h) a := rfl
  have hcontexts := (hb a).contexts
  unfold Machine.HandlerStarts
  rw [after] at hcontexts
  rw [hguarded, catching]
  cases hr : m.block b a with
  | ok r c => rfl
  | error i c =>
    rw [hr] at hcontexts
    cases i with
    | thrown v => exact ⟨rfl, hcontexts⟩
    | exhausted | broken => rfl

/-- A block with its handler that leaves the contexts as they were leaves them to its finalizer. -/
theorem finalizerStarts {b : Block} {h : Option Handler} (hb : Evolving (m.guarded b h))
    (last : Block) (a : Agent) : m.FinalizerStarts b h last a := by
  have hcontexts := (hb a).contexts
  unfold Machine.FinalizerStarts
  rw [after] at hcontexts
  rw [after_followedBy_eq]
  cases hr : m.guarded b h a with
  | ok r c =>
    rw [hr] at hcontexts
    exact ⟨rfl, hcontexts⟩
  | error i c =>
    rw [hr] at hcontexts
    cases i with
    | thrown v => exact ⟨rfl, hcontexts⟩
    | exhausted | broken => rfl

/-- **Evaluation restores what is being evaluated.**  Whatever comes of a task — an end, a jump, a throw
— the contexts and the arrays that are being joined are those before it.  So are they whatever a host
asks for, and there are none between its requests; and handlers and finalizers start where their
statement started. -/
theorem evaluation_restores (n : Nat) :
    (∀ {α : Type} (t : Task α) (a : Agent), ((Task.run n t).after a).contexts = a.contexts ∧
      ((Task.run n t).after a).joining = a.joining) ∧
    (∀ (r : Request) (t : Tidying) (a : Agent),
      ((r.answer (.ofDepth n) t).after a).contexts = a.contexts ∧
        ((r.answer (.ofDepth n) t).after a).joining = a.joining) ∧
    (∀ isVerbose requests, (Agent.ofRequests n isVerbose requests).contexts = [] ∧
      (Agent.ofRequests n isVerbose requests).joining = []) ∧
    ∀ (b : Block) (a : Agent), (∀ h, (Machine.ofDepth n).HandlerStarts b h a) ∧
      ∀ h last, (Machine.ofDepth n).FinalizerStarts b h last a := by
  have hanswer := fun r t a => evolves_answer n r t a
  have hm : evolution.Rules (.ofDepth n) := evolution.ofDepth n
  refine ⟨fun t a => ?_, fun r t a => ⟨(hanswer r t a).contexts, (hanswer r t a).joining⟩, ?_,
    fun b a => ⟨fun h => handlerStarts (GeneralLaw.block hm b) h a, fun h last =>
      finalizerStarts (GeneralLaw.guarded hm b h) last a⟩⟩
  · exact ⟨(evolves_run n t a).contexts, (evolves_run n t a).joining⟩
  · intro isVerbose requests
    suffices hall : ∀ (l : List (Request × Tidying)) (a : Agent),
        a.Evolves (l.foldl (fun a x => (x.1.answer (.ofDepth n) x.2).after a) a) from
      ⟨(hall requests (.new isVerbose)).contexts, (hall requests (.new isVerbose)).joining⟩
    intro l
    induction l with
    | nil => exact .refl
    | cons x l ih => exact fun a => (hanswer x.1 x.2 a).trans (ih _)

end Scriptlet
