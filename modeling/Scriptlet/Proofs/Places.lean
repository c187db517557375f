import Scriptlet.Proofs.Marking
import Scriptlet.Proofs.Restoration

/-!
# Places of environments

Environments are put into free places, changed where they are, and removed; nothing else happens to
their places, whatever is evaluated and however the agent is tidied up.  Each of these leaves the list
of free places as it has to be, so it is that in every state on the way.

## Main definitions

* `Environments.Move` — what may happen to the places.
* `Environments.occupied` — the places that hold an environment.
* `placing` — the law of computations during which nothing else happens.

## Main results

* `Environments.isTidy_of_moves` — **the free places stay in order**.
* `Environments.IsTidy.count_eq` — the number of environments is that of the occupied places.
* `places_run`, `places_answer`, `places_ofRequests` — nothing else happens, whatever is evaluated.
-/

namespace Scriptlet

open Eval Relation

/-! ### Moves -/

namespace Environments

variable {s t : Environments}

/-- What may happen to the places of environments. -/
inductive Move (s : Environments) : Environments → Prop
  | new (x : Environment) : Move s (s.allocate x).2
  | change {e : EnvironmentId} {x : Environment} (hx : s.get? e = some x) (y : Environment) :
    Move s (s.set e y)
  | removal (roots : List EnvironmentId) : Move s (s.sweep roots)
  | plan (n : Nat) : Move s { s with threshold := n }

/-- **A move leaves the free places in order.** -/
theorem Move.isTidy (h : Move s t) (hs : s.IsTidy) : t.IsTidy := by
  cases h with
  | new x => exact isTidy_allocate hs x
  | change hx y => exact isTidy_set hs hx y
  | removal roots => exact isTidy_sweep hs roots
  | plan n => exact { hs with }

theorem isTidy_of_moves (h : ReflTransGen Move s t) (hs : s.IsTidy) : t.IsTidy := by
  induction h with
  | refl => exact hs
  | tail _ hmove ih => exact hmove.isTidy ih

theorem moves_collect (s : Environments) (roots : List EnvironmentId) :
    ReflTransGen Move s (s.collect roots) := by
  unfold collect
  split
  · exact .refl
  · exact (ReflTransGen.single (.removal roots)).tail (.plan _)

/-! ### Occupied places -/

/-- The places that hold an environment. -/
def occupied (s : Environments) : List Nat :=
  (List.range s.records.size).filter fun i => (s.records[i]?.join).isSome

/-- A place is free, or it is occupied. -/
theorem IsTidy.length_free (h : s.IsTidy) :
    s.free.length + s.occupied.length = s.records.size := by
  have hperm : s.free.Perm
      ((List.range s.records.size).filter fun i => !(s.records[i]?.join).isSome) := by
    refine (List.perm_ext_iff_of_nodup h.nodup (List.nodup_range.filter _)).mpr fun i => ?_
    rw [h.mem_free, List.mem_filter, List.mem_range]
    cases hi : s.records[i]? with
    | none => simp [Array.getElem?_eq_none_iff.mp hi]
    | some r =>
      have hlt := (Array.getElem?_eq_some_iff.mp hi).1
      cases r <;> simp [hlt]
  have hall := List.length_eq_length_filter_add (l := List.range s.records.size)
    fun i => (s.records[i]?.join).isSome
  rw [List.length_range] at hall
  rw [hperm.length_eq, occupied, Nat.add_comm]
  exact hall.symm

/-- **The number of environments** is that of the occupied places. -/
theorem IsTidy.count_eq (h : s.IsTidy) : s.count = s.occupied.length := by
  have hall := h.length_free
  unfold count
  omega

end Environments

/-! ### All evaluation -/

/-- The environments of the second agent come of those of the first one by moves. -/
def Agent.Places (a b : Agent) : Prop :=
  ReflTransGen Environments.Move a.environments b.environments

/-- The computation leads to what moves of environments lead to. -/
abbrev Placing {α : Type} (p : Eval α) : Prop := Leads Agent.Places p

namespace Placing

variable {α : Type} {p : Eval α}

theorem still (h : ∀ a, (p.after a).environments = a.environments) : Placing p := fun a => by
  unfold Agent.Places
  rw [h]

theorem changeObject (id : ObjectId) (f : Object → α × Object) (missing : α) :
    Placing (Eval.changeObject id f missing) := still fun a => by
  rw [after_changeObject]
  rfl

/-- An environment is changed only if it is there. -/
theorem updateEnvironment (e : EnvironmentId) (f : Environment → Environment) :
    Placing (Eval.updateEnvironment e f) := by
  intro a
  cases hx : a.environments.get? e with
  | none =>
    rw [Eval.updateEnvironment, after_error (bind_error (environmentAt_of_none hx))]
    exact .refl
  | some x =>
    rw [after_ok (updateEnvironment_apply hx f)]
    exact .single (.change hx _)

/-- The law of computations that move environments, as far as it is about what is created. -/
def creation : CreationLaw where
  Holds := Placing
  CountsOnKeys := False
  pure := fun _ => still fun _ => rfl
  throw := fun _ => still fun _ => rfl
  get := still fun _ => rfl
  bindOf := fun h hf => h.seqOf .trans fun a x b => hf a x b False.elim
  extend := fun f hf => still fun a => by
    obtain ⟨news, -, h⟩ := hf a
    exact h.environments
  newEnvironment := fun _ _ => .single (.new _)
  updateEnvironment := updateEnvironment

theorem setEnvironment (e : EnvironmentId) : Placing (Eval.setEnvironment e) := by
  refine creation.bind creation.get fun a => ?_
  split
  · exact still fun _ => rfl
  · exact creation.throw _

theorem changeArray (id : ObjectId) (f : Elements Value → α × Elements Value) (missing : α) :
    Placing (Eval.changeArray id f missing) := by
  exact creation.bind (creation.requireThawed id) fun _ => changeObject id _ missing

/-! #### What is around a computation -/

theorem ending (f : Agent → Agent) (hf : ∀ a, (f a).environments = a.environments) (h : Placing p) :
    Placing (Eval.ending p f) := fun a => by
  unfold Agent.Places
  rw [after_ending, hf]
  exact h a

theorem tidy (t : Tidying) (a : Agent) : a.Places (t.apply a) := by
  cases t with
  | nothing => exact .refl
  | removal => exact .single (.removal _)
  | collection =>
    change a.Places a.collect
    unfold Agent.collect
    split
    · exact Environments.moves_collect _ _
    · exact .refl

theorem concluding (t : Tidying) {p : Eval Value} (h : Placing p) :
    Placing (Eval.concluding t.apply p) := by
  intro a
  have hreport : ∀ (b : Agent) v, (b.reportUncaught v).environments = b.environments := by
    intro b v
    unfold Agent.reportUncaught
    split <;> rfl
  unfold Agent.Places
  rcases after_concluding t.apply p a with heq | ⟨v, heq⟩
  · exact heq ▸ (h a).trans (tidy t _)
  · rw [heq, hreport]
    exact (h a).trans (tidy t _)

end Placing

/-- **The law of computations that move environments.** -/
def placing : SessionLaw where
  Holds := Placing
  CountsOnKeys := False
  pure := Placing.creation.pure
  throw := Placing.creation.throw
  get := Placing.creation.get
  bindOf := Placing.creation.bindOf
  catching := Leads.catching .trans
  followedBy := Leads.followedBy .trans
  joining := fun _ h => Placing.creation.bind (Placing.still fun _ => rfl) fun _ =>
    Placing.ending _ (fun _ => rfl) h
  adjust := Placing.creation.adjust
  newRealm := fun _ _ => Placing.still fun _ => rfl
  allocate := Placing.creation.allocate
  method := fun _ => .method (fun _ => .refl) fun _ => .refl
  functionValue := Placing.creation.functionValue
  templateObject := fun t => Placing.creation.templateObject t fun _ _ => Placing.still fun _ => rfl
  causedError := Placing.creation.causedError
  nameFunction := fun v _ => by
    cases v with
    | object i => exact Placing.still fun _ => rfl
    | _ => exact Placing.creation.pure _
  freeze := fun v => by
    cases v with
    | object i => exact Placing.still fun _ => rfl
    | _ => exact Placing.creation.pure _
  delete := fun i _ => Placing.changeObject i _ true
  setLength := fun i _ _ => Placing.changeObject i _ false
  write := fun i k v _ hp => by
    refine Placing.creation.bind (Placing.creation.bind Placing.creation.get fun _ => ?_) fun o => ?_
    · exact Placing.creation.pure _
    · split
      · exact hp
      · exact Placing.changeObject i _ false
  define := fun i _ _ => Placing.changeObject i _ false
  changeArray := fun i f missing _ => Placing.changeArray i f missing
  growArray := fun i count f _ => Placing.creation.bind (Placing.creation.requireRoom i count)
    fun _ => Placing.changeArray i _ ()
  deleteVariable := Placing.creation.deleteVariable
  Roams := Placing
  roam := id
  bindRoaming := Placing.creation.bind
  iterateRoaming := Leads.iterate (fun _ => .refl) .trans
  setEnvironment := Placing.setEnvironment
  inEnvironment := fun e h => by
    refine Placing.creation.bind Placing.creation.environment fun old => ?_
    refine Placing.creation.bind (Placing.setEnvironment e) fun _ => ?_
    exact Placing.ending _ (environments_withEnvironmentOf old) h
  inContext := fun _ h => Placing.creation.bind (Placing.still fun _ => rfl) fun _ =>
    Placing.ending _ (fun _ => rfl) h
  newEnvironment := Placing.creation.newEnvironment
  createVariable := fun e _ _ _ => Placing.creation.updateEnvironment e _
  initializeVariable := Placing.creation.initializeVariable
  writeVariable := Placing.creation.writeVariable
  tidy := Placing.tidy
  concluding := fun t h => Placing.concluding t h

/-- **Every task moves environments.** -/
theorem places_run (n : Nat) {α : Type} (t : Task α) : Placing (Task.run n t) := placing.ofDepth n t

/-- **Whatever a host asks for moves environments.** -/
theorem places_answer (n : Nat) (r : Request) (t : Tidying) : Placing (r.answer (.ofDepth n) t) :=
  SessionLaw.answer (placing.ofDepth n) t r

/-- The environments that an agent has come to have moved there from none. -/
theorem places_ofRequests (n : Nat) (isVerbose : Bool) (requests : List (Request × Tidying)) :
    ReflTransGen Environments.Move .empty (Agent.ofRequests n isVerbose requests).environments :=
  leads_ofRequests (R := Agent.Places) (fun _ => .refl) .trans (places_answer n) isVerbose requests

end Scriptlet
