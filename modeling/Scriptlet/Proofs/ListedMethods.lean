import Scriptlet.Proofs.Restoration

/-!
# Listed methods

The function for a method is made when the method is first used, and it is put on a list, so that
the method is the same function from then on.  Programs come to such functions and may give
properties to them, but nothing makes another function of one or takes it off the list.  So whatever
is evaluated, what is listed for a method is that method.

## Main definitions

* `Agent.ListsMethods` — the functions that are listed for methods are those methods.
* `listing` — the law of computations that leave it so.

## Main results

* `listsMethods_run`, `listsMethods_answer` — **every task, and whatever a host asks for, leaves it
  so**.
* `listsMethods_ofRequests` — so it is in whatever agent there is.
-/

namespace Scriptlet

open Eval Relation

/-- No operation makes anything else of a built-in function. -/
theorem Object.Change.builtin {o x : Object} (h : o.Change x) {b : Builtin}
    (ho : o.kind = .builtin b) : x.kind = .builtin b := by
  obtain hkind | ⟨c, name, hkind, -⟩ := h.kind_of_not_isArray (by rw [Object.isArray, ho])
  · exact hkind.trans ho
  · cases ho.symm.trans hkind

/-- The functions that are listed for methods are those methods. -/
def Agent.ListsMethods (a : Agent) : Prop :=
  ∀ p ∈ a.methods, ∃ o, a.objects[p.2.index]? = some o ∧ o.kind = .builtin p.1

namespace Agent.ListsMethods

variable {a b : Agent}

theorem of_same (h : a.ListsMethods) (hobjects : b.objects = a.objects)
    (hmethods : b.methods = a.methods) : b.ListsMethods := by
  unfold ListsMethods
  rw [hobjects, hmethods]
  exact h

/-- The objects may change as objects do. -/
theorem of_steps (h : a.ListsMethods) (hobjects : ReflTransGen Objects.Step a.objects b.objects)
    (hmethods : b.methods = a.methods) : b.ListsMethods := by
  intro p hp
  rw [hmethods] at hp
  obtain ⟨o, ho, hkind⟩ := h p hp
  exact Objects.keeps_of_steps (fun ho hchange => hchange.builtin ho) hobjects ho hkind

/-- A method comes on the list with its function. -/
theorem cons (h : a.ListsMethods) (m : Builtin) : Agent.ListsMethods { a with
    objects := a.objects.push (.ofKind (.builtin m))
    methods := (m, ⟨a.objects.size⟩) :: a.methods } := by
  refine List.forall_mem_cons.mpr ⟨⟨_, Array.getElem?_push_size, rfl⟩, ?_⟩
  exact h.of_steps (b := { a with objects := a.objects.push (.ofKind (.builtin m)) })
    (.single (.new _)) rfl

end Agent.ListsMethods

/-- The list of methods stays, as far as this is about what is created. -/
def Agent.unlisting : CreationLaw where
  Holds := Leads fun a b => b.methods = a.methods
  CountsOnKeys := False
  pure _ _ := rfl
  throw _ _ := rfl
  get _ := rfl
  bindOf h hf := h.seqOf (fun h h' => h'.trans h) fun a x b => hf a x b False.elim
  extend f hf a := by
    obtain ⟨news, -, h⟩ := hf a
    exact h.methods
  newEnvironment _ _ := rfl
  updateEnvironment e f := by
    refine Leads.seq (fun h h' => h'.trans h) (Leads.seq (fun h h' => h'.trans h) (fun _ => rfl) ?_)
      fun _ _ => rfl
    intro a
    split <;> exact fun _ => rfl

/-- The computation leads from agents that list methods to such agents. -/
abbrev Listing {α : Type} (p : Eval α) : Prop := Leads (fun a b => a.ListsMethods → b.ListsMethods) p

namespace Listing

variable {α β : Type} {p : Eval α} {f : α → Eval β}

theorem of_evolving (h : Evolving p) (hmethods : Leads (fun a b => b.methods = a.methods) p) :
    Listing p := fun a ha => ha.of_steps (h a).objects (hmethods a)

theorem still (h : ∀ a, (p.after a).objects = a.objects ∧ (p.after a).methods = a.methods) :
    Listing p := fun a ha => ha.of_same (h a).1 (h a).2

theorem bind (h : Listing p) (hf : ∀ x, Listing (f x)) : Listing (p >>= f) :=
  h.seq (fun h h' ha => h' (h ha)) hf

theorem methods_changeObject (id : ObjectId) (f : Object → α × Object) (missing : α) (a : Agent) :
    ((Eval.changeObject id f missing).after a).methods = a.methods := by
  rw [after_changeObject]
  rfl

theorem changeObject (id : ObjectId) {f : Object → α × Object} (hf : ∀ o : Object, o.Change (f o).2)
    (missing : α) : Listing (Eval.changeObject id f missing) :=
  of_evolving (.changeObject id hf missing) (methods_changeObject id f missing)

theorem changeArray (id : ObjectId) (f : Elements Value → α × Elements Value) (missing : α) :
    Listing (Eval.changeArray id f missing) :=
  of_evolving (.changeArray id f missing) <| Agent.unlisting.bind (Agent.unlisting.requireThawed id)
    fun _ => methods_changeObject id _ missing

/-! #### What is around a computation -/

theorem ending (f : Agent → Agent)
    (hf : ∀ a, (f a).objects = a.objects ∧ (f a).methods = a.methods) (h : Listing p) :
    Listing (Eval.ending p f) := fun a ha => by
  rw [after_ending]
  exact (h a ha).of_same (hf _).1 (hf _).2

theorem same_withEnvironmentOf (e : EnvironmentId) (a : Agent) :
    (withEnvironmentOf e a).objects = a.objects ∧ (withEnvironmentOf e a).methods = a.methods := by
  unfold withEnvironmentOf
  split <;> exact ⟨rfl, rfl⟩

theorem setEnvironment (e : EnvironmentId) : Listing (Eval.setEnvironment e) := by
  refine bind (p := MonadState.get) (still fun _ => ⟨rfl, rfl⟩) fun a => ?_
  split <;> exact still fun _ => ⟨rfl, rfl⟩

theorem same_tidy (t : Tidying) (a : Agent) :
    (t.apply a).objects = a.objects ∧ (t.apply a).methods = a.methods := by
  cases t with
  | nothing | removal => exact ⟨rfl, rfl⟩
  | collection =>
    change a.collect.objects = _ ∧ a.collect.methods = _
    unfold Agent.collect
    split <;> exact ⟨rfl, rfl⟩

theorem concluding (t : Tidying) {p : Eval Value} (h : Listing p) :
    Listing (Eval.concluding t.apply p) := by
  have htidied : ∀ a : Agent, a.ListsMethods → (t.apply (p.after a)).ListsMethods := fun a ha =>
    (h a ha).of_same (same_tidy t _).1 (same_tidy t _).2
  intro a ha
  rcases after_concluding t.apply p a with heq | ⟨v, heq⟩
  · exact heq ▸ htidied a ha
  · rw [heq]
    unfold Agent.reportUncaught
    split
    · exact (htidied a ha).of_same rfl rfl
    · exact htidied a ha

end Listing

/-- **The law of computations that leave methods listed.** -/
def listing : SessionLaw where
  Holds := Listing
  CountsOnKeys := False
  pure _ _ := id
  throw _ _ := id
  get _ := id
  bindOf h hf := h.seqOf (fun h h' ha => h' (h ha)) fun a x b => hf a x b False.elim
  catching := Leads.catching fun h h' ha => h' (h ha)
  followedBy := Leads.followedBy fun h h' ha => h' (h ha)
  joining _ h := Listing.bind (Listing.still fun _ => ⟨rfl, rfl⟩) fun _ =>
    Listing.ending _ (fun _ => ⟨rfl, rfl⟩) h
  adjust _ hf := .still fun a => ⟨(hf a).objects, (hf a).methods⟩
  newRealm _ _ := .still fun _ => ⟨rfl, rfl⟩
  allocate o ho := .of_evolving (evolution.allocate o ho) (Agent.unlisting.allocate o nofun)
  method m := .method (fun _ => id) fun _ ha => ha.cons m
  functionValue f := .of_evolving (evolution.functionValue f) (Agent.unlisting.functionValue f)
  templateObject t := .of_evolving (evolution.templateObject t) <|
    Agent.unlisting.templateObject t fun _ _ _ => rfl
  causedError kind message cause := .of_evolving (evolution.causedError kind message cause)
    (Agent.unlisting.causedError kind message cause)
  nameFunction v name := .of_evolving (evolution.nameFunction v name) <| by
    cases v <;> exact fun _ => rfl
  freeze v := .of_evolving (evolution.freeze v) <| by
    cases v <;> exact fun _ => rfl
  delete i k := .changeObject i (fun _ => .delete k) true
  setLength i n _ := .changeObject i (fun _ => .setLength n) false
  write i k v _ hp := by
    refine Listing.bind (Listing.bind (fun _ => id) fun _ _ => id) fun o => ?_
    split
    · exact hp
    · exact .changeObject i (fun _ => .write k v) false
  define i k v := .changeObject i (fun _ => .define k v) false
  changeArray i f missing _ := .changeArray i f missing
  growArray i count f _ := Listing.bind (.of_evolving (Evolving.creation.requireRoom i count)
    (Agent.unlisting.requireRoom i count)) fun _ => .changeArray i _ ()
  deleteVariable e name := .of_evolving (evolution.deleteVariable e name)
    (Agent.unlisting.deleteVariable e name)
  Roams := Listing
  roam := id
  bindRoaming := Listing.bind
  iterateRoaming := Leads.iterate (fun _ => id) fun h h' ha => h' (h ha)
  setEnvironment := Listing.setEnvironment
  inEnvironment e h := by
    refine Listing.bind ?_ fun old => Listing.bind (Listing.setEnvironment e) fun _ => ?_
    · exact .of_evolving Evolving.creation.environment Agent.unlisting.environment
    · exact .ending _ (Listing.same_withEnvironmentOf old) h
  inContext _ h := Listing.bind (Listing.still fun _ => ⟨rfl, rfl⟩) fun _ =>
    Listing.ending _ (fun _ => ⟨rfl, rfl⟩) h
  newEnvironment outer := .of_evolving (evolution.newEnvironment outer) fun _ => rfl
  createVariable e name v hv := .of_evolving (evolution.createVariable e name v hv)
    (Agent.unlisting.updateEnvironment e _)
  initializeVariable e name v := .of_evolving (evolution.initializeVariable e name v)
    (Agent.unlisting.initializeVariable e name v)
  writeVariable e name v isStrict := .of_evolving (evolution.writeVariable e name v isStrict)
    (Agent.unlisting.writeVariable e name v isStrict)
  tidy t := .still (Listing.same_tidy t)
  concluding t h := Listing.concluding t h

/-- **Every task leaves methods listed.** -/
theorem listsMethods_run (n : Nat) {α : Type} (t : Task α) : Listing (Task.run n t) :=
  listing.ofDepth n t

/-- **Whatever a host asks for leaves methods listed.** -/
theorem listsMethods_answer (n : Nat) (r : Request) (t : Tidying) :
    Listing (r.answer (.ofDepth n) t) :=
  SessionLaw.answer (listing.ofDepth n) t r

/-- Whatever agent there is lists methods. -/
theorem listsMethods_ofRequests (n : Nat) (isVerbose : Bool) (requests : List (Request × Tidying)) :
    (Agent.ofRequests n isVerbose requests).ListsMethods :=
  leads_ofRequests (R := fun a b => a.ListsMethods → b.ListsMethods) (fun _ => id)
    (fun h h' ha => h' (h ha)) (listsMethods_answer n) isVerbose requests nofun

end Scriptlet
