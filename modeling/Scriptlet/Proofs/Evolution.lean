import Mathlib.Logic.Relation
import Scriptlet.Proofs.CreationLaws
import Scriptlet.Proofs.GeneralLaws

/-!
# What runs do to objects and contexts

Whatever is evaluated and whatever comes of it, afterwards the contexts are what they were before, and
so are the arrays whose texts are being put together.  The objects are not, but they change by single
operations only, of which there are few: new objects come to be, and each of the others is written to,
extended, frozen or named by operations that look at the object as it is then.

A state in the middle of a run is one between two of these operations.  So what each of them leaves as
it is stays so from any such state on, whatever code is called meanwhile.

## Main definitions

* `Object.Change`, `Objects.Step` — the operations.
* `Agent.Evolves` — objects by single operations, the same contexts.
* `Agent.Wanders` — the innermost context may have another environment.
* `evolution` — the law of computations by which agents evolve.

## Main results

* `Objects.keeps_of_steps` — what each operation keeps, any number of them keep.
* `evolves_run`, `evolves_answer` — **agents evolve by every task and whatever a host asks for**.
-/

namespace Scriptlet

open Eval Relation

/-- What a single operation makes of an object. -/
inductive Object.Change (o : Object) : Object → Prop
  | write (k : PropertyKey) (v : Value) : Change o (o.write k v).2
  | define (k : PropertyKey) (v : Value) : Change o (o.define k v).2
  | delete (k : PropertyKey) : Change o (o.delete k).2
  | setLength (n : Nat) : Change o (o.setLength n).2
  | setElements {e : Elements Value} (hkind : o.kind = .array e) (hthawed : e.isFrozen = false)
    (e' : Elements Value) : Change o { o with kind := .array e' }
  | freeze : Change o o.freeze
  | withName (name : String) : Change o (o.withName name)

/-- Only of an array an operation makes another kind of object, but for the names of closures. -/
theorem Object.Change.kind_of_not_isArray {o x : Object} (h : o.Change x) (harray : o.isArray = false) :
    x.kind = o.kind ∨
      ∃ c name, o.kind = .closure c ∧ x.kind = .closure (c.withName name) := by
  have helement : ∀ k, o.elementIndex? k = none := by
    intro k
    rw [Object.elementIndex?, harray]
    rfl
  have hnone : ∀ e, o.kind ≠ .array e := by
    intro e he
    rw [Object.isArray, he] at harray
    cases harray
  cases h with
  | write k v => exact .inl (Object.kind_write (helement k))
  | define k v => exact .inl (Object.kind_define (helement k))
  | delete k =>
    obtain ⟨kind, isExtensible, properties⟩ := o
    cases kind with
    | array e => exact absurd rfl (hnone e)
    | _ => exact .inl (Object.kind_deleteListed _ k)
  | setLength n =>
    obtain ⟨kind, isExtensible, properties⟩ := o
    cases kind with
    | array e => exact absurd rfl (hnone e)
    | _ => exact .inl rfl
  | setElements he _ _ => exact absurd he (hnone _)
  | freeze =>
    obtain ⟨kind, isExtensible, properties⟩ := o
    cases kind with
    | array e => exact absurd rfl (hnone e)
    | _ => exact .inl rfl
  | withName name =>
    obtain ⟨kind, isExtensible, properties⟩ := o
    cases kind with
    | closure c => exact .inr ⟨c, name, rfl, rfl⟩
    | _ => exact .inl rfl

/-- What a single operation makes of the objects that there are. -/
inductive Objects.Step (objects : Array Object) : Array Object → Prop
  | new (o : Object) : Step objects (objects.push o)
  | change (id : ObjectId) {o o' : Object} (ho : objects[id.index]? = some o) (h : o.Change o') :
    Step objects (objects.setIfInBounds id.index o')

section Steps

variable {P : Object → Prop} {l l' : Array Object} {i : Nat} {o : Object}

/-- What every operation on an object keeps, a single operation on the objects keeps. -/
theorem Objects.Step.keeps (hP : ∀ {x y : Object}, P x → x.Change y → P y)
    (h : Objects.Step l l') (ho : l[i]? = some o) (hs : P o) : ∃ x, l'[i]? = some x ∧ P x := by
  cases h with
  | new y =>
    obtain ⟨hlt, -⟩ := Array.getElem?_eq_some_iff.mp ho
    exact ⟨o, by rw [Array.getElem?_push, if_neg (Nat.ne_of_lt hlt), ho], hs⟩
  | change id hid hchange =>
    by_cases hi : id.index = i
    · subst hi
      obtain ⟨hlt, -⟩ := Array.getElem?_eq_some_iff.mp ho
      cases ho.symm.trans hid
      exact ⟨_, by rw [Array.getElem?_setIfInBounds, if_pos rfl, if_pos hlt], hP hs hchange⟩
    · exact ⟨o, by rw [Array.getElem?_setIfInBounds, if_neg hi, ho], hs⟩

/-- What every operation on an object keeps, any number of operations on the objects keep. -/
theorem Objects.keeps_of_steps (hP : ∀ {x y : Object}, P x → x.Change y → P y)
    (h : ReflTransGen Objects.Step l l') (ho : l[i]? = some o) (hs : P o) :
    ∃ x, l'[i]? = some x ∧ P x := by
  induction h with
  | refl => exact ⟨o, ho, hs⟩
  | tail _ hstep ih =>
    obtain ⟨x, hx, hPx⟩ := ih
    exact hstep.keeps hP hx hPx

end Steps

/-- The objects change by single operations, and the same is being evaluated. -/
structure Agent.Evolves (a b : Agent) : Prop where
  objects : ReflTransGen Objects.Step a.objects b.objects
  joining : b.joining = a.joining
  contexts : b.contexts = a.contexts

/-- The objects change by single operations, and the same is being evaluated, in another environment
at most. -/
structure Agent.Wanders (a b : Agent) : Prop where
  objects : ReflTransGen Objects.Step a.objects b.objects
  joining : b.joining = a.joining
  outer : b.contexts.tail = a.contexts.tail
  realms : b.contexts.map (·.realm) = a.contexts.map (·.realm)

variable {a b c : Agent}

namespace Agent

theorem Evolves.refl (a : Agent) : a.Evolves a := ⟨.refl, rfl, rfl⟩

theorem Evolves.trans (h : a.Evolves b) (h' : b.Evolves c) : a.Evolves c :=
  ⟨h.objects.trans h'.objects, h'.joining.trans h.joining, h'.contexts.trans h.contexts⟩

theorem Evolves.wanders (h : a.Evolves b) : a.Wanders b :=
  ⟨h.objects, h.joining, by rw [h.contexts], by rw [h.contexts]⟩

theorem Wanders.refl (a : Agent) : a.Wanders a := (Evolves.refl a).wanders

theorem Wanders.trans (h : a.Wanders b) (h' : b.Wanders c) : a.Wanders c :=
  ⟨h.objects.trans h'.objects, h'.joining.trans h.joining, h'.outer.trans h.outer,
    h'.realms.trans h.realms⟩

/-- Objects, contexts and what is being joined are all that counts. -/
theorem Evolves.of_same (hobjects : b.objects = a.objects) (hjoining : b.joining = a.joining)
    (hcontexts : b.contexts = a.contexts) : a.Evolves b :=
  ⟨hobjects ▸ .refl, hjoining, hcontexts⟩

/-- New objects come to be one after the other. -/
theorem Extends.evolves {news : List Object} (h : a.Extends b news) : a.Evolves b := by
  have hsteps : ∀ (news : List Object) (l : Array Object),
      ReflTransGen Objects.Step l (l ++ news) := by
    intro news
    induction news with
    | nil => exact fun l => by simpa using ReflTransGen.refl
    | cons o news ih => exact fun l => .head (.new o) (by simpa using ih (l.push o))
  exact ⟨h.objects ▸ hsteps news a.objects, h.joining, h.contexts⟩

/-- A change of one object. -/
theorem evolves_modifyObject (a : Agent) (id : ObjectId) {f : Object → Object}
    (hf : ∀ o, a.objects[id.index]? = some o → o.Change (f o)) : a.Evolves (a.modifyObject id f) := by
  refine ⟨?_, rfl, rfl⟩
  by_cases h : id.index < a.objects.size
  · rw [modifyObject_eq h, object_eq_getD, Array.getElem?_eq_getElem h]
    exact .single (.change id (Array.getElem?_eq_getElem h) (hf _ (Array.getElem?_eq_getElem h)))
  · rw [modifyObject_of_same fun x hx => absurd (Array.getElem?_eq_some_iff.mp hx).1 h]

end Agent

/-! ### Primitives -/

/-- The computation leads to what agents evolve to. -/
abbrev Evolving {α : Type} (p : Eval α) : Prop := Leads Agent.Evolves p

namespace Evolving

variable {α β σ : Type} {p : Eval α} {f : α → Eval β}

theorem pure (x : α) : Evolving (Pure.pure x : Eval α) := fun a => .refl a

theorem throw (i : Interrupt) : Evolving (throw i : Eval α) := fun a => .refl a

theorem get : Evolving (MonadState.get : Eval Agent) := fun a => .refl a

theorem bind (h : Evolving p) (hf : ∀ x, Evolving (f x)) : Evolving (p >>= f) := h.seq .trans hf

theorem modifyObject (id : ObjectId) {f : Object → Object} (hf : ∀ o : Object, o.Change (f o)) :
    Evolving (Eval.modifyObject id f) := fun a => a.evolves_modifyObject id fun o _ => hf o

theorem changeObject (id : ObjectId) {f : Object → α × Object} (hf : ∀ o : Object, o.Change (f o).2)
    (missing : α) : Evolving (Eval.changeObject id f missing) := fun a => by
  rw [after_changeObject]
  exact a.evolves_modifyObject id fun o _ => hf o

/-- **The law of computations by which agents evolve**, as far as it is about what is created. -/
def creation : CreationLaw where
  Holds := Evolving
  CountsOnKeys := False
  pure := pure
  throw := throw
  get := get
  bindOf := fun h hf => h.seqOf .trans fun a x b => hf a x b False.elim
  extend := fun f hf a => by
    obtain ⟨news, -, h⟩ := hf a
    exact h.evolves
  newEnvironment := fun _ _ => .of_same rfl rfl rfl
  updateEnvironment := fun e f => by
    refine bind (bind get fun a => ?_) fun _ => fun _ => .of_same rfl rfl rfl
    split
    · exact pure _
    · exact throw _

/-- Only the elements of an array that is not frozen are changed. -/
theorem changeArray (id : ObjectId) (f : Elements Value → α × Elements Value) (missing : α) :
    Evolving (Eval.changeArray id f missing) := by
  intro a
  rcases after_bind (Eval.requireThawed id)
    (fun _ => Eval.changeObject id (·.changeElements f missing) missing) a with heq | ⟨x, hx, heq⟩
  · exact heq ▸ creation.requireThawed id a
  -- A frozen array was refused before: what is changed here is a thawed one.
  · obtain ⟨hsame, hthawed⟩ := requireThawed_ok hx
    change a.Evolves (Eval.after (_ >>= _) a)
    rw [heq, hsame, after_changeObject]
    obtain ⟨e, hkind⟩ | hother :
        (∃ e, (a.object id).kind = .array e) ∨ ∀ e, (a.object id).kind ≠ .array e := by
      cases (a.object id).kind with
      | array e => exact .inl ⟨e, rfl⟩
      | _ => exact .inr nofun
    · refine a.evolves_modifyObject id fun o ho => ?_
      rw [Agent.elements, Object.elements?, hkind] at hthawed
      rw [Agent.object_eq_getD, ho, Option.getD_some] at hkind
      obtain ⟨kind, isExtensible, properties⟩ := o
      cases hkind
      exact .setElements rfl hthawed _
    · rw [Agent.modifyObject_of_same fun o ho => ?_]
      · exact .refl a
      · rw [Agent.object_eq_getD, ho, Option.getD_some] at hother
        obtain ⟨kind, isExtensible, properties⟩ := o
        cases kind with
        | array e => exact absurd rfl (hother e)
        | _ => rfl

/-- **What is being joined** is what it was when the joining is over. -/
theorem joining (o : ObjectId) (h : Evolving p) : Evolving (do
    modify fun a => { a with joining := o :: a.joining }
    ending p fun a => { a with joining := a.joining.erase o }) := by
  intro a
  have hafter : Eval.after (do
      modify fun a => { a with joining := o :: a.joining }
      ending p fun a => { a with joining := a.joining.erase o }) a
      = (fun b : Agent => { b with joining := b.joining.erase o })
          (p.after { a with joining := o :: a.joining }) := after_ending ..
  have hinner := h { a with joining := o :: a.joining }
  rw [hafter]
  refine ⟨hinner.objects, ?_, hinner.contexts⟩
  dsimp only
  rw [hinner.joining]
  exact List.erase_cons_head ..

/-! ### Other environments and contexts -/

theorem setEnvironment (e : EnvironmentId) : Leads Agent.Wanders (Eval.setEnvironment e) := by
  intro a
  obtain ⟨objects, environments, realms, contexts, joining, methods, count, trace, verbose,
    reports⟩ := a
  cases contexts with
  | nil => exact .refl _
  | cons c rest => exact ⟨.refl, rfl, rfl, rfl⟩

/-- **What is evaluated in an environment** goes back to the one before it, even if it left another
one. -/
theorem inEnvironment (e : EnvironmentId) (h : Leads Agent.Wanders p) :
    Evolving (Eval.inEnvironment e p) := by
  intro a
  obtain ⟨objects, environments, realms, contexts, joining, methods, count, trace, verbose,
    reports⟩ := a
  cases contexts with
  | nil => exact .refl _
  | cons c rest =>
    generalize ha : (⟨objects, environments, realms, c :: rest, joining, methods, count, trace, verbose,
      reports⟩ : Agent) = a
    have hafter : (Eval.inEnvironment e p).after a
        = withEnvironmentOf c.environment (p.after (withEnvironmentOf e a)) := by
      subst ha
      exact after_ending ..
    have hinner := h (withEnvironmentOf e a)
    rw [hafter]
    generalize p.after (withEnvironmentOf e a) = b at hinner
    subst ha
    -- The task leaves the realms and the contexts further out as they were; only the environment of
    -- the last one is to be put back.
    have houter : b.contexts.tail = rest := hinner.outer
    have hrealms : b.contexts.map (·.realm) = c.realm :: rest.map (·.realm) := hinner.realms
    cases hb : b.contexts with
    | nil =>
      rw [hb] at hrealms
      cases hrealms
    | cons d outer =>
      rw [hb, List.map_cons] at hrealms
      rw [hb, List.tail_cons] at houter
      have hcontexts : (withEnvironmentOf c.environment b).contexts = c :: rest := by
        rw [withEnvironmentOf, hb, houter]
        dsimp only
        rw [(List.cons.inj hrealms).1]
      have hsame : (withEnvironmentOf c.environment b).objects = b.objects
          ∧ (withEnvironmentOf c.environment b).joining = b.joining := by
        unfold withEnvironmentOf
        split <;> exact ⟨rfl, rfl⟩
      exact ⟨hsame.1 ▸ hinner.objects, hsame.2.trans hinner.joining, hcontexts⟩

/-- **A context of its own** is gone afterwards. -/
theorem inContext (d : Context) (h : Leads Agent.Wanders p) : Evolving (Eval.inContext d p) := by
  intro a
  have hafter : (Eval.inContext d p).after a = (fun b : Agent => { b with contexts := b.contexts.tail })
      (p.after { a with contexts := d :: a.contexts }) := after_ending ..
  have hinner := h { a with contexts := d :: a.contexts }
  rw [hafter]
  exact ⟨hinner.objects, hinner.joining, hinner.outer⟩

/-! ### Tidying up -/

theorem tidy (t : Tidying) (a : Agent) : a.Evolves (t.apply a) := by
  cases t with
  | nothing => exact .refl a
  | removal => exact .of_same rfl rfl rfl
  | collection =>
    change a.Evolves a.collect
    unfold Agent.collect
    split
    · exact .of_same rfl rfl rfl
    · exact .refl a

theorem concluding (t : Tidying) {p : Eval Value} (h : Evolving p) :
    Evolving (Eval.concluding t.apply p) := by
  have hreport : ∀ (a : Agent) v, a.Evolves (a.reportUncaught v) := by
    intro a v
    unfold Agent.reportUncaught
    split
    · exact .of_same rfl rfl rfl
    · exact .refl a
  intro a
  rcases after_concluding t.apply p a with heq | ⟨v, heq⟩
  · exact heq ▸ (h a).trans (tidy t _)
  · exact heq ▸ ((h a).trans (tidy t _)).trans (hreport _ v)

end Evolving

/-! ### All evaluation -/

/-- **The law of computations by which agents evolve.** -/
def evolution : SessionLaw where
  Holds := Evolving
  CountsOnKeys := False
  pure := Evolving.pure
  throw := Evolving.throw
  get := Evolving.get
  bindOf := Evolving.creation.bindOf
  catching := Leads.catching .trans
  followedBy := Leads.followedBy .trans
  joining := Evolving.joining
  adjust := Evolving.creation.adjust
  newRealm := fun _ _ _ => .of_same rfl rfl rfl
  allocate := Evolving.creation.allocate
  method := fun _ => .method .refl fun _ => ⟨.single (.new _), rfl, rfl⟩
  functionValue := Evolving.creation.functionValue
  templateObject := fun t => Evolving.creation.templateObject t fun _ _ _ => .of_same rfl rfl rfl
  causedError := Evolving.creation.causedError
  nameFunction := fun v name => by
    cases v with
    | object i => exact Evolving.modifyObject i fun _ => .withName name
    | _ => exact Evolving.pure _
  freeze := fun v => by
    cases v with
    | object i => exact Evolving.modifyObject i fun _ => .freeze
    | _ => exact Evolving.pure _
  delete := fun i k => Evolving.changeObject i (fun _ => .delete k) true
  setLength := fun i n _ => Evolving.changeObject i (fun _ => .setLength n) false
  write := fun i k v _ hp => by
    refine (Evolving.get.bind fun _ => .pure _).bind fun o => ?_
    split
    · exact hp
    · exact Evolving.changeObject i (fun _ => .write k v) false
  define := fun i k v => Evolving.changeObject i (fun _ => .define k v) false
  changeArray := fun i f missing _ => Evolving.changeArray i f missing
  growArray := fun i count f _ => (Evolving.creation.requireRoom i count).bind fun _ =>
    Evolving.changeArray i _ ()
  deleteVariable := Evolving.creation.deleteVariable
  Roams := Leads Agent.Wanders
  roam := fun h => h.imp fun h => h.wanders
  bindRoaming := Leads.seq .trans
  iterateRoaming := Leads.iterate .refl .trans
  setEnvironment := Evolving.setEnvironment
  inEnvironment := Evolving.inEnvironment
  inContext := Evolving.inContext
  newEnvironment := Evolving.creation.newEnvironment
  createVariable := fun e _ _ _ => Evolving.creation.updateEnvironment e _
  initializeVariable := Evolving.creation.initializeVariable
  writeVariable := Evolving.creation.writeVariable
  tidy := Evolving.tidy
  concluding := fun t h => Evolving.concluding t h

/-- **Agents evolve by every task.** -/
theorem evolves_run (n : Nat) {α : Type} (t : Task α) : Evolving (Task.run n t) :=
  evolution.ofDepth n t

/-- **Agents evolve by whatever a host asks for.** -/
theorem evolves_answer (n : Nat) (r : Request) (t : Tidying) :
    Evolving (r.answer (.ofDepth n) t) :=
  SessionLaw.answer (evolution.ofDepth n) t r

end Scriptlet
