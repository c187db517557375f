import Scriptlet.Proofs.KeyChanges
import Scriptlet.Proofs.Laws

/-!
# Laws about what is created

Many primitives make new objects, or change single environments, and do nothing else.  It does not
matter to a law whether a new object is changed at once: all that it sees of such a primitive are the
objects that are new and the environments that are changed.

## Main definitions

* `Agent.Extends` — new objects besides the old ones, the same environments and contexts.
* `CreationLaw` — a property of computations that those have which make new objects only or change
  one environment.

## Main results

* `CreationLaw.functionValue`, `CreationLaw.causedError`, `CreationLaw.templateObject` — the primitives
  that make new objects have the property.
* `CreationLaw.writeVariable`, `CreationLaw.deleteVariable` — so have those that change variables.
-/

namespace Scriptlet

open Eval

/-- The second agent has the given objects besides those of the first, the same methods, environments
and realms, and the same is being evaluated. -/
structure Agent.Extends (a b : Agent) (news : List Object) : Prop where
  objects : b.objects = a.objects ++ news
  methods : b.methods = a.methods
  environments : b.environments = a.environments
  realms : b.realms = a.realms
  joining : b.joining = a.joining
  contexts : b.contexts = a.contexts

/-- A property of computations that is handed on by sequences, and that those have which make new
objects only or change one environment. -/
structure CreationLaw where
  /-- The property. -/
  Holds : {α : Type} → Eval α → Prop
  /-- Whether the property is about agents only whose objects are keyed. -/
  CountsOnKeys : Prop
  pure : ∀ {α : Type} (x : α), Holds (pure x)
  throw : ∀ {α : Type} (i : Interrupt), Holds (throw i : Eval α)
  get : Holds get
  bindOf : ∀ {α β : Type} {p : Eval α} {f : α → Eval β}, Holds p →
    (∀ a x b, (CountsOnKeys → a.IsKeyed) → p a = .ok x b → Holds (f x)) → Holds (p >>= f)
  extend : ∀ {α : Type} (f : Agent → α × Agent), (∀ a : Agent, ∃ news,
    (CountsOnKeys → ∀ o ∈ news, o.IsKeyed) ∧ a.Extends (f a).2 news) → Holds (modifyGet f)
  newEnvironment : ∀ outer, Holds (newEnvironment outer)
  updateEnvironment : ∀ e f, Holds (updateEnvironment e f)

/-- An object that is changed at once is a new one. -/
theorem modify_push_size (l : Array Object) (x : Object) (f : Object → Object) :
    (l.push x).modify l.size f = l.push (f x) := by
  apply Array.ext_getElem?
  intro i
  rw [Array.getElem?_modify, Array.getElem?_push, Array.getElem?_push]
  split
  · next hi => rw [if_pos hi.symm, if_pos hi.symm, Option.map_some]
  · next hi => rw [if_neg (Ne.symm hi), if_neg (Ne.symm hi)]

theorem modify_push_lt {l : Array Object} {i : Nat} (hi : i < l.size) (x : Object)
    (f : Object → Object) : (l.push x).modify i f = (l.modify i f).push x := by
  apply Array.ext_getElem?
  intro j
  rw [Array.getElem?_modify, Array.getElem?_push, Array.getElem?_push, Array.size_modify,
    Array.getElem?_modify]
  split
  · next hij => rw [if_neg (by omega), if_neg (by omega)]
  · rfl

namespace CreationLaw

variable {α β : Type} (L : CreationLaw)

theorem bind {p : Eval α} {f : α → Eval β} (hp : L.Holds p) (hf : ∀ x, L.Holds (f x)) :
    L.Holds (p >>= f) := L.bindOf hp fun _ x _ _ _ => hf x

/-- A change of the agent that changes no objects, no environments, and not what is being evaluated. -/
theorem adjust (f : Agent → α × Agent) (hf : ∀ a : Agent, a.IsLike (f a).2) : L.Holds (modifyGet f) :=
  L.extend f fun a => ⟨[], fun _ _ ho => absurd ho List.not_mem_nil,
    by simp [(hf a).objects], (hf a).methods, (hf a).environments, (hf a).realms, (hf a).joining,
    (hf a).contexts⟩

/-- An object that is not used in between. -/
theorem allocate (o : Object) (ho : L.CountsOnKeys → o.IsKeyed) : L.Holds (allocate o) :=
  L.extend _ fun a =>
    ⟨[o], fun h x hx => List.mem_singleton.mp hx ▸ ho h, by simp, rfl, rfl, rfl, rfl, rfl⟩

/-- A new error has different keys: it has at most one. -/
theorem errorObject (kind : ErrorKind) (message : Option Text) :
    L.Holds (errorObject kind message) := L.allocate _ fun _ => by
  refine Object.isKeyed_of_distinct rfl ?_
  cases message with
  | none => exact List.nodup_nil
  | some t => exact List.nodup_singleton _

/-- Throwing is making an error. -/
theorem raise (kind : ErrorKind) (message : String) : L.Holds (raise kind message : Eval α) :=
  L.bind (L.errorObject _ _) fun _ => L.throw _

/-- What is being evaluated is looked up in the agent, which stays as it is. -/
theorem context : L.Holds context := by
  unfold Eval.context
  refine L.bind L.get fun a => ?_
  split
  · exact L.pure _
  · exact L.throw _

theorem realm : L.Holds realm := by
  refine L.bind L.context fun c => L.bind L.get fun a => ?_
  split
  · exact L.pure _
  · exact L.throw _

theorem environment : L.Holds environment := L.bind L.context fun _ => L.pure _

/-- A frozen array is refused by an error. -/
theorem requireThawed (id : ObjectId) : L.Holds (requireThawed id) := by
  refine L.bind (L.bind L.get fun _ => L.pure _) fun e => ?_
  split
  · exact L.raise _ _
  · exact L.pure _

/-- So is one without room. -/
theorem requireRoom (id : ObjectId) (count : Nat) : L.Holds (requireRoom id count) := by
  refine L.bind (L.requireThawed id) fun _ => L.bind (L.bind L.get fun _ => L.pure _) fun e => ?_
  split
  · exact L.raise _ _
  · exact L.pure _

/-! ### Variables -/

section Variables

variable (e : EnvironmentId) (name : String) (v : Value)

theorem environmentAt : L.Holds (environmentAt e) := by
  unfold Eval.environmentAt
  refine L.bind L.get fun a => ?_
  split
  · exact L.pure _
  · exact L.throw _

/-- Giving a value to a variable changes its environment. -/
theorem initializeVariable : L.Holds (initializeVariable e name v) := by
  unfold Eval.initializeVariable
  refine L.bind (L.environmentAt e) fun x => ?_
  split
  · exact L.updateEnvironment e _
  · exact L.throw _

/-- A variable is written, or an error says why it cannot be. -/
theorem writeVariable (isStrict : Bool) : L.Holds (writeVariable e name v isStrict) := by
  unfold Eval.writeVariable
  refine L.bind (L.environmentAt e) fun x => ?_
  split
  · split
    · exact L.raise _ _
    · exact L.updateEnvironment e _
  · split
    · exact L.raise _ _
    · split
      · exact L.updateEnvironment e _
      · split
        · exact L.raise _ _
        · exact L.pure _

/-- Only some variables can be deleted. -/
theorem deleteVariable : L.Holds (deleteVariable e name) := by
  unfold Eval.deleteVariable
  refine L.bind (L.environmentAt e) fun x => ?_
  split
  · exact L.pure _
  · split
    · exact L.bind (L.updateEnvironment e _) fun _ => L.pure _
    · exact L.pure _

end Variables

/-! ### New objects -/

/-- A function object is new. -/
theorem closure (f : Function) (e : EnvironmentId) (name : String) : L.Holds (closure f e name) :=
  L.bind L.context fun _ =>
    L.bind (L.allocate _ fun _ => Object.isKeyed_ofKind nofun) fun _ => L.pure _

/-- A function with a name of its own has an environment for it, which is new as well. -/
theorem functionValue (f : Function) : L.Holds (functionValue f) := by
  unfold Eval.functionValue
  refine L.bind L.environment fun e => ?_
  cases f.name with
  | none => exact L.closure f e ""
  | some name =>
    refine L.bind (L.newEnvironment _) fun inner => L.bind (L.updateEnvironment inner _) fun _ => ?_
    refine L.bind (L.closure f inner name) fun v => ?_
    exact L.bind (L.initializeVariable inner name v) fun _ => L.pure v

/-- A new object is changed before it is used. -/
theorem make (x : Object) (f : Object → Object) {q : ObjectId → Eval α}
    (hf : L.CountsOnKeys → (f x).IsKeyed) (hq : ∀ o, L.Holds (q o)) : L.Holds (do
      let o ← Eval.allocate x
      Eval.modifyObject o f
      q o) := by
  have hmade : L.Holds (modifyGet fun a : Agent => ((⟨a.objects.size⟩ : ObjectId),
      { a with objects := (a.objects.push x).modify a.objects.size f })) :=
    L.extend _ fun a => ⟨[f x], fun h o ho => List.mem_singleton.mp ho ▸ hf h,
      by simp [modify_push_size], rfl, rfl, rfl, rfl, rfl⟩
  have hsequence := L.bind hmade hq
  exact hsequence

/-- Two new objects are changed before they are used. -/
theorem makeTwo (x y : Object) (f : Object → Object) (g : ObjectId → Object → Object)
    {q : ObjectId → Eval α} (hf : L.CountsOnKeys → (f y).IsKeyed)
    (hg : L.CountsOnKeys → ∀ p, (g p x).IsKeyed) (hq : ∀ o, L.Holds (q o)) : L.Holds (do
      let o ← Eval.allocate x
      let p ← Eval.allocate y
      Eval.modifyObject p f
      Eval.modifyObject o (g p)
      q o) := by
  have hmade : L.Holds (modifyGet fun a : Agent => ((⟨a.objects.size⟩ : ObjectId), { a with
      objects := (((a.objects.push x).push y).modify (a.objects.push x).size f).modify a.objects.size
        (g ⟨(a.objects.push x).size⟩) })) := by
    refine L.extend _ fun a =>
      ⟨[g ⟨(a.objects.push x).size⟩ x, f y], fun h o ho => ?_, ?_, rfl, rfl, rfl, rfl, rfl⟩
    · rcases List.mem_cons.mp ho with rfl | ho
      · exact hg h _
      · exact List.mem_singleton.mp ho ▸ hf h
    · dsimp only
      rw [modify_push_size, modify_push_lt (by simp), modify_push_size]
      simp
  have hsequence := L.bind hmade hq
  exact hsequence

/-- The cause is put on the error after it has been made. -/
theorem causedError (kind : ErrorKind) (message : Option Text) (cause : Option Value) :
    L.Holds (do
      let id ← Eval.errorObject kind message
      setCause id cause
      return Value.object id) := by
  cases cause with
  | none => exact L.bind (L.errorObject _ _) fun o => L.pure _
  | some v =>
    refine L.make _ _ (fun _ => Object.isKeyed_of_distinct rfl ?_) fun o => L.pure _
    cases message with
    | none => exact List.nodup_singleton _
    | some t =>
      show [("message" : PropertyKey), ("cause" : PropertyKey)].Nodup
      decide +kernel

/-- The array for a template is made, if it is allowed to be put down in the realm. -/
theorem templateObject (t : Template) (hregister : ∀ (r : RealmId) (o : ObjectId),
    L.Holds (modify fun a => { a with realms := a.realms.modify r.index fun x =>
      { x with templates := (t.span.start, o) :: x.templates } })) : L.Holds (templateObject t) := by
  unfold Eval.templateObject
  refine L.bind L.context fun c => L.bind L.realm fun r => ?_
  split
  -- The realm has the array for this template already.
  · exact L.pure _
  · dsimp only
    -- There are two arrays to make: of the values of the pieces, and of their spellings. Either may
    -- be too long.
    obtain hlong | ⟨hpieces, hmade⟩ := allocateArray_cases
      (.ofList (t.quasis.map fun q => (q.value.map Value.text).getD .undefined))
    · rw [hlong, throw_bind]
      exact L.throw _
    · rw [hmade]
      obtain hlong | ⟨hraw, hmade⟩ := allocateArray_cases
        (.ofList (t.quasis.map fun q => .ofString q.raw))
      · rw [hlong]
        refine L.bind (L.allocate _ fun _ => ?_) fun o => ?_
        · exact Object.isKeyed_array ⟨Elements.isStored_ofList _, hpieces⟩
        · rw [throw_bind]
          exact L.throw _
      · rw [hmade]
        -- The array of spellings is frozen and put on the other one, which is frozen last.
        refine L.makeTwo _ _ _ _ (fun _ => ?_) (fun _ p => ?_) fun o => ?_
        · exact (Object.turn_freeze _).isKeyed
            (Object.isKeyed_array ⟨Elements.isStored_ofList _, hraw⟩)
        · refine (Object.turn_freeze _).isKeyed
            ⟨List.nodup_singleton _, fun _ k hk => ?_, fun e he => ?_⟩
          · rw [List.mem_singleton.mp hk]
            show ("raw" : PropertyKey).arrayIndex? = none ∧
              ("raw" : PropertyKey).isNamed "length" = false
            decide +kernel
          · cases he
            exact ⟨Elements.isStored_ofList _, hpieces⟩
        · exact L.bind (hregister _ _) fun _ => L.pure _

end CreationLaw

end Scriptlet
