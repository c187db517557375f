import Scriptlet.Proofs.Chains
import Scriptlet.Proofs.Naming

/-!
# Patterns that declare and patterns that assign

A value is taken apart by a declaration and by an assignment.  The assignment finds out for each part
which variable its name stands for before it reads the part, and the declaration when it has the value.
What is evaluated in between does not change what a name stands for, so that it makes no difference: both
come to the same outcome in the same state.

## Main definitions

* `Pattern.IsWrittenAs` — a pattern that declares names and a target of the same shape.
* `Agent.Knows` — names that stand for variables, where no events are recorded.
* `Eval.SameFor` — computations with the same outcomes for the agents with a property.

## Main results

* `Agent.Knows.after` — **names go on standing for the same variables**, whatever is evaluated.
* `bind_part` — a part of a pattern.
* `destructuring_agrees` — **declarations and assignments take values apart in the same way**.
-/

namespace Scriptlet

open Eval Relation

/-! ### Patterns of the same shape -/

mutual

/-- The pattern, written as a target with a value that replaces undefined, if there is one.  The names
are the same, and so are the expressions. -/
inductive Pattern.IsWrittenAs : Pattern → Target → Option Expr → Prop
  | name {s : Span} {name : String} : Pattern.IsWrittenAs (.identifier name) (.identifier s name) none
  | array {elements : List (Option Pattern)} {parts : List (Option TargetElement)}
      {rest : Option Pattern} {rest' : Option Target} (h : ElementsAreWrittenAs elements parts)
      (hrest : RestIsWrittenAs rest rest') :
      Pattern.IsWrittenAs (.array elements rest) (.array parts rest') none
  | object {properties : List PatternProperty} {parts : List TargetProperty}
      {rest : Option Pattern} {rest' : Option Target} (h : PropertiesAreWrittenAs properties parts)
      (hrest : RestIsWrittenAs rest rest') :
      Pattern.IsWrittenAs (.object properties rest) (.object parts rest') none
  | withDefault {p : Pattern} {t : Target} {e : Expr} (h : Pattern.IsWrittenAs p t none) :
      Pattern.IsWrittenAs (.withDefault p e) t (some e)

/-- The elements of a pattern, with the same holes. -/
inductive ElementsAreWrittenAs : List (Option Pattern) → List (Option TargetElement) → Prop
  | nil : ElementsAreWrittenAs [] []
  | hole {elements : List (Option Pattern)} {parts : List (Option TargetElement)}
      (h : ElementsAreWrittenAs elements parts) :
      ElementsAreWrittenAs (none :: elements) (none :: parts)
  | cons {p : Pattern} {t : Target} {e : Option Expr} {elements : List (Option Pattern)}
      {parts : List (Option TargetElement)} (hp : Pattern.IsWrittenAs p t e)
      (h : ElementsAreWrittenAs elements parts) :
      ElementsAreWrittenAs (some p :: elements) (some ⟨t, e⟩ :: parts)

/-- The properties of a pattern; a property with the name of its variable may be written once. -/
inductive PropertiesAreWrittenAs : List PatternProperty → List TargetProperty → Prop
  | nil : PropertiesAreWrittenAs [] []
  | shorthand {s : Span} {name : String} {p : Pattern} {e : Option Expr}
      {properties : List PatternProperty} {parts : List TargetProperty}
      (hp : Pattern.IsWrittenAs p (.identifier s name) e) (h : PropertiesAreWrittenAs properties parts) :
      PropertiesAreWrittenAs (⟨.fixed name, p⟩ :: properties) (.shorthand s name e :: parts)
  | named {name : PropertyName} {p : Pattern} {t : Target} {e : Option Expr}
      {properties : List PatternProperty} {parts : List TargetProperty} (hp : Pattern.IsWrittenAs p t e)
      (h : PropertiesAreWrittenAs properties parts) :
      PropertiesAreWrittenAs (⟨name, p⟩ :: properties) (.named name ⟨t, e⟩ :: parts)

/-- What a pattern has for the values left over. -/
inductive RestIsWrittenAs : Option Pattern → Option Target → Prop
  | none : RestIsWrittenAs .none .none
  | some {p : Pattern} {t : Target} (h : Pattern.IsWrittenAs p t .none) : RestIsWrittenAs (.some p) (.some t)

end

namespace Pattern.IsWrittenAs

variable {p : Pattern} {t : Target}

/-- Without a value that replaces undefined there is a name or a pattern. -/
theorem cases (h : p.IsWrittenAs t none) : (∃ s name, p = .identifier name ∧ t = .identifier s name) ∨
    p.name? = none ∧ ((∃ parts rest, t = .array parts rest) ∨ ∃ parts rest, t = .object parts rest) := by
  cases h with
  | name => exact .inl ⟨_, _, rfl, rfl⟩
  | array => exact .inr ⟨rfl, .inl ⟨_, _, rfl⟩⟩
  | object => exact .inr ⟨rfl, .inr ⟨_, _, rfl⟩⟩

/-- The value that replaces undefined stands beside a pattern without one. -/
theorem plain {e : Option Expr} (h : p.IsWrittenAs t e) :
    ∃ q : Pattern, q.IsWrittenAs t none ∧ q.names = p.names := by
  cases e with
  | none => exact ⟨p, h, rfl⟩
  | some e =>
    cases h with
    | withDefault h => exact ⟨_, h, rfl⟩

/-- The name that an anonymous function gets is the same. -/
theorem name?_eq (h : p.IsWrittenAs t none) : p.name? = t.name? := by
  obtain ⟨s, name, rfl, rfl⟩ | ⟨hp, ⟨_, _, rfl⟩ | ⟨_, _, rfl⟩⟩ := h.cases
  · rfl
  · exact hp
  · exact hp

end Pattern.IsWrittenAs

/-! ### What names stand for -/

/-- The computation obeys every law. -/
def Eval.IsLawful {α : Type} (p : Eval α) : Prop := ∀ L : GeneralLaw, L.Holds p

/-- In the context, in which no events are recorded, the names stand for variables of the given
environments, which may not be deleted. -/
structure Agent.Knows (a : Agent) (c : Context) (place : String → EnvironmentId)
    (names : List String) : Prop where
  tidy : a.environments.IsTidy
  here : a.contexts.head? = some c
  silent : ∃ r, a.realms[c.realm.index]? = some r ∧ r.isTraced = false
  holder : ∀ name ∈ names, a.environments.holder name c.environment = .environment (place name)
  lasting : ∀ name ∈ names, ∃ v, a.environments.find? (place name) name = some v ∧ v.isDeletable = false

/-- A realm stays silent. -/
theorem Registry.Step.isSilent {s s' : Registry} (h : s.Step s') {i : Nat}
    (hi : ∃ r, s.realms[i]? = some r ∧ r.isTraced = false) :
    ∃ r, s'.realms[i]? = some r ∧ r.isTraced = false := by
  obtain ⟨r, hr, hsilent⟩ := hi
  cases h with
  | objects => exact ⟨r, hr, hsilent⟩
  | realm =>
    obtain ⟨hlt, -⟩ := Array.getElem?_eq_some_iff.mp hr
    exact ⟨r, by rw [Array.getElem?_push, if_neg (Nat.ne_of_lt hlt), hr], hsilent⟩
  | @template i t hi =>
    unfold withTemplate
    dsimp only
    rw [Array.getElem?_modify, hr]
    split
    · exact ⟨r.withTemplate t.span.start ⟨s.objects.size⟩, rfl, hsilent⟩
    · exact ⟨r, rfl, hsilent⟩

namespace Agent.Knows

variable {α : Type} {a : Agent} {c : Context} {place : String → EnvironmentId} {names : List String}

theorem contexts (h : a.Knows c place names) : ∃ rest, a.contexts = c :: rest :=
  List.head?_eq_some_iff.mp h.here

/-- **Names go on standing for the same variables**, whatever is evaluated. -/
theorem after (h : a.Knows c place names) {p : Eval α} (hp : p.IsLawful) :
    (p.after a).Knows c place names := by
  obtain ⟨htidy, hstay⟩ : (p.after a).environments.IsTidy ∧ a.environments.Stay (p.after a).environments :=
    hp linking a h.tidy
  have hcloses : ∀ e x, a.environments.get? e = some x → a.environments.Closes e (p.after a).environments :=
    fun e x hx => hp (naming e) a x h.tidy hx
  have hcontexts : (p.after a).contexts = a.contexts := (hp evolution.toGeneralLaw a : a.Evolves _).contexts
  have hregisters : a.Registers (p.after a) := hp registering.toGeneralLaw a
  refine ⟨htidy, hcontexts ▸ h.here, ?_, fun name hname => ?_, fun name hname => ?_⟩
  · have hall : ∀ s, ReflTransGen Registry.Step a.registry s →
        ∃ r, s.realms[c.realm.index]? = some r ∧ r.isTraced = false := by
      intro s hs
      induction hs with
      | refl => exact h.silent
      | tail _ hstep ih => exact hstep.isSilent ih
    exact hall _ hregisters
  · obtain ⟨v, hv, hlasting⟩ := h.lasting name hname
    exact Environments.holder_of_closes hstay hcloses hv hlasting (h.holder name hname)
  · obtain ⟨v, hv, hlasting⟩ := h.lasting name hname
    obtain ⟨x, hx, hxv⟩ := Environments.get?_of_find? hv
    obtain ⟨y, hy, hxy⟩ := hstay _ x hx
    obtain ⟨w, hw, hlasting⟩ := hxy.lasting hxv hlasting
    exact ⟨w, by rw [Environments.find?_of_get? hy, hw], hlasting⟩

theorem record (h : a.Knows c place names) (e : Event) : Eval.record e a = .ok () a := by
  obtain ⟨rest, hc⟩ := h.contexts
  obtain ⟨r, hr, hsilent⟩ := h.silent
  rw [record_apply ⟨c, rest, hc, hr⟩, hsilent]
  rfl

theorem resolve (h : a.Knows c place names) {name : String} (hname : name ∈ names) :
    Eval.resolve name a = .ok (.variable (place name) name) a := by
  obtain ⟨rest, hc⟩ := h.contexts
  unfold Eval.resolve
  rw [bind_ok (environment_eq hc), bind_ok (get_apply a), h.holder name hname]
  rfl

end Agent.Knows

/-! ### Outcomes for some agents -/

namespace Eval

variable {α β : Type} {I : Agent → Prop}

/-- High enough stacks come to the same outcomes of both computations for agents with the property. -/
def SameFor (I : Agent → Prop) (F G : Machine → Eval α) : Prop :=
  ∀ a, I a → ∀ r, Reaches F a r ↔ Reaches G a r

namespace SameFor

variable {F G H : Machine → Eval α} {f g : Machine → α → Eval β}

theorem of_eq (h : ∀ m, F m = G m) : SameFor I F G := fun a _ => Same.of_eq h a

theorem of_apply (h : ∀ a, I a → ∀ m : Machine, F m a = G m a) : SameFor I F G := fun a ha r => by
  unfold Reaches
  simp only [h a ha]

theorem of_same (h : Same F G) : SameFor I F G := fun a _ => h a

theorem trans (h : SameFor I F G) (h' : SameFor I G H) : SameFor I F H :=
  fun a ha r => (h a ha r).trans (h' a ha r)

theorem symm (h : SameFor I F G) : SameFor I G F := fun a ha r => (h a ha r).symm

/-- What follows has the same outcomes for the agents that the first computation leads to. -/
theorem bind (h : SameFor I F G) (hF : Rises F) (hG : Rises G) (hf : ∀ x, Rises fun m => f m x)
    (hg : ∀ x, Rises fun m => g m x) (hI : ∀ n a, I a → I ((F (.ofDepth n)).after a))
    (hfg : ∀ x, SameFor I (fun m => f m x) fun m => g m x) :
    SameFor I (fun m => F m >>= f m) fun m => G m >>= g m := by
  intro a ha r
  have hleads : ∀ {x b}, Reaches F a (.ok x b) → I b := by
    rintro x b ⟨⟨n, hn⟩, -⟩
    have hb := hI n a ha
    rwa [after_ok hn] at hb
  have hpair : ∀ (s : EStateM.Result Interrupt Agent β) x b,
      Reaches F a (.ok x b) ∧ Reaches (fun m => f m x) b s ↔
        Reaches G a (.ok x b) ∧ Reaches (fun m => g m x) b s := by
    intro s x b
    rw [← h a ha]
    exact and_congr_right fun hx => hfg x b (hleads hx) s
  cases r with
  | ok y c =>
    rw [reaches_bind_ok hF hf, reaches_bind_ok hG hg]
    exact exists_congr fun x => exists_congr fun b => hpair _ x b
  | error i c =>
    rw [reaches_bind_error hF hf, reaches_bind_error hG hg]
    refine or_congr (h a ha _) ?_
    exact exists_congr fun x => exists_congr fun b => hpair _ x b

/-- Both computations come after the same one. -/
theorem after (hF : Rises F) (hf : ∀ x, Rises fun m => f m x) (hg : ∀ x, Rises fun m => g m x)
    (hI : ∀ n a, I a → I ((F (.ofDepth n)).after a))
    (hfg : ∀ x, SameFor I (fun m => f m x) fun m => g m x) :
    SameFor I (fun m => F m >>= f m) fun m => F m >>= g m :=
  bind (fun _ _ _ => Iff.rfl) hF hF hf hg hI hfg

end SameFor

end Eval

/-! ### Parts of patterns -/

namespace Machine

variable {α : Type} {c : Context} {place : String → EnvironmentId} {names : List String}

/-- The place that a target stands for, unless it is a pattern. -/
def placeOf (place : String → EnvironmentId) : Target → Option Reference
  | .identifier _ name => some (.variable (place name) name)
  | _ => none

theorem rises_const (p : Eval α) : Rises fun _ => p := fun _ _ _ => .refl trivial

theorem obeys_ofDepth (L : GeneralLaw) (n : Nat) : L.Obeys (ofDepth n) := GeneralLaw.obeys (L.ofDepth n)

theorem assigns_ofDepth (L : GeneralLaw) (n : Nat) : L.Assigns (ofDepth n) :=
  GeneralLaw.assigns (L.ofDepth n)

/-- Both computations come after the same one, which obeys every law. -/
theorem sameFor_after {β : Type} {F : Machine → Eval β} {f g : Machine → β → Eval α} (hF : Rises F)
    (hlawful : ∀ n, (F (.ofDepth n)).IsLawful) (hf : ∀ x, Rises fun m => f m x)
    (hg : ∀ x, Rises fun m => g m x)
    (hfg : ∀ x, SameFor (·.Knows c place names) (fun m => f m x) fun m => g m x) :
    SameFor (·.Knows c place names) (fun m => F m >>= f m) fun m => F m >>= g m :=
  .after hF hf hg (fun n _ ha => ha.after (hlawful n)) hfg

/-- **A name may be looked up before or after.** -/
theorem sameFor_name {name : String} (hname : name ∈ names) (s : Span)
    {f : Machine → Reference → Eval α} (hf : ∀ r, Rises fun m => f m r) :
    SameFor (·.Knows c place names) (fun m => m.name s name >>= f m)
      fun m => f m (.variable (place name) name) := by
  have hstep : Same (fun m => m.name s name >>= f m) fun m => resolve name >>= f m :=
    Same.bind (fun _ _ => reaches_run) (fun _ _ h => h.name s name) (rises_const _) hf
  exact (SameFor.of_same hstep).trans (.of_apply fun a ha m => bind_ok (ha.resolve hname))

/-- The place of a target may be looked up before or after. -/
theorem sameFor_targetReference? {p : Pattern} {t : Target} {e : Option Expr} (ht : p.IsWrittenAs t e)
    (hnames : ∀ name ∈ p.names, name ∈ names) {f : Machine → Option Reference → Eval α}
    (hf : ∀ r, Rises fun m => f m r) :
    SameFor (·.Knows c place names) (fun m => m.targetReference? t >>= f m)
      fun m => f m (placeOf place t) := by
  obtain ⟨q, hq, hsame⟩ := ht.plain
  obtain ⟨s, name, rfl, rfl⟩ | ⟨-, ⟨_, _, rfl⟩ | ⟨_, _, rfl⟩⟩ := hq.cases
  · have hmem : name ∈ names := hnames name (hsame ▸ List.mem_singleton_self name)
    refine .trans (.of_apply fun a ha m => ?_) (sameFor_name hmem s fun r => hf (some r))
    unfold targetReference?
    simp only [bind_assoc, pure_bind]
    exact bind_ok (ha.record _)
  · exact .of_eq fun m => pure_bind none (f m)
  · exact .of_eq fun m => pure_bind none (f m)

/-- The place of a target may be looked up before a computation that obeys every law, or after it. -/
theorem sameFor_part {β : Type} {p : Pattern} {t : Target} {e : Option Expr} (ht : p.IsWrittenAs t e)
    (hnames : ∀ name ∈ p.names, name ∈ names) {q : Machine → Eval β} {f : Machine → β → Eval α}
    {g : Machine → Option Reference → β → Eval α} (hq : Rises q) (hlawful : ∀ n, (q (.ofDepth n)).IsLawful)
    (hf : ∀ x, Rises fun m => f m x) (hg : ∀ r x, Rises fun m => g m r x)
    (hfg : ∀ x, SameFor (·.Knows c place names) (fun m => f m x) fun m => g m (placeOf place t) x) :
    SameFor (·.Knows c place names) (fun m => q m >>= f m)
      fun m => m.targetReference? t >>= fun r => q m >>= g m r :=
  (sameFor_after hq hlawful hf (hg _) hfg).trans
    (sameFor_targetReference? (f := fun m r => q m >>= g m r) ht hnames fun r _ _ h =>
      (hq h).bind fun x => hg r x h).symm

/-- What is left over gets its value in the same way, if there is anything that it goes to. -/
def RestAgrees (c : Context) (place : String → EnvironmentId) (names : List String)
    (rest : Option Pattern) (rest' : Option Target) : Prop :=
  (rest = none ∧ rest' = none) ∨ ∃ p t, rest = some p ∧ rest' = some t ∧ p.IsWrittenAs t none ∧
    (∀ name ∈ p.names, name ∈ names) ∧
    ∀ v, SameFor (·.Knows c place names) (fun m => m.run (.bind p v none))
      fun m => m.assignAt t (placeOf place t) v

/-- **An array pattern**, if its elements get their values in the same way. -/
theorem sameFor_array {elements : List (Option Pattern)} (parts : List (Option TargetElement))
    {rest : Option Pattern} {rest' : Option Target} (v : Value)
    (hwalk : ∀ w, SameFor (·.Knows c place names) (fun m => m.bindElements none elements w)
      fun m => m.assignElements parts w) (hleft : RestAgrees c place names rest rest') :
    SameFor (·.Knows c place names) (fun m => m.bindPattern (.array elements rest) v none)
      fun m => m.assignTarget (.array parts rest') v := by
  -- The assignment looks up the target of what is left before it collects this.
  have hlawful := fun w n (L : GeneralLaw) =>
    Law.bindElements w (fun p v => L.ofDepth n (.bind p v none)) elements
  obtain ⟨rfl, rfl⟩ | ⟨p, t, rfl, rfl, ht, hnames, hpart⟩ := hleft
  -- Nothing is left over for a rest.
  · refine sameFor_after (rises_const (startWalk v)) (fun n L => Law.startWalk v)
      (fun w _ _ h => (h.bindElements w none elements).bind fun _ => .refl trivial)
      (fun w _ _ h => (h.assignElements w parts).bind fun _ => .refl trivial) fun w => ?_
    exact (hwalk w).bind (fun _ _ h => h.bindElements w none elements)
      (fun _ _ h => h.assignElements w parts) (fun _ => rises_const _) (fun _ => rises_const _)
      (fun n a ha => ha.after (hlawful w n)) fun _ => .of_eq fun _ => rfl
  · have hf : ∀ w, Rises fun m => restOf w >>= fun vs => arrayOf vs >>= fun x =>
        m.run (.bind p x none) := fun w _ _ h =>
      .bind (.refl trivial) fun vs => .bind (.refl trivial) fun x => h.run _
    have hg : ∀ r w, Rises fun m => restOf w >>= fun vs => arrayOf vs >>= fun x => m.assignAt t r x :=
      fun r w _ _ h => .bind (.refl trivial) fun vs => .bind (.refl trivial) fun x => h.assignAt x t r
    have hg' : ∀ w, Rises fun m => m.targetReference? t >>= fun r => restOf w >>= fun vs =>
        arrayOf vs >>= fun x => m.assignAt t r x := fun w _ _ h =>
      (h.targetReference? t).bind fun r => hg r w h
    refine sameFor_after (rises_const (startWalk v)) (fun n L => Law.startWalk v)
      (fun w _ _ h => (h.bindElements w none elements).bind fun w => hf w h)
      (fun w _ _ h => (h.assignElements w parts).bind fun w => hg' w h) fun w => ?_
    refine (hwalk w).bind (fun _ _ h => h.bindElements w none elements)
      (fun _ _ h => h.assignElements w parts) hf hg' (fun n a ha => ha.after (hlawful w n)) fun w => ?_
    exact sameFor_part ht hnames (rises_const (restOf w)) (fun n L => Law.restOf w)
      (fun vs _ _ h => .bind (.refl trivial) fun x => h.run _)
      (fun r vs _ _ h => .bind (.refl trivial) fun x => h.assignAt x t r) fun vs =>
        sameFor_after (rises_const (arrayOf vs)) (fun n L => Law.arrayOf vs) (fun x _ _ h => h.run _)
          (fun x _ _ h => h.assignAt x t _) hpart

/-- **An object pattern**, if its properties get their values in the same way. -/
theorem sameFor_object {properties : List PatternProperty} (parts : List TargetProperty)
    {rest : Option Pattern} {rest' : Option Target} (v : Value)
    (hvalues : SameFor (·.Knows c place names) (fun m => m.bindProperties none v properties [])
      fun m => m.assignProperties v parts []) (hleft : RestAgrees c place names rest rest') :
    SameFor (·.Knows c place names) (fun m => m.bindPattern (.object properties rest) v none)
      fun m => m.assignTarget (.object parts rest') v := by
  -- As with arrays, the place of the rest is looked up before what is left is copied.
  have hlawful := fun n (L : GeneralLaw) => Law.bindProperties (obeys_ofDepth L n) v []
    (fun p v => L.ofDepth n (.bind p v none)) properties
  obtain ⟨rfl, rfl⟩ | ⟨p, t, rfl, rfl, ht, hnames, hpart⟩ := hleft
  · refine sameFor_after (rises_const (requireParts v)) (fun n L => Law.requireParts v)
      (fun _ _ _ h => (h.bindProperties v [] none properties).bind fun _ => .refl trivial)
      (fun _ _ _ h => (h.assignProperties v [] parts).bind fun _ => .refl trivial) fun _ => ?_
    exact hvalues.bind (fun _ _ h => h.bindProperties v [] none properties)
      (fun _ _ h => h.assignProperties v [] parts) (fun _ => rises_const _) (fun _ => rises_const _)
      (fun n a ha => ha.after (hlawful n)) fun _ => .of_eq fun _ => rfl
  · have hf : ∀ keys, Rises fun m => emptyObject >>= fun id => copyProperties id v keys >>= fun _ =>
        m.run (.bind p (.object id) none) := fun keys _ _ h =>
      .bind (.refl trivial) fun id => .bind (.refl trivial) fun _ => h.run _
    have hg : ∀ r keys, Rises fun m => emptyObject >>= fun id => copyProperties id v keys >>= fun _ =>
        m.assignAt t r (.object id) := fun r keys _ _ h =>
      .bind (.refl trivial) fun id => .bind (.refl trivial) fun _ => h.assignAt _ t r
    have hg' : ∀ keys, Rises fun m => m.targetReference? t >>= fun r => emptyObject >>= fun id =>
        copyProperties id v keys >>= fun _ => m.assignAt t r (.object id) := fun keys _ _ h =>
      (h.targetReference? t).bind fun r => hg r keys h
    refine sameFor_after (rises_const (requireParts v)) (fun n L => Law.requireParts v)
      (fun _ _ _ h => (h.bindProperties v [] none properties).bind fun keys => hf keys h)
      (fun _ _ _ h => (h.assignProperties v [] parts).bind fun keys => hg' keys h) fun _ => ?_
    refine hvalues.bind (fun _ _ h => h.bindProperties v [] none properties)
      (fun _ _ h => h.assignProperties v [] parts) hf hg' (fun n a ha => ha.after (hlawful n))
      fun keys => ?_
    exact sameFor_part ht hnames (rises_const emptyObject) (fun n L => Law.emptyObject)
      (fun id _ _ h => .bind (.refl trivial) fun _ => h.run _)
      (fun r id _ _ h => .bind (.refl trivial) fun _ => h.assignAt _ t r) fun id =>
        sameFor_after (rises_const (copyProperties id v keys)) (fun n L => Law.copyProperties id v keys)
          (fun _ _ _ h => h.run _) (fun _ _ _ h => h.assignAt _ t _) fun _ => hpart _

/-- **A property that is written once** for its name and its variable: the assignment looks the variable
up first. -/
theorem sameFor_shorthand {name : String} (hname : name ∈ names) (s : Span) {p : Pattern}
    {e : Option Expr} {properties : List PatternProperty} {parts : List TargetProperty} {v : Value}
    {keys : List PropertyKey}
    (hafter : ∀ w, SameFor (·.Knows c place names)
      (fun m => m.run (.bind p w none) >>= fun _ => m.bindProperties none v properties (name :: keys))
      fun m => m.assignPart ⟨.identifier s name, e⟩ (placeOf place (.identifier s name)) w >>= fun _ =>
        m.assignProperties v parts (name :: keys)) :
    SameFor (·.Knows c place names)
      (fun m => getOf v name >>= fun w => m.run (.bind p w none) >>= fun _ =>
        m.bindProperties none v properties (name :: keys))
      fun m => m.assignProperties v (.shorthand s name e :: parts) keys := by
  let g : Machine → Reference → Value → Eval (List PropertyKey) := fun m r w =>
    m.assignPart ⟨.identifier s name, e⟩ (some r) w >>= fun _ =>
      m.assignProperties v parts (name :: keys)
  have hg : ∀ r w, Rises fun m => g m r w := fun r w _ _ h =>
    (h.assignPart w ⟨.identifier s name, e⟩ (some r)).bind fun _ => h.assignProperties v _ parts
  have hvalue : SameFor (·.Knows c place names)
      (fun m => getOf v name >>= fun w => m.run (.bind p w none) >>= fun _ =>
        m.bindProperties none v properties (name :: keys))
      fun m => getOf v name >>= g m (.variable (place name) name) :=
    sameFor_after (rises_const (getOf v name)) (fun n L => Law.getOf v _)
      (fun w _ _ h => (h.run _).bind fun _ => h.bindProperties v _ none properties) (hg _)
      hafter
  have hlater : SameFor (·.Knows c place names) (fun m => m.name s name >>= fun r => getOf v name >>= g m r)
      fun m => getOf v name >>= g m (.variable (place name) name) :=
    sameFor_name hname s fun r _ _ h => .bind (.refl trivial) fun w => hg r w h
  -- The property is read before the variable is looked up, or after it.
  refine hvalue.trans (hlater.symm.trans (.of_eq fun m => ?_))
  rw [assignProperties]
  refine bind_congr fun r => bind_congr fun w => ?_
  cases e with
  | none => rfl
  | some e =>
    by_cases hw : w.isUndefined = true
    · simp only [g, assignPart, if_pos hw, bind_assoc]
      rfl
    · simp only [g, assignPart, if_neg hw]
      rfl

mutual

/-- **A part of a pattern** takes the same values to the same variables. -/
theorem bind_part (p : Pattern) (t : Target) (e : Option Expr) (ht : p.IsWrittenAs t e)
    (hnames : ∀ name ∈ p.names, name ∈ names) (v : Value) :
    SameFor (·.Knows c place names) (fun m => m.run (.bind p v none))
      fun m => m.assignPart ⟨t, e⟩ (placeOf place t) v := by
  refine .trans (.of_same fun _ _ => reaches_run) ?_
  cases p with
  | identifier name =>
    cases ht
    exact .of_apply fun a ha m => bind_ok (ha.resolve (hnames name (List.mem_singleton_self name)))
  | withDefault target init =>
    cases ht with
    | withDefault ht =>
      have hpart := bind_part target t none ht hnames
      -- Both evaluate the default before they go on to the part.
      by_cases hv : v.isUndefined = true
      · refine .trans (.of_eq fun m => if_pos hv) (.trans ?_ (.of_eq fun m => (if_pos hv).symm))
        rw [ht.name?_eq]
        exact sameFor_after (fun _ _ h => h.namedBy init t.name?)
          (fun n L => Law.namedBy (obeys_ofDepth L n) init t.name?) (fun w _ _ h => h.run _)
          (fun w _ _ h => h.assignAt w t _) hpart
      · exact .trans (.of_eq fun m => if_neg hv) ((hpart v).trans (.of_eq fun m => (if_neg hv).symm))
  | array elements rest =>
    cases ht with
    | @array _ parts _ rest' hparts hrest =>
    -- An array's pattern is a task of its own in an assignment.
    have hwhole : SameFor (·.Knows c place names) (fun m => m.assignTarget (.array parts rest') v)
        fun m => m.assignPart ⟨.array parts rest', none⟩ none v :=
      .symm (.of_same fun _ _ => reaches_run)
    refine .trans ?_ hwhole
    have hwalk := bind_elements elements parts hparts
      (fun name hname => hnames name (List.mem_append_left _ hname))
    have hleft := bind_rest rest rest' hrest (fun name hname => hnames name (List.mem_append_right _ hname))
    exact sameFor_array parts v hwalk hleft
  | object properties rest =>
    cases ht with
    | @object _ parts _ rest' hparts hrest =>
    have hwhole : SameFor (·.Knows c place names) (fun m => m.assignTarget (.object parts rest') v)
        fun m => m.assignPart ⟨.object parts rest', none⟩ none v :=
      .symm (.of_same fun _ _ => reaches_run)
    refine .trans ?_ hwhole
    have hvalues := bind_properties properties parts hparts
      (fun name hname => hnames name (List.mem_append_left _ hname)) v []
    exact sameFor_object parts v hvalues
      (bind_rest rest rest' hrest fun name hname => hnames name (List.mem_append_right _ hname))

/-- The elements of a pattern get the values of a walk in the same way. -/
theorem bind_elements (elements : List (Option Pattern)) (parts : List (Option TargetElement))
    (hparts : ElementsAreWrittenAs elements parts)
    (hnames : ∀ name ∈ elementNames elements, name ∈ names) (w : Walk) :
    SameFor (·.Knows c place names) (fun m => m.bindElements none elements w)
      fun m => m.assignElements parts w := by
  match elements with
  | [] =>
    cases hparts
    exact .of_eq fun m => rfl
  | none :: elements =>
    cases hparts with
    | hole h =>
    have hrest := bind_elements elements _ h hnames
    exact sameFor_after (rises_const (nextOf w)) (fun n L => Law.nextOf w)
      (fun x _ _ h => h.bindElements x.2 none elements) (fun x _ _ h => h.assignElements x.2 _) fun x =>
        hrest x.2
  | some p :: elements =>
    cases hparts with
    | @cons _ t e _ parts hp h =>
    have hnamed : ∀ name ∈ p.names, name ∈ names := fun name hname =>
      hnames name (List.mem_append_left _ hname)
    have hpart := bind_part p t e hp hnamed
    have hrest := bind_elements elements parts h
      (fun name hname => hnames name (List.mem_append_right _ hname))
    -- The place of the part is looked up before the next value is taken, which changes no variable.
    refine sameFor_part hp hnamed (rises_const (nextOf w)) (fun n L => Law.nextOf w)
      (fun x _ _ h => (h.run _).bind fun _ => h.bindElements x.2 none elements)
      (fun r x _ _ h => (h.assignPart _ ⟨t, e⟩ r).bind fun _ => h.assignElements x.2 parts) fun x => ?_
    exact (hpart _).bind (fun _ _ h => h.run _) (fun _ _ h => h.assignPart _ ⟨t, e⟩ _)
      (fun _ _ _ h => h.bindElements x.2 none elements) (fun _ _ _ h => h.assignElements x.2 parts)
      (fun n a ha => ha.after fun L => L.ofDepth n (.bind p _ none)) fun _ => hrest x.2

/-- The properties of a pattern get the properties of a value in the same way. -/
theorem bind_properties (properties : List PatternProperty) (parts : List TargetProperty)
    (hparts : PropertiesAreWrittenAs properties parts)
    (hnames : ∀ name ∈ propertyNames properties, name ∈ names) (v : Value) (keys : List PropertyKey) :
    SameFor (·.Knows c place names) (fun m => m.bindProperties none v properties keys)
      fun m => m.assignProperties v parts keys := by
  match properties with
  | [] =>
    cases hparts
    exact .of_eq fun m => rfl
  | ⟨name, p⟩ :: properties =>
    have hnamed : ∀ name ∈ p.names, name ∈ names := fun name hname =>
      hnames name (List.mem_append_left _ hname)
    have hrest := fun parts h => bind_properties properties parts h
      (fun name hname => hnames name (List.mem_append_right _ hname)) v
    have hpart := fun t e hp => bind_part p t e hp hnamed
    -- When a property has got its value, the others follow.
    have hafter : ∀ {t : Target} {e : Option Expr} {parts : List TargetProperty}
        (hp : p.IsWrittenAs t e) (h : PropertiesAreWrittenAs properties parts) (k : PropertyKey) (w : Value),
        SameFor (·.Knows c place names)
          (fun m => m.run (.bind p w none) >>= fun _ => m.bindProperties none v properties (k :: keys))
          fun m => m.assignPart ⟨t, e⟩ (placeOf place t) w >>= fun _ =>
            m.assignProperties v parts (k :: keys) := fun {t e parts} hp h k w =>
      (hpart t e hp w).bind (fun _ _ h => h.run _) (fun _ _ h => h.assignPart w ⟨t, e⟩ _)
        (fun _ _ _ h => h.bindProperties v _ none properties)
        (fun _ _ _ h => h.assignProperties v _ parts)
        (fun n a ha => ha.after fun L => L.ofDepth n (.bind p w none)) fun _ => hrest parts h _
    cases hparts with
    | @shorthand s name _ e _ parts hp h =>
      have hname : name ∈ names := by
        obtain ⟨q, hq, hsame⟩ := hp.plain
        obtain ⟨_, _, rfl, heq⟩ | ⟨-, ⟨_, _, heq⟩ | ⟨_, _, heq⟩⟩ := hq.cases <;> cases heq
        exact hnamed name (hsame ▸ List.mem_singleton_self name)
      exact .trans (.of_eq fun m => pure_bind _ _) (sameFor_shorthand hname s (hafter hp h name))
    | @named _ _ t e _ parts hp h =>
      -- The key is evaluated first on both sides, and only the place and the value change their
      -- order.
      refine sameFor_after (fun _ _ h => h.nameKey name) (fun n L => Law.nameKey (obeys_ofDepth L n) name)
        (fun k _ _ h => .bind (.refl trivial) fun w => (h.run _).bind fun _ =>
          h.bindProperties v _ none properties)
        (fun k _ _ h => (h.targetReference? t).bind fun r => .bind (.refl trivial) fun w =>
          (h.assignPart w ⟨t, e⟩ r).bind fun _ => h.assignProperties v _ parts) fun k => ?_
      exact sameFor_part hp hnamed (rises_const (getOf v k)) (fun n L => Law.getOf v k)
        (fun w _ _ h => (h.run _).bind fun _ => h.bindProperties v _ none properties)
        (fun r w _ _ h => (h.assignPart w ⟨t, e⟩ r).bind fun _ => h.assignProperties v _ parts)
        (hafter hp h k)

/-- So does what is left over. -/
theorem bind_rest (rest : Option Pattern) (rest' : Option Target) (hrest : RestIsWrittenAs rest rest')
    (hnames : ∀ name ∈ restNames rest, name ∈ names) : RestAgrees c place names rest rest' := by
  match rest with
  | none =>
    cases hrest
    exact .inl ⟨rfl, rfl⟩
  | some p =>
    cases hrest with
    | some ht => exact .inr ⟨p, _, rfl, rfl, ht, hnames, bind_part p _ none ht hnames⟩

end

end Machine

/-- **Declarations and assignments take values apart in the same way.**  Where no events are recorded,
and the names of a pattern stand for variables that may not be deleted, as those do that are declared for
a whole function, the pattern and the same pattern written as a target come to the same outcomes: both
leave the same state, having done all their work, or throw the same value in the same state, or neither
comes to an end. -/
theorem destructuring_agrees {p : Pattern} {t : Target} (ht : p.IsWrittenAs t none) {a : Agent}
    {c : Context} {place : String → EnvironmentId} (ha : a.Knows c place p.names) (v : Value)
    (r : EStateM.Result Interrupt Agent Unit) :
    Reaches (fun m => m.run (.bind p v none)) a r ↔ Reaches (fun m => m.run (.assign t v)) a r := by
  have hpart := Machine.bind_part p t none ht (fun _ => id) v a ha r
  refine hpart.trans ?_
  obtain ⟨s, name, rfl, rfl⟩ | ⟨-, ⟨_, _, rfl⟩ | ⟨_, _, rfl⟩⟩ := ht.cases
  · have htarget : Same (fun m => m.run (.assign (.identifier s name) v)) fun m =>
        m.targetReference? (.identifier s name) >>= fun o => o.elim (pure ()) (m.writeReference · v) := by
      refine Same.trans (fun _ _ => reaches_run) (.of_eq fun m => bind_congr fun o => ?_)
      cases o <;> rfl
    have hrises : ∀ o : Option Reference, Rises fun m => o.elim (pure ()) (m.writeReference · v) := by
      intro o _ _ h
      cases o with
      | none => exact .refl trivial
      | some x => exact h.writeReference v x
    exact ((htarget a r).trans (Machine.sameFor_targetReference? ht (fun _ => id) hrises a ha r)).symm
  · exact Iff.rfl
  · exact Iff.rfl

/-- An agent that evaluates where there are two variables, with an array. -/
def Agent.withNames : Agent :=
  { Agent.nameless with
    environments := ⟨#[some ⟨none, [("a", ⟨some .null, false, true, false⟩),
      ("b", ⟨some .null, false, true, false⟩)]⟩], [], 0⟩
    objects := #[.ofKind (.array (.ofList [.undefined, .boolean true]))] }

/-- The first element of an array is undefined and is replaced, and what is left of the array is taken
apart in its turn. -/
theorem destructuring_agrees_nested :
    let e : Expr := .constant ⟨5, 10⟩ (.boolean false)
    let p : Pattern := .array [some (.withDefault (.identifier "a") e)]
      (some (.array [some (.identifier "b")] none))
    let t : Target := .array [some ⟨.identifier ⟨1, 2⟩ "a", some e⟩]
      (some (.array [some ⟨.identifier ⟨16, 17⟩ "b", none⟩] none))
    p.IsWrittenAs t none ∧ Agent.withNames.Knows ⟨⟨0⟩, ⟨0⟩⟩ (fun _ => ⟨0⟩) p.names ∧
    ∃ b, Reaches (fun m => m.run (.bind p (.object ⟨0⟩) none)) .withNames (.ok () b) ∧
      Reaches (fun m => m.run (.assign t (.object ⟨0⟩))) .withNames (.ok () b) ∧
      (b.environments.find? ⟨0⟩ "a").map (·.value) = some (some (.boolean false)) ∧
      (b.environments.find? ⟨0⟩ "b").map (·.value) = some (some (.boolean true)) := by
  intro e p t
  have ht : p.IsWrittenAs t none :=
    .array (.cons (.withDefault .name) .nil) (.some (.array (.cons .name .nil) .none))
  have hnames : p.names = ["a", "b"] := rfl
  have ha : Agent.withNames.Knows ⟨⟨0⟩, ⟨0⟩⟩ (fun _ => ⟨0⟩) p.names := by
    -- The names are variables of one environment, and hold nothing that matters.
    refine ⟨⟨List.nodup_nil, fun i => ?_⟩, rfl, ⟨_, rfl, rfl⟩, ?_, ?_⟩
    · cases i <;> simp [Agent.withNames]
    · rw [hnames]
      decide
    · rw [hnames]
      intro name hname
      obtain rfl | rfl : name = "a" ∨ name = "b" := by simpa using hname
      · exact ⟨_, rfl, rfl⟩
      · exact ⟨_, rfl, rfl⟩
  have hrun : ∃ b, Task.run 5 (.bind p (.object ⟨0⟩) none) .withNames = .ok () b ∧
      (b.environments.find? ⟨0⟩ "a").map (·.value) = some (some (.boolean false)) ∧
      (b.environments.find? ⟨0⟩ "b").map (·.value) = some (some (.boolean true)) :=
    ⟨_, rfl, rfl, rfl⟩
  obtain ⟨b, hb, hvalues⟩ := hrun
  have hbind : Reaches (fun m => m.run (.bind p (.object ⟨0⟩) none)) .withNames (.ok () b) :=
    ⟨⟨5, hb⟩, nofun⟩
  exact ⟨ht, ha, b, hbind, (destructuring_agrees ht ha _ _).mp hbind, hvalues⟩

end Scriptlet
