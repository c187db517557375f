import Scriptlet.Proofs.Growth
import Scriptlet.Proofs.Lifetimes
import Scriptlet.Proofs.Realms

/-!
# Changes of single names

Before the body of a function runs, its names are made one after the other, and each step is of concern
to one name of one environment only.  What all of the steps leave behind is known from what each of them
does to its name.

## Main definitions

* `Agent.Touches` — nothing but some names of an environment differs, and closures may be new.
* `Variable.holding` — a variable that changes, with a value.

## Main results

* `Eval.forM_ok` — **what is done for each of several names is done for each of them**.
* `Eval.createVariable_ok`, `Eval.createParameter_ok`, `Eval.assignFunction_ok` and the like — what a
  step leaves behind if it has a result.
-/

namespace Scriptlet

open Eval

variable {a b c : Agent} {i : EnvironmentId} {name : String} {ns ms : List String}

/-! ### Changes of some names of an environment -/

/-- Nothing but variables of the given names in one environment differs, and closures may be new. -/
structure Agent.Touches (i : EnvironmentId) (ns : List String) (a b : Agent) : Prop where
  contexts : b.contexts = a.contexts
  closures : ∀ o f, (a.object o).kind = .closure f → (b.object o).kind = .closure f
  others : ∀ j, j ≠ i → b.environments.get? j = a.environments.get? j
  outer : (b.environments.get? i).map (·.outer) = (a.environments.get? i).map (·.outer)
  find : ∀ n, n ∉ ns → b.environments.find? i n = a.environments.find? i n

namespace Agent.Touches

theorem refl (a : Agent) (i : EnvironmentId) (ns : List String) : a.Touches i ns a :=
  ⟨rfl, fun _ _ h => h, fun _ _ => rfl, rfl, fun _ _ => rfl⟩

theorem mono (h : a.Touches i ns b) (hns : ns ⊆ ms) : a.Touches i ms b :=
  ⟨h.contexts, h.closures, h.others, h.outer, fun n hn => h.find n fun hmem => hn (hns hmem)⟩

/-- Functions that there were are there. -/
theorem isOrderly (h : a.Touches i ns b) (hb : b.IsOrderly) : a.IsOrderly := by
  refine hb.of_kept fun o f hf => ?_
  unfold Object.code? at hf ⊢
  split at hf
  · next g hg =>
    rw [h.closures o g hg]
    exact hf
  · cases hf

theorem trans (h : a.Touches i ns b) (h' : b.Touches i ns c) : a.Touches i ns c where
  contexts := h'.contexts.trans h.contexts
  closures o f hf := h'.closures o f (h.closures o f hf)
  others j hj := (h'.others j hj).trans (h.others j hj)
  outer := h'.outer.trans h.outer
  find n hn := (h'.find n hn).trans (h.find n hn)

/-- Setting one variable touches its name only. -/
theorem set {x : Environment} (hx : a.environments.get? i = some x) (name : String) (v : Variable) :
    a.Touches i [name] { a with environments := a.environments.set i (x.insert name v) } where
  contexts := rfl
  closures _ _ h := h
  others _ hj := Environments.get?_set_of_ne hj _
  outer := by
    rw [Environments.get?_set_self hx, hx]
    rfl
  find n hn := by
    rw [Environments.find?_set hx, if_neg fun h => hn (List.mem_singleton.mpr h.2)]

/-- A new closure. -/
theorem push (a : Agent) (i : EnvironmentId) (x : Object) :
    a.Touches i [] { a with objects := a.objects.push x } where
  contexts := rfl
  closures o f h := by
    by_cases ho : o.index < a.objects.size
    · rwa [Agrees.object_pushObject ho]
    · rw [Agent.object, Array.getD_eq_getD_getElem?, Array.getElem?_eq_none (Nat.le_of_not_lt ho)] at h
      cases h
  others _ _ := rfl
  outer := rfl
  find _ _ := rfl

end Agent.Touches

/-- A variable that changes, with a value. -/
def Variable.holding (value : Value) : Variable := { Variable.changing with value := some value }

namespace Eval

/-! ### Single operations -/

/-- What puts a variable into an environment touches its name, and finds it there afterwards. -/
theorem touches_of_update {f : Environment → Environment} {u : Unit} {v : Variable}
    (h : updateEnvironment i f a = .ok u b) (hf : ∀ x, f x = x.insert name v) :
    a.Touches i [name] b ∧ b.environments.find? i name = some v := by
  unfold updateEnvironment at h
  obtain ⟨x, d, hx, hrest⟩ := bind_eq_ok h
  obtain ⟨rfl, hx⟩ := environmentAt_ok hx
  cases hrest
  rw [hf]
  refine ⟨.set hx name v, ?_⟩
  dsimp only
  rw [Environments.find?_set hx, if_pos ⟨rfl, rfl⟩]

theorem createVariable_ok {u : Unit} {v : Variable} (h : createVariable i name v a = .ok u b) :
    a.Touches i [name] b ∧ b.environments.find? i name = some v :=
  touches_of_update h fun _ => rfl

theorem initializeVariable_ok {u : Unit} {value : Value}
    (h : initializeVariable i name value a = .ok u b) :
    a.Touches i [name] b ∧ ∃ v, a.environments.find? i name = some v ∧
      b.environments.find? i name = some { v with value := some value } := by
  unfold initializeVariable at h
  obtain ⟨x, d, hx, hrest⟩ := bind_eq_ok h
  obtain ⟨rfl, hx⟩ := environmentAt_ok hx
  cases hv : x.find? name with
  | none => rw [hv] at hrest; cases hrest
  | some v =>
    rw [hv] at hrest
    obtain ⟨htouches, hfind⟩ := touches_of_update hrest fun _ => rfl
    exact ⟨htouches, v, by rw [Environments.find?_of_get? hx, hv], hfind⟩

theorem hasVariable_ok {x : Bool} (h : hasVariable i name a = .ok x b) :
    b = a ∧ x = (a.environments.find? i name).isSome := by
  obtain ⟨y, d, hy, hrest⟩ := bind_eq_ok h
  obtain ⟨rfl, hy⟩ := environmentAt_ok hy
  cases hrest
  exact ⟨rfl, by rw [Environments.find?_of_get? hy]; rfl⟩

theorem readVariable_ok {value : Value} (h : readVariable i name a = .ok value b) :
    b = a ∧ (a.environments.find? i name).bind (·.value) = some value := by
  unfold readVariable at h
  obtain ⟨x, d, hx, hrest⟩ := bind_eq_ok h
  obtain ⟨rfl, hx⟩ := environmentAt_ok hx
  rw [Environments.find?_of_get? hx]
  cases hv : (x.find? name).bind (·.value) with
  | none =>
    rw [hv] at hrest
    cases hrest
  | some w =>
    rw [hv] at hrest
    cases hrest
    exact ⟨rfl, rfl⟩

/-- Assigning to a variable that changes. -/
theorem writeVariable_ok {u : Unit} {value : Value} {v : Variable}
    (hv : a.environments.find? i name = some v) (hmutable : v.isMutable = true)
    (h : writeVariable i name value false a = .ok u b) :
    a.Touches i [name] b ∧ v.value.isSome = true ∧
      b.environments.find? i name = some { v with value := some value } := by
  unfold writeVariable at h
  obtain ⟨x, d, hx, hrest⟩ := bind_eq_ok h
  obtain ⟨rfl, hx⟩ := environmentAt_ok hx
  rw [Environments.find?_of_get? hx] at hv
  rw [hv] at hrest
  dsimp only at hrest
  cases hvalue : v.value with
  | none => rw [hvalue] at hrest; cases hrest
  | some w =>
    rw [hvalue, if_neg (by simp), if_pos hmutable] at hrest
    obtain ⟨htouches, hfind⟩ := touches_of_update hrest fun _ => rfl
    exact ⟨htouches, rfl, hfind⟩

/-- A new environment is made in a vacant place. -/
theorem newEnvironment_ok {outer : Option EnvironmentId} (ha : a.environments.IsTidy)
    (h : newEnvironment outer a = .ok i b) : a.environments.get? i = none ∧
      b.environments.get? i = some ⟨outer, []⟩ ∧
      (∀ j, j ≠ i → b.environments.get? j = a.environments.get? j) ∧
      b.contexts = a.contexts ∧ b.objects = a.objects := by
  cases h
  exact ⟨Environments.vacant_allocate ha _, Environments.get?_allocate_self ha _,
    fun _ hj => Environments.get?_allocate_of_ne _ hj, rfl, rfl⟩

/-! ### One name after the other -/

/-- **What is done for each of several names** is done for each of them: what one step brings about for
its name is kept by those for other names. -/
theorem forM_ok {α : Type} {key : α → String} {p : α → Eval PUnit} {I : Agent → Prop}
    {Q : α → Option Variable → Agent → Prop} {l : List α} (hl : (l.map key).Nodup)
    (hp : ∀ d ∈ l, ∀ {a u b}, I a → p d a = .ok u b →
      a.Touches i [key d] b ∧ I b ∧ Q d (a.environments.find? i (key d)) b)
    (hQ : ∀ d v {b c ms}, Q d v b → b.Touches i ms c → key d ∉ ms → Q d v c) {u : PUnit}
    (ha : I a) (h : l.forM p a = .ok u b) :
    a.Touches i (l.map key) b ∧ I b ∧ ∀ d ∈ l, Q d (a.environments.find? i (key d)) b := by
  induction l generalizing a with
  | nil =>
    cases h
    exact ⟨.refl _ _ _, ha, nofun⟩
  | cons d l ih =>
    obtain ⟨u', m, hd, hrest⟩ := bind_eq_ok (p := p d) (f := fun _ => l.forM p) h
    -- No later step is of concern to the first name, nor the first step to a later name.
    obtain ⟨hfresh, hnodup⟩ := List.nodup_cons.mp hl
    obtain ⟨htouches, hm, hdone⟩ := hp d List.mem_cons_self ha hd
    obtain ⟨htouches', hb, hall⟩ := ih hnodup (fun d hd => hp d (List.mem_cons_of_mem _ hd)) hm hrest
    have hfirst : a.Touches i ((d :: l).map key) m := htouches.mono (by simp)
    refine ⟨hfirst.trans (htouches'.mono (by simp)), hb, ?_⟩
    refine List.forall_mem_cons.mpr ⟨hQ d _ hdone htouches' hfresh, fun d' hd' => ?_⟩
    have hne : key d' ∉ [key d] := fun heq => by
      rw [List.mem_singleton] at heq
      exact hfresh (heq ▸ List.mem_map_of_mem hd')
    rw [← htouches.find _ hne]
    exact hall d' hd'

/-- The same for what makes a variable of the one that there is. -/
theorem forM_ok_of_eq {α : Type} {key : α → String} {p : α → Eval PUnit} {I : Agent → Prop}
    {G : α → Option Variable → Option Variable} {l : List α} (hl : (l.map key).Nodup)
    (hp : ∀ d ∈ l, ∀ {a u b}, I a → p d a = .ok u b → a.Touches i [key d] b ∧ I b ∧
      b.environments.find? i (key d) = G d (a.environments.find? i (key d))) {u : PUnit}
    (ha : I a) (h : l.forM p a = .ok u b) :
    a.Touches i (l.map key) b ∧ I b ∧
      ∀ d ∈ l, b.environments.find? i (key d) = G d (a.environments.find? i (key d)) :=
  forM_ok (Q := fun d v b => b.environments.find? i (key d) = G d v) hl hp
    (fun _ _ _ _ _ hv htouches hne => (htouches.find _ hne).trans hv) ha h

/-! ### The names of a function -/

section

variable {d : Declaration} {u : Unit}

/-- A parameter that is there already stays as it is. -/
theorem createParameter_ok (h : createParameter i d a = .ok u b) :
    a.Touches i [d.name] b ∧ b.environments.find? i d.name =
      if d.isKind .parameter then a.environments.find? i d.name <|> some .changing
      else a.environments.find? i d.name := by
  unfold createParameter at h
  cases hk : d.isKind .parameter with
  | false =>
    rw [hk] at h
    cases h
    exact ⟨.refl _ _ _, rfl⟩
  | true =>
    rw [hk, if_pos rfl] at h
    obtain ⟨x, m, hx, hrest⟩ := bind_eq_ok h
    obtain ⟨rfl, hx⟩ := hasVariable_ok hx
    cases hv : m.environments.find? i d.name with
    | none =>
      rw [hv] at hx
      subst hx
      exact createVariable_ok hrest
    | some v =>
      rw [hv] at hx
      subst hx
      cases hrest
      exact ⟨.refl _ _ _, hv⟩

theorem createFilled_ok {value : Value} (h : (do
      createVariable i name .changing
      initializeVariable i name value : Eval Unit) a = .ok u b) :
    a.Touches i [name] b ∧ b.environments.find? i name = some (.holding value) := by
  obtain ⟨u', m, hm, hrest⟩ := bind_eq_ok h
  obtain ⟨htouches, hfind⟩ := createVariable_ok hm
  obtain ⟨htouches', v, hv, hfind'⟩ := initializeVariable_ok hrest
  cases hfind.symm.trans hv
  exact ⟨htouches.trans htouches', hfind'⟩

/-- Parameters are left to the arguments. -/
theorem createFunctionWide_ok (h : createFunctionWide i d a = .ok u b) :
    a.Touches i [d.name] b ∧ b.environments.find? i d.name =
      if d.isFunctionWide && !d.isKind .parameter then some (.holding .undefined)
      else a.environments.find? i d.name := by
  unfold createFunctionWide at h
  split at h
  · next hd =>
    rw [if_pos hd]
    exact createFilled_ok h
  · next hd =>
    rw [if_neg hd]
    cases h
    exact ⟨.refl _ _ _, rfl⟩

theorem startValue_ok {e : EnvironmentId} {value : Value} (h : startValue e d a = .ok value b) :
    b = a ∧ (d.isInherited = true → (a.environments.find? e d.name).bind (·.value) = some value) ∧
      (d.isInherited = false → value = .undefined) := by
  unfold startValue at h
  split at h
  · next hd =>
    obtain ⟨rfl, hvalue⟩ := readVariable_ok h
    exact ⟨rfl, fun _ => hvalue, fun hd' => by rw [hd'] at hd; cases hd⟩
  · next hd =>
    cases h
    exact ⟨rfl, fun hd' => absurd hd' hd, fun _ => rfl⟩

/-- The value is read from another environment, so the order of the names does not matter. -/
theorem inheritVariable_ok {e : EnvironmentId} (he : e ≠ i) (h : inheritVariable e i d a = .ok u b) :
    a.Touches i [d.name] b ∧ (d.isFunctionWide = false →
        b.environments.find? i d.name = a.environments.find? i d.name) ∧
      (d.isFunctionWide = true → ∃ value, b.environments.find? i d.name = some (.holding value) ∧
        (d.isInherited = true → (a.environments.find? e d.name).bind (·.value) = some value) ∧
        (d.isInherited = false → value = .undefined)) := by
  unfold inheritVariable at h
  split at h
  · next hd =>
    obtain ⟨u', m, hm, hrest⟩ := bind_eq_ok h
    obtain ⟨value, m', hvalue, hlast⟩ := bind_eq_ok hrest
    obtain ⟨htouches, hfind⟩ := createVariable_ok hm
    obtain ⟨rfl, hinherited, hother⟩ := startValue_ok hvalue
    obtain ⟨htouches', v, hv, hfind'⟩ := initializeVariable_ok hlast
    cases hfind.symm.trans hv
    refine ⟨htouches.trans htouches', fun hd' => ?_, fun _ => ⟨value, hfind', fun hd' => ?_, hother⟩⟩
    · rw [hd] at hd'
      cases hd'
    · rw [← hinherited hd', Environments.find?, Environments.find?, htouches.others e he]
  · next hd =>
    cases h
    exact ⟨.refl _ _ _, fun _ => rfl, fun hd' => absurd hd' hd⟩

/-- What is declared in two ways is created as a constant. -/
theorem createLexical_ok (h : createLexical i d a = .ok u b) :
    a.Touches i [d.name] b ∧ b.environments.find? i d.name =
      if d.isKind .const then some (.constant true) else if d.isKind .let then some .changing
      else a.environments.find? i d.name := by
  unfold createLexical at h
  split at h
  · next hd =>
    rw [if_pos hd]
    exact createVariable_ok h
  · next hd =>
    rw [if_neg hd]
    split at h
    · next hd' =>
      rw [if_pos hd']
      exact createVariable_ok h
    · next hd' =>
      rw [if_neg hd']
      cases h
      exact ⟨.refl _ _ _, rfl⟩

end

/-- A declared function is given to its name, if the variable changes. -/
theorem assignFunction_ok {f : Function} {o : Context} {rest : List Context} {u : Unit} {v : Variable}
    (hc : a.contexts = o :: rest) (hname : f.name = some name)
    (hv : a.environments.find? i name = some v) (hmutable : v.isMutable = true)
    (h : assignFunction i f a = .ok u b) :
    a.Touches i [name] b ∧ ∃ object, b.environments.find? i name =
        some { v with value := some (.object object) } ∧
      (b.object object).kind = .closure ⟨f, i, o.realm, name⟩ := by
  unfold assignFunction at h
  rw [hname] at h
  dsimp only at h
  obtain ⟨w, m, hw, hrest⟩ := bind_eq_ok h
  unfold declaredFunction at hw
  rw [hname, Option.getD_some, closure_apply hc] at hw
  generalize hx : Object.ofKind (.closure ⟨f, i, o.realm, name⟩) = x at hw
  have hkind : x.kind = .closure ⟨f, i, o.realm, name⟩ := by rw [← hx]; rfl
  clear hx
  cases hw
  -- The closure is there before the name has it, so that it stays when the name gets it.
  have hpush := Agent.Touches.push a i x
  generalize hm : ({ a with objects := a.objects.push x } : Agent) = m at hrest hpush
  obtain ⟨htouches, -, hfind⟩ := writeVariable_ok ((hpush.find name (by simp)).trans hv) hmutable hrest
  refine ⟨(hpush.mono (by simp)).trans htouches, ⟨a.objects.size⟩, hfind, ?_⟩
  refine htouches.closures _ _ ?_
  rw [← hm, Agent.object]
  simpa using hkind

end Eval

end Scriptlet
