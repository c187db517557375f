import Scriptlet.Proofs.Keeping

/-!
# Environments that stay

An environment that is there stays in its place while code is run, inside the same other one, and so do
its variables, unless they may be deleted.  Only tidying up removes environments, which no run does.

## Main definitions

* `Environment.Stays` — what stays of an environment.
* `Environments.Misses` — a chain of environments without the given one.
* `linking` — the law of computations that leave the links between environments.

## Main results

* `Environments.Misses.stay` — **what an environment is inside of stays the same**.
* `links_run` — every task leaves the links.
-/

namespace Scriptlet

open Eval

/-! ### Single environments -/

/-- Other variables stay when one is removed. -/
theorem Environment.find?_erase (x : Environment) {name n : String} (hn : n ≠ name) :
    (x.erase name).find? n = x.find? n := by
  change lookup n (x.entries.filter fun p => !(p.1 == name)) = lookup n x.entries
  induction x.entries with
  | nil => rfl
  | cons p l ih =>
    obtain ⟨m, v⟩ := p
    by_cases hm : m = name
    · subst hm
      rw [List.filter_cons_of_neg (by simp), ih, lookup, if_neg]
      simpa using hn.symm
    · rw [List.filter_cons_of_pos (by simpa using hm), lookup, lookup, ih]

/-- What stays of an environment: the environment around it, and the variables that may not be
deleted. -/
structure Environment.Stays (x y : Environment) : Prop where
  outer : y.outer = x.outer
  lasting : ∀ {name v}, x.find? name = some v → v.isDeletable = false →
    ∃ w, y.find? name = some w ∧ w.isDeletable = false

namespace Environment.Stays

variable {x y z : Environment}

theorem refl (x : Environment) : x.Stays x := ⟨rfl, fun hv hlasting => ⟨_, hv, hlasting⟩⟩

theorem trans (h : x.Stays y) (h' : y.Stays z) : x.Stays z where
  outer := h'.outer.trans h.outer
  lasting hv hlasting := by
    obtain ⟨w, hw, hlasting⟩ := h.lasting hv hlasting
    exact h'.lasting hw hlasting

theorem insert {name : String} {v : Variable}
    (hlasting : ∀ w, x.find? name = some w → w.isDeletable = false → v.isDeletable = false) :
    x.Stays (x.insert name v) where
  outer := rfl
  lasting {n w} hw hw' := by
    rw [find?_insert]
    split
    · next hn =>
      subst hn
      exact ⟨v, rfl, hlasting w hw hw'⟩
    · exact ⟨w, hw, hw'⟩

theorem erase {name : String} {v : Variable} (hv : x.find? name = some v)
    (hdeletable : v.isDeletable = true) : x.Stays (x.erase name) where
  outer := rfl
  lasting {n w} hw hlasting := by
    have hn : n ≠ name := by
      rintro rfl
      cases hv.symm.trans hw
      rw [hdeletable] at hlasting
      cases hlasting
    exact ⟨w, by rw [find?_erase x hn, hw], hlasting⟩

end Environment.Stays

/-! ### All environments -/

namespace Environments

variable {s t u : Environments} {e : EnvironmentId}

/-- The environments that are there stay there. -/
def Stay (s t : Environments) : Prop := 
  ∀ e x, s.get? e = some x → ∃ y, t.get? e = some y ∧ x.Stays y

theorem Stay.refl (s : Environments) : s.Stay s := fun _ x hx => ⟨x, hx, .refl x⟩

theorem Stay.trans (h : s.Stay t) (h' : t.Stay u) : s.Stay u := by
  intro e x hx
  obtain ⟨y, hy, hxy⟩ := h e x hx
  obtain ⟨z, hz, hyz⟩ := h' e y hy
  exact ⟨z, hz, hxy.trans hyz⟩

theorem stay_set {x y : Environment} (hx : s.get? e = some x) (hxy : x.Stays y) : s.Stay (s.set e y) := by
  intro i z hz
  by_cases hi : i = e
  · subst hi
    cases hx.symm.trans hz
    exact ⟨y, get?_set_self hx y, hxy⟩
  · exact ⟨z, by rw [get?_set_of_ne hi, hz], .refl z⟩

theorem stay_allocate (h : s.IsTidy) (x : Environment) : s.Stay (s.allocate x).2 := by
  intro i z hz
  have hi : i ≠ (s.allocate x).1 := by
    rintro rfl
    rw [vacant_allocate h] at hz
    cases hz
  exact ⟨z, by rw [get?_allocate_of_ne _ hi, hz], .refl z⟩

/-- The environments from the given one outwards are there, and the other one is not among them. -/
inductive Misses (s : Environments) (e : EnvironmentId) : Option EnvironmentId → Prop
  | nowhere : Misses s e none
  | inside {i : EnvironmentId} {x : Environment} (hx : s.get? i = some x) (hne : i ≠ e)
    (outer : Misses s e x.outer) : Misses s e (some i)

/-- **What an environment is inside of stays the same.** -/
theorem Misses.stay {o : Option EnvironmentId} (h : s.Misses e o) (hst : s.Stay t) : t.Misses e o := by
  induction h with
  | nowhere => exact .nowhere
  | inside hx hne _ ih =>
    obtain ⟨y, hy, hxy⟩ := hst _ _ hx
    exact .inside hy hne (hxy.outer ▸ ih)

end Environments

/-! ### All evaluation -/

/-- The environments of the first agent stay in the second one; the free places are in order. -/
def Agent.Links (a b : Agent) : Prop :=
  a.environments.IsTidy → b.environments.IsTidy ∧ a.environments.Stay b.environments

namespace Agent.Links

variable {a b c : Agent}

/-- Nothing is unlinked as long as the environments are the same. -/
theorem of_same (h : b.environments = a.environments) : a.Links b := fun ha => by
  rw [h]
  exact ⟨ha, .refl _⟩

theorem refl (a : Agent) : a.Links a := of_same rfl

theorem trans (h : a.Links b) (h' : b.Links c) : a.Links c := fun ha =>
  ⟨(h' (h ha).1).1, (h ha).2.trans (h' (h ha).1).2⟩

theorem isOutward : IsOutward Links := ⟨fun h _ _ => of_same h, trans⟩

theorem set {e : EnvironmentId} {x y : Environment} (hx : a.environments.get? e = some x)
    (hxy : x.Stays y) (h : b.environments = a.environments.set e y) : a.Links b := fun ha => by
  rw [h]
  exact ⟨Environments.isTidy_set ha hx y, Environments.stay_set hx hxy⟩

end Agent.Links

/-- The computation leaves the links between environments. -/
abbrev Linking {α : Type} (p : Eval α) : Prop := Leads Agent.Links p

namespace Linking

variable {α β : Type} {p : Eval α} {f : α → Eval β} {e : EnvironmentId}

theorem bind (h : Linking p) (hf : ∀ x, Linking (f x)) : Linking (p >>= f) := h.seq .trans hf

theorem pure (x : α) : Linking (Pure.pure x : Eval α) := .refl

/-- What only alters an environment unlinks none. -/
theorem of_altering {adds : Prop} (h : Altering e adds p) : Linking p := by
  intro a
  have halters : a.environments.Alters e adds (p.after a).environments := h a
  obtain hsame | ⟨x, name, v, hx, hlasting, -, hset⟩ := halters.cases
  · exact .of_same hsame
  · exact .set hx (.insert hlasting) hset

/-- What can be deleted does not have to last. -/
theorem deleteVariable (e : EnvironmentId) (name : String) : Linking (Eval.deleteVariable e name) := by
  intro a
  unfold Eval.deleteVariable
  cases hx : a.environments.get? e with
  | none =>
    rw [after_error (bind_error (environmentAt_of_none hx))]
    exact .refl a
  | some x =>
    unfold Eval.after
    rw [bind_ok (environmentAt_apply hx)]
    cases hv : x.find? name with
    | none => exact .refl a
    | some v =>
      dsimp only
      -- Deleting changes a record only by a deletable variable.
      by_cases hdeletable : v.isDeletable = true
      · rw [if_pos hdeletable, bind_ok (updateEnvironment_apply hx _)]
        exact .set hx (.erase hv hdeletable) rfl
      · rw [if_neg hdeletable]
        exact .refl a

/-- A new environment is linked to one that is there. -/
theorem newEnvironment (outer : Option EnvironmentId) : Linking (Eval.newEnvironment outer) :=
  fun _ ha => ⟨Environments.isTidy_allocate ha _, Environments.stay_allocate ha _⟩

theorem functionValue (f : Function) : Linking (Eval.functionValue f) := by
  have hclosure := fun e name => Agent.Links.isOutward.closure f e name
  refine bind Agent.Links.isOutward.environment fun e => ?_
  split
  · exact hclosure e ""
  · next name _ =>
    refine bind (newEnvironment _) fun i => bind (of_altering (.createVariable i name rfl)) fun _ => ?_
    refine bind (hclosure i _) fun v => bind (of_altering (.initializeVariable i name v)) fun _ => ?_
    exact pure v

/-! #### What is around a computation -/

theorem setEnvironment (e : EnvironmentId) : Linking (Eval.setEnvironment e) := by
  intro a
  rw [after_setEnvironment]
  exact .of_same (environments_withEnvironmentOf e a)

/-- What is done at the end does not touch environments. -/
theorem ending (f : Agent → Agent) (hf : ∀ a, (f a).environments = a.environments) (h : Linking p) :
    Linking (Eval.ending p f) := fun a => by
  rw [after_ending]
  exact (h a).trans (.of_same (hf _))

/-- Variables of all environments may be created and changed. -/
theorem fills (e : EnvironmentId) : Law.Fills (.outward Agent.Links.isOutward functionValue deleteVariable) e :=
  ⟨fun name _ hv => of_altering (.createVariable e name hv),
    fun name v => of_altering (.initializeVariable e name v),
    fun name v isStrict => of_altering (.writeVariable e name v isStrict)⟩

end Linking

/-- **The law of computations that leave the links between environments.** -/
def linking : GeneralLaw where
  toLaw := .outward Agent.Links.isOutward Linking.functionValue Linking.deleteVariable
  Roams := Linking
  roam := id
  bindRoaming := Linking.bind
  iterateRoaming := Leads.iterate .refl .trans
  setEnvironment := Linking.setEnvironment
  inEnvironment e h := Linking.bind Agent.Links.isOutward.environment fun old =>
    Linking.bind (Linking.setEnvironment e) fun _ =>
      Linking.ending _ (environments_withEnvironmentOf old) h
  inContext _ h := Linking.bind (f := fun _ => ending _ _) (fun _ => .of_same rfl) fun _ =>
    Linking.ending _ (fun _ => rfl) h
  opens _ _ outer hf := Linking.bind (Linking.newEnvironment outer) fun e => hf e (Linking.fills e)
  opensRoaming outer hf := Linking.bind (Linking.newEnvironment outer) fun e => hf e (Linking.fills e)
  initializeVariable e name v := Linking.of_altering (.initializeVariable e name v)
  assignVariable e name v := Linking.of_altering (.writeVariable e name v true)

/-- **Every task leaves the links between environments.** -/
theorem links_run (n : Nat) {α : Type} (t : Task α) : Linking (Task.run n t) := linking.ofDepth n t

/-- **Whatever a host asks for leaves the links between environments**, if it does not tidy up. -/
theorem links_answer (n : Nat) (r : Request) : Linking (r.answer (.ofDepth n) .nothing) :=
  GeneralLaw.answer (linking.ofDepth n) Agent.Links.isOutward.concluding Agent.Links.refl r

end Scriptlet
