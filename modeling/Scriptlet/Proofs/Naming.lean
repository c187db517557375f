import Scriptlet.Proofs.Blocks
import Scriptlet.Proofs.Lifetimes
import Scriptlet.Proofs.Linking

/-!
# Names stay what they stand for

What declares names creates them in environments of its own, which are new.  An environment that was
there before gets no names while code is run, and those that it has stay.  So a name stands for the
same variable before and after.

## Main definitions

* `Environments.Closes` — an environment has no names that it did not have.
* `naming` — the law of computations that give no names to an environment that is there.

## Main results

* `names_run` — every task leaves the names of an environment.
* `Environments.holder_of_closes` — **a name stands for the same variable** then.
-/

namespace Scriptlet

open Eval

/-! ### Environments -/

namespace Environments

variable {s t u : Environments} {e i : EnvironmentId} {x : Environment}

/-- The environment is there, and has no names later that it does not have.  No places are given up, and
the free ones are in order. -/
structure Closes (s : Environments) (e : EnvironmentId) (t : Environments) : Prop where
  tidy : t.IsTidy
  size : s.records.size ≤ t.records.size
  names : ∃ x y, s.get? e = some x ∧ t.get? e = some y ∧ ∀ name, y.has name = true → x.has name = true

namespace Closes

theorem refl (hs : s.IsTidy) (hx : s.get? e = some x) : s.Closes e s :=
  ⟨hs, Nat.le_refl _, x, x, hx, hx, fun _ => id⟩

theorem trans (h : s.Closes e t) (h' : t.Closes e u) : s.Closes e u where
  tidy := h'.tidy
  size := Nat.le_trans h.size h'.size
  names := by
    obtain ⟨x, y, hx, hy, hxy⟩ := h.names
    obtain ⟨y', z, hy', hz, hyz⟩ := h'.names
    cases hy.symm.trans hy'
    exact ⟨x, z, hx, hz, fun name hname => hxy name (hyz name hname)⟩

/-- A change of an environment; its names stay if it is the given one. -/
theorem set (hs : s.IsTidy) (he : s.get? e = some x) {y z : Environment} (hi : s.get? i = some y)
    (hz : i = e → ∀ name, z.has name = true → y.has name = true) : s.Closes e (s.set i z) where
  tidy := isTidy_set hs hi z
  size := by
    unfold Environments.set
    rw [Array.size_setIfInBounds]
  names := by
    by_cases hie : i = e
    · subst hie
      exact ⟨y, z, hi, get?_set_self hi z, hz rfl⟩
    · exact ⟨x, x, he, by rw [get?_set_of_ne (Ne.symm hie), he], fun _ => id⟩

theorem allocate (hs : s.IsTidy) (he : s.get? e = some x) (y : Environment) :
    (s.allocate y).1 ≠ e ∧ s.Closes e (s.allocate y).2 := by
  have hne : (s.allocate y).1 ≠ e := by
    rintro rfl
    rw [vacant_allocate hs] at he
    cases he
  refine ⟨hne, isTidy_allocate hs y, ?_, x, x, he, by rw [get?_allocate_of_ne _ hne.symm, he], fun _ => id⟩
  obtain ⟨records, free, threshold⟩ := s
  cases free with
  | nil =>
    change records.size ≤ (records.push _).size
    rw [Array.size_push]
    exact Nat.le_succ _
  | cons i free =>
    change records.size ≤ (records.setIfInBounds i _).size
    rw [Array.size_setIfInBounds]

end Closes

/-- A search ends where there is a variable. -/
theorem find?_of_holderFrom {name : String} {n : Nat} {o : Option EnvironmentId}
    (h : s.holderFrom name n o = .environment i) : ∃ v, s.find? i name = some v := by
  induction n generalizing o with
  | zero => cases o <;> cases h
  | succ n ih =>
    cases o with
    | none => cases h
    | some e =>
      rw [Environments.holderFrom] at h
      cases hx : s.get? e with
      | none =>
        rw [hx] at h
        cases h
      | some x =>
        rw [hx] at h
        dsimp only at h
        by_cases hhas : x.has name = true
        · rw [if_pos hhas] at h
          cases h
          obtain ⟨v, hv⟩ := Option.isSome_iff_exists.mp hhas
          exact ⟨v, by rw [find?_of_get? hx, hv]⟩
        · rw [if_neg hhas] at h
          exact ih h

/-- **A search ends where it ended before**, if the variable that it has found may not be deleted. -/
theorem holderFrom_of_closes {name : String} {v : Variable} (hst : s.Stay t)
    (hcloses : ∀ e x, s.get? e = some x → s.Closes e t) (hv : s.find? i name = some v)
    (hlasting : v.isDeletable = false) {n m : Nat} (hnm : n ≤ m) {o : Option EnvironmentId}
    (h : s.holderFrom name n o = .environment i) : t.holderFrom name m o = .environment i := by
  induction n generalizing o m with
  | zero => cases o <;> cases h
  | succ n ih =>
    obtain ⟨m, rfl⟩ := Nat.exists_eq_add_of_le' (Nat.le_trans n.succ_pos hnm)
    cases o with
    | none => cases h
    | some e =>
      rw [Environments.holderFrom] at h
      cases hx : s.get? e with
      | none =>
        rw [hx] at h
        cases h
      | some x =>
        obtain ⟨y, hy, hstays⟩ := hst e x hx
        obtain ⟨x', y', hx', hy', hnames⟩ := (hcloses e x hx).names
        cases hx.symm.trans hx'
        cases hy.symm.trans hy'
        rw [hx] at h
        rw [Environments.holderFrom, hy]
        dsimp only at h ⊢
        -- No name has come since, so that the search goes on where it went on before.
        by_cases hhas : x.has name = true
        · rw [if_pos hhas] at h
          cases h
          rw [find?_of_get? hx] at hv
          obtain ⟨w, hw, -⟩ := hstays.lasting hv hlasting
          rw [if_pos (by rw [Environment.has, hw]; rfl)]
        · rw [if_neg hhas] at h
          rw [if_neg fun hy => hhas (hnames name hy), hstays.outer]
          exact ih (Nat.le_of_succ_le_succ hnm) h

/-- **A name stands for the same variable.** -/
theorem holder_of_closes {name : String} {v : Variable} (hst : s.Stay t)
    (hcloses : ∀ e x, s.get? e = some x → s.Closes e t) (hv : s.find? i name = some v)
    (hlasting : v.isDeletable = false) (h : s.holder name e = .environment i) :
    t.holder name e = .environment i := by
  obtain ⟨x, hx, -⟩ := get?_of_find? hv
  exact holderFrom_of_closes hst hcloses hv hlasting (Nat.succ_le_succ (hcloses i x hx).size) h

end Environments

/-! ### All evaluation -/

/-- The environment gets no names, if it is there. -/
def Agent.Names (e : EnvironmentId) (a b : Agent) : Prop :=
  ∀ x, a.environments.IsTidy → a.environments.get? e = some x → a.environments.Closes e b.environments

namespace Agent.Names

variable {a b c : Agent} {e i : EnvironmentId}

theorem of_same (h : b.environments = a.environments) : Names e a b := fun _ ha hx => by
  rw [h]
  exact .refl ha hx

theorem refl (a : Agent) (e : EnvironmentId) : Names e a a := of_same rfl

theorem trans (h : Names e a b) (h' : Names e b c) : Names e a c := fun x ha hx => by
  obtain ⟨-, y, -, hy, -⟩ := (h x ha hx).names
  exact (h x ha hx).trans (h' y (h x ha hx).tidy hy)

theorem isOutward (e : EnvironmentId) : IsOutward (Names e) := ⟨fun h _ _ => of_same h, trans⟩

theorem set {x y : Environment} (hx : a.environments.get? i = some x)
    (hy : i = e → ∀ name, y.has name = true → x.has name = true)
    (h : b.environments = a.environments.set i y) : Names e a b := fun _ ha he => by
  rw [h]
  exact .set ha he hx hy

end Agent.Names

/-- The computation gives no names to the environment if it is there. -/
abbrev Naming {α : Type} (e : EnvironmentId) (p : Eval α) : Prop := Leads (Agent.Names e) p

namespace Naming

variable {α β : Type} {e i : EnvironmentId} {p : Eval α} {f : α → Eval β}

theorem bind (h : Naming e p) (hf : ∀ x, Naming e (f x)) : Naming e (p >>= f) := h.seq .trans hf

/-- A new variable is one of another environment. -/
theorem of_altering {adds : Prop} (h : Altering i adds p) (hadds : i = e → ¬adds) : Naming e p := by
  intro a
  have halters : a.environments.Alters i adds (p.after a).environments := h a
  obtain hsame | ⟨x, name, v, hx, -, hnew, hset⟩ := halters.cases
  · exact .of_same hsame
  · refine .set hx (fun hi n hn => ?_) hset
    rw [Environment.has_insert] at hn
    rcases hn with rfl | hn
    · refine Option.isSome_iff_ne_none.mpr fun hnone => ?_
      exact hadds hi (hnew hnone)
    · exact hn

theorem initializeVariable (i : EnvironmentId) (name : String) (v : Value) :
    Naming e (Eval.initializeVariable i name v) :=
  of_altering (.initializeVariable i name v) fun _ => id

theorem deleteVariable (i : EnvironmentId) (name : String) : Naming e (Eval.deleteVariable i name) := by
  intro a
  unfold Eval.deleteVariable
  cases hx : a.environments.get? i with
  | none =>
    rw [after_error (bind_error (environmentAt_of_none hx))]
    exact .refl a e
  | some x =>
    unfold Eval.after
    rw [bind_ok (environmentAt_apply hx)]
    cases hv : x.find? name with
    | none => exact .refl a e
    | some v =>
      dsimp only
      by_cases hdeletable : v.isDeletable = true
      · rw [if_pos hdeletable, bind_ok (updateEnvironment_apply hx _)]
        refine .set hx (fun _ n hn => ?_) rfl
        by_cases hname : n = name
        · subst hname
          unfold Environment.has
          rw [hv]
          rfl
        · unfold Environment.has at hn ⊢
          rwa [Environment.find?_erase x hname] at hn
      · rw [if_neg hdeletable]
        exact .refl a e

/-- Variables of other environments may be created. -/
theorem createVariable (hi : i ≠ e) (name : String) {v : Variable} (hv : v.isDeletable = false) :
    Naming e (Eval.createVariable i name v) :=
  of_altering (.createVariable i name hv) fun hie => absurd hie hi

/-- **A new environment** is another one. -/
theorem newEnvironment (outer : Option EnvironmentId) (hf : ∀ i, i ≠ e → Naming e (g i)) :
    Naming e (Eval.newEnvironment outer >>= g) := by
  intro a x ha hx
  obtain ⟨hne, hcloses⟩ := Environments.Closes.allocate ha hx ⟨outer, []⟩
  generalize hi : (a.environments.allocate ⟨outer, []⟩).1 = i at hne
  generalize hb : ({ a with environments := (a.environments.allocate ⟨outer, []⟩).2 } : Agent) = b
  have hnew : Eval.newEnvironment outer a = .ok i b := by rw [← hi, ← hb]; rfl
  replace hcloses : a.environments.Closes e b.environments := hb ▸ hcloses
  obtain ⟨-, y, -, hy, -⟩ := hcloses.names
  have hrest := hf i hne b y hcloses.tidy hy
  unfold Eval.after at hrest ⊢
  rw [bind_ok hnew]
  exact hcloses.trans hrest

theorem functionValue (f : Function) : Naming e (Eval.functionValue f) := by
  have hclosure := fun i name => (Agent.Names.isOutward e).closure f i name
  refine bind (Agent.Names.isOutward e).environment fun outer => ?_
  split
  · exact hclosure outer ""
  · next name _ =>
    refine newEnvironment _ fun i hi => bind (createVariable hi name rfl) fun _ => ?_
    exact bind (hclosure i _) fun v => bind (initializeVariable i name v) fun _ _ => .refl _ e

/-! #### What is around a computation -/

theorem setEnvironment (i : EnvironmentId) : Naming e (Eval.setEnvironment i) := by
  intro a
  rw [after_setEnvironment]
  exact .of_same (environments_withEnvironmentOf i a)

theorem ending (f : Agent → Agent) (hf : ∀ a, (f a).environments = a.environments) (h : Naming e p) :
    Naming e (Eval.ending p f) := fun a => by
  rw [after_ending]
  exact (h a).trans (.of_same (hf _))

/-- Variables of other environments may be created and changed. -/
theorem fills (hi : i ≠ e) :
    Law.Fills (.outward (Agent.Names.isOutward e) functionValue deleteVariable) i :=
  ⟨fun name _ hv => createVariable hi name hv, fun name v => initializeVariable i name v,
    fun name v isStrict => of_altering (.writeVariable i name v isStrict) fun hie => absurd hie hi⟩

end Naming

/-- **The law of computations that give no names to an environment that is there.** -/
def naming (e : EnvironmentId) : GeneralLaw where
  toLaw := .outward (Agent.Names.isOutward e) Naming.functionValue Naming.deleteVariable
  Roams := Naming e
  roam := id
  bindRoaming := Naming.bind
  iterateRoaming := Leads.iterate (.refl · e) .trans
  setEnvironment := Naming.setEnvironment
  inEnvironment i h := Naming.bind (Agent.Names.isOutward e).environment fun old =>
    Naming.bind (Naming.setEnvironment i) fun _ =>
      Naming.ending _ (environments_withEnvironmentOf old) h
  inContext _ h := Naming.bind (f := fun _ => ending _ _) (fun _ => .of_same rfl) fun _ =>
    Naming.ending _ (fun _ => rfl) h
  opens _ _ outer hf := Naming.newEnvironment outer fun i hi => hf i (Naming.fills hi)
  opensRoaming outer hf := Naming.newEnvironment outer fun i hi => hf i (Naming.fills hi)
  initializeVariable := Naming.initializeVariable
  assignVariable i name v := Naming.of_altering (.writeVariable i name v true) fun _ => nofun

/-- **Every task leaves the names of an environment.** -/
theorem names_run (n : Nat) {α : Type} (t : Task α) (e : EnvironmentId) : Naming e (Task.run n t) :=
  (naming e).ofDepth n t

end Scriptlet
