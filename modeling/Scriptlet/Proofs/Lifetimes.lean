import Mathlib.Logic.Relation
import Scriptlet.Proofs.DistinctNames
import Scriptlet.Proofs.Laws
import Scriptlet.Proofs.Outcomes
import Scriptlet.Proofs.Primitives

/-!
# The life of a variable

A variable is created without a value, is given one for the first time, and is assigned to from then
on, unless it is a constant.  Nothing but the operations on environments keeps to that order: giving a
first value does not ask whether there is one.

`Environments.Step` is one operation in its place, and a run is lawful if it leads from the
environments before it to those after it by such steps.  Whether it is depends on what has no value
yet where a computation starts.  `Runs` therefore says of a computation which names it may give a
value to in environments that are there already, under a condition on the agent; all other names
without value, and all places for new names, are as they were.  This is what lets the statements of a
block be run one after the other.

## Main definitions

* `Environments.Step`, `Environments.Lawful` — the operations in their order.
* `Variable.Becomes` — what can become of a variable.
* `Agent.IsOrderly` — no function that there is declares a name twice.
* `Grows`, `Runs` — lawful computations, and the names to which they give a value.
* `quiet` — the law of those that give a value to no name.

## Main results

* `Environments.Lawful.becomes` — **the life of a variable**.
* `Runs.bind`, `Runs.inEnvironment`, `Runs.inContext` — composition.
-/

namespace Scriptlet

/-- What can become of a variable: it keeps its value if it does not change, and has one if it ever had
one. -/
structure Variable.Becomes (v w : Variable) : Prop where
  isMutable : w.isMutable = v.isMutable
  isStrict : w.isStrict = v.isStrict
  isDeletable : w.isDeletable = v.isDeletable
  isSome : v.value.isSome → w.value.isSome
  value : v.isMutable = false → ∀ x, v.value = some x → w.value = some x

namespace Variable.Becomes

variable {u v w : Variable}

theorem refl (v : Variable) : v.Becomes v := ⟨rfl, rfl, rfl, id, fun _ _ h => h⟩

theorem trans (h : u.Becomes v) (h' : v.Becomes w) : u.Becomes w where
  isMutable := h'.isMutable.trans h.isMutable
  isStrict := h'.isStrict.trans h.isStrict
  isDeletable := h'.isDeletable.trans h.isDeletable
  isSome := fun hu => h'.isSome (h.isSome hu)
  value := fun hm x hx => h'.value (h.isMutable.trans hm) x (h.value hm x hx)

end Variable.Becomes

namespace Environments

variable {s t u : Environments} {e i : EnvironmentId} {name n : String}

/-- The variable of a name in the environment at a place. -/
def find? (s : Environments) (e : EnvironmentId) (name : String) : Option Variable :=
  (s.get? e).bind (·.find? name)

/-- One operation in its place. -/
inductive Step : Environments → Environments → Prop
  /-- A new environment. -/
  | new (s : Environments) (outer : Option EnvironmentId) : Step s (s.allocate ⟨outer, []⟩).2
  /-- A new variable without value. -/
  | create {s : Environments} {e : EnvironmentId} {x : Environment} {name : String} {v : Variable}
      (hx : s.get? e = some x) (hname : x.find? name = none) (hvalue : v.value = none)
      (hlasting : v.isDeletable = false) : Step s (s.set e (x.insert name v))
  /-- The first value of a variable that has none. -/
  | give {s : Environments} {e : EnvironmentId} {x : Environment} {name : String}
      {v : Variable} (value : Value) (hx : s.get? e = some x) (hname : x.find? name = some v)
      (hvalue : v.value = none) : Step s (s.set e (x.insert name { v with value := some value }))
  /-- Another value of a variable that has one and changes. -/
  | assign {s : Environments} {e : EnvironmentId} {x : Environment} {name : String}
      {v : Variable} (value : Value) (hx : s.get? e = some x) (hname : x.find? name = some v)
      (hvalue : v.value.isSome) (hmutable : v.isMutable = true) :
      Step s (s.set e (x.insert name { v with value := some value }))

/-- The second environments come of the first ones by operations in their place. -/
def Lawful : Environments → Environments → Prop := Relation.ReflTransGen Step

/-- The free places are in order, and no variable can be deleted. -/
structure IsSound (s : Environments) : Prop where
  tidy : s.IsTidy
  lasting : ∀ e name v, s.find? e name = some v → v.isDeletable = false

/-! ### Single operations -/

/-- A variable is in a record that there is. -/
theorem isSome_get?_of_find? {v : Variable} (h : s.find? e name = some v) :
    (s.get? e).isSome := by
  unfold find? at h
  cases hx : s.get? e with
  | none => rw [hx] at h; cases h
  | some x => rfl

/-- The variables of an environment are those of its record. -/
theorem find?_of_get? {x : Environment} (hx : s.get? e = some x) (n : String) :
    s.find? e n = x.find? n := by rw [find?, hx, Option.bind_some]

/-- A variable is found in the record of its environment. -/
theorem get?_of_find? {v : Variable} (h : s.find? e name = some v) :
    ∃ x, s.get? e = some x ∧ x.find? name = some v := by
  obtain ⟨x, hx⟩ := Option.isSome_iff_exists.mp (isSome_get?_of_find? h)
  exact ⟨x, hx, by rw [← h, find?_of_get? hx]⟩

/-- A variable put into a record is found there, and the others as before. -/
theorem find?_set {x : Environment} (hx : s.get? e = some x) (name : String) (v : Variable)
    (i : EnvironmentId) (n : String) : (s.set e (x.insert name v)).find? i n
      = if i = e ∧ n = name then some v else s.find? i n := by
  by_cases hi : i = e
  · subst hi
    rw [find?_of_get? (get?_set_self hx _), find?_of_get? hx, Environment.find?_insert]
    simp only [true_and, eq_comm]
  · rw [if_neg fun h => hi h.1, find?, find?, get?_set_of_ne hi]

/-- Putting a variable makes and removes no record. -/
theorem isSome_get?_set {x : Environment} (hx : s.get? e = some x) (y : Environment)
    (i : EnvironmentId) : ((s.set e y).get? i).isSome = (s.get? i).isSome := by
  by_cases hi : i = e
  · subst hi
    rw [get?_set_self hx, hx]
    rfl
  · rw [get?_set_of_ne hi]

/-- A new record is empty, whatever was at its place. -/
theorem find?_allocate (h : s.IsTidy) (outer : Option EnvironmentId) (i : EnvironmentId)
    (n : String) : (s.allocate ⟨outer, []⟩).2.find? i n = s.find? i n := by
  by_cases hi : i = (s.allocate ⟨outer, []⟩).1
  · subst hi
    rw [find?_of_get? (get?_allocate_self h _), find?, vacant_allocate h]
    rfl
  · rw [find?, find?, get?_allocate_of_ne _ hi]

/-- A new record takes the place of none. -/
theorem isSome_get?_allocate (h : s.IsTidy) (x : Environment) (hi : (s.get? i).isSome) :
    ((s.allocate x).2.get? i).isSome := by
  have hne : i ≠ (s.allocate x).1 := by
    rintro rfl
    rw [vacant_allocate h] at hi
    cases hi
  rwa [get?_allocate_of_ne _ hne]

/-- **One operation in its place**: the environments stay in order, those that are there stay there,
and a variable becomes what it can become. -/
theorem Step.spec (h : Step s t) (hs : s.IsSound) :
    t.IsSound ∧ (∀ e, (s.get? e).isSome → (t.get? e).isSome) ∧
      ∀ e name v, s.find? e name = some v → ∃ w, t.find? e name = some w ∧ v.Becomes w := by
  -- All steps but the new record put one variable into one record; they differ in what became of
  -- that variable.
  have hset : ∀ {e : EnvironmentId} {x : Environment} {name : String} {w : Variable},
      s.get? e = some x → w.isDeletable = false →
      (∀ v, s.find? e name = some v → v.Becomes w) →
      (s.set e (x.insert name w)).IsSound
        ∧ (∀ i, (s.get? i).isSome → ((s.set e (x.insert name w)).get? i).isSome)
        ∧ ∀ i n v, s.find? i n = some v →
          ∃ u, (s.set e (x.insert name w)).find? i n = some u ∧ v.Becomes u := by
    intro e x name w hx hw hbecomes
    refine ⟨⟨isTidy_set hs.tidy hx _, fun i n v hv => ?_⟩, fun i hi => ?_, fun i n v hv => ?_⟩
    · rw [find?_set hx] at hv
      split at hv
      · cases hv
        exact hw
      · exact hs.lasting i n v hv
    · rwa [isSome_get?_set hx]
    · rw [find?_set hx]
      split
      · next hin =>
        obtain ⟨rfl, rfl⟩ := hin
        exact ⟨w, rfl, hbecomes v hv⟩
      · exact ⟨v, hv, .refl v⟩
  cases h with
  | new outer =>
    refine ⟨⟨isTidy_allocate hs.tidy _, fun i n v hv => ?_⟩,
      fun i hi => isSome_get?_allocate hs.tidy _ hi, fun i n v hv => ⟨v, ?_, .refl v⟩⟩
    · rw [find?_allocate hs.tidy] at hv
      exact hs.lasting i n v hv
    · rw [find?_allocate hs.tidy, hv]
  | create hx hname _ hlasting =>
    refine hset hx hlasting fun v hv => ?_
    rw [find?_of_get? hx, hname] at hv
    cases hv
  | @give e x name v value hx hname hvalue =>
    rw [← find?_of_get? hx] at hname
    refine hset hx (hs.lasting e name v hname) fun w hw => ?_
    cases hname.symm.trans hw
    refine ⟨rfl, rfl, rfl, fun _ => rfl, fun _ y hy => ?_⟩
    rw [hvalue] at hy
    cases hy
  | @assign e x name v value hx hname _ hmutable =>
    rw [← find?_of_get? hx] at hname
    refine hset hx (hs.lasting e name v hname) fun w hw => ?_
    cases hname.symm.trans hw
    refine ⟨rfl, rfl, rfl, fun _ => rfl, fun hm => ?_⟩
    rw [hmutable] at hm
    cases hm

/-! ### Runs of operations -/

namespace Lawful

theorem refl (s : Environments) : Lawful s s := Relation.ReflTransGen.refl

theorem trans (h : Lawful s t) (h' : Lawful t u) : Lawful s u := Relation.ReflTransGen.trans h h'

/-- A run of operations loses no environment and no variable, and each variable becomes a later one.
-/
theorem spec (h : Lawful s t) (hs : s.IsSound) :
    t.IsSound ∧ (∀ e, (s.get? e).isSome → (t.get? e).isSome) ∧
      ∀ e name v, s.find? e name = some v →
        ∃ w, t.find? e name = some w ∧ v.Becomes w := by
  induction h with
  | refl => exact ⟨hs, fun _ he => he, fun _ _ v hv => ⟨v, hv, .refl v⟩⟩
  | tail _ hstep ih =>
    obtain ⟨ht, hthere, hbecomes⟩ := ih
    obtain ⟨hu, hthere', hbecomes'⟩ := hstep.spec ht
    refine ⟨hu, fun e he => hthere' e (hthere e he), fun e name v hv => ?_⟩
    obtain ⟨w, hw, hvw⟩ := hbecomes e name v hv
    obtain ⟨x, hx, hwx⟩ := hbecomes' e name w hw
    exact ⟨x, hx, hvw.trans hwx⟩

/-- Soundness is kept. -/
theorem isSound (h : Lawful s t) (hs : s.IsSound) : t.IsSound := (h.spec hs).1

/-- No environment is lost. -/
theorem isSome_get? (h : Lawful s t) (hs : s.IsSound) (he : (s.get? e).isSome) :
    (t.get? e).isSome := (h.spec hs).2.1 e he

/-- **The life of a variable**: it is there from when it was created, keeps a value from when it was
given one, and the same one if it is a constant. -/
theorem becomes (h : Lawful s t) (hs : s.IsSound) {v : Variable}
    (hv : s.find? e name = some v) : ∃ w, t.find? e name = some w ∧ v.Becomes w :=
  (h.spec hs).2.2 e name v hv

end Lawful

/-! ### Names without value -/

/-- There is a variable that has no value yet. -/
def Awaits (s : Environments) (e : EnvironmentId) (name : String) : Prop :=
  ∃ v, s.find? e name = some v ∧ v.value = none

/-- There is an environment without such a variable. -/
def Lacks (s : Environments) (e : EnvironmentId) (name : String) : Prop :=
  (s.get? e).isSome ∧ s.find? e name = none

/-- There is a variable. -/
def Binds (s : Environments) (e : EnvironmentId) (name : String) : Prop :=
  (s.find? e name).isSome

/-- Names without value are as they were in the environments that were there, but for those that may
get one. -/
def Spares (F : EnvironmentId → String → Prop) (s t : Environments) : Prop :=
  ∀ e name, (s.get? e).isSome → ¬F e name → (s.find? e name).bind (·.value) = none →
    t.find? e name = s.find? e name

/-- What is said of a name stays so while names without value are as they were. -/
def Stable (P : Environments → EnvironmentId → String → Prop) : Prop :=
  ∀ {F s t e n}, Lawful s t → s.IsSound → Spares F s t → ¬F e n → P s e n → P t e n

/-- A name waits for its value until it is given one. -/
theorem stable_awaits : Stable Awaits := by
  rintro F s t e n - - h hF ⟨v, hv, hvalue⟩
  refine ⟨v, ?_, hvalue⟩
  rw [h e n (isSome_get?_of_find? hv) hF (by rw [hv, Option.bind_some, hvalue]), hv]

/-- A name is missing until it is created. -/
theorem stable_lacks : Stable Lacks := by
  rintro F s t e n hlaw hs h hF ⟨he, hn⟩
  exact ⟨hlaw.isSome_get? hs he, (h e n he hF (by rw [hn]; rfl)).trans hn⟩

/-- A run of operations leaves bound names bound. -/
theorem Lawful.binds (h : Lawful s t) (hs : s.IsSound) (hb : s.Binds e name) :
    t.Binds e name := by
  obtain ⟨v, hv⟩ := Option.isSome_iff_exists.mp hb
  obtain ⟨w, hw, -⟩ := h.becomes hs hv
  exact Option.isSome_iff_exists.mpr ⟨w, hw⟩

/-- A name that is bound stays bound. -/
theorem stable_binds : Stable Binds := fun h hs _ _ hb => h.binds hs hb

/-- A name that waits for its value is bound. -/
theorem Awaits.binds (h : s.Awaits e name) : s.Binds e name := by
  obtain ⟨v, hv, -⟩ := h
  exact Option.isSome_iff_exists.mpr ⟨v, hv⟩

end Environments

/-! ### Agents -/

/-- The syntax of the function that an object is, if it is one that was written. -/
def Object.code? (o : Object) : Option Function :=
  match o.kind with
  | .closure c => some c.code
  | _ => none

namespace Agent

/-- No function that there is declares a name twice. -/
def IsOrderly (a : Agent) : Prop := ∀ o f, (a.object o).code? = some f → f.declaresOnce = true

/-- The environments of what is being evaluated, the innermost first. -/
def places (a : Agent) : List EnvironmentId := a.contexts.map (·.environment)

/-- Functions that there were are there. -/
theorem IsOrderly.of_kept {a b : Agent}
    (h : ∀ o f, (a.object o).code? = some f → (b.object o).code? = some f) (hb : b.IsOrderly) :
    a.IsOrderly := fun o f hf => hb o f (h o f hf)

/-- Being orderly is a matter of the objects. -/
theorem IsOrderly.congr {a b : Agent} (h : b.objects = a.objects) (hb : b.IsOrderly) :
    a.IsOrderly := by
  refine hb.of_kept fun o f hf => ?_
  rwa [object, h]

end Agent

namespace Eval

variable {a b : Agent}

/-- An environment without record is a broken one. -/
theorem environmentAt_eq (e : EnvironmentId) (a : Agent) : environmentAt e a =
    match a.environments.get? e with
    | some x => .ok x a
    | none => .error (.broken .missingEnvironment) a := by
  change (match a.environments.get? e with
    | some e => pure e
    | none => throw (.broken .missingEnvironment) : Eval Environment) a = _
  cases a.environments.get? e <;> rfl

/-- A record that is looked up is there, and nothing changes. -/
theorem environmentAt_ok {e : EnvironmentId} {x : Environment} (h : environmentAt e a = .ok x b) :
    b = a ∧ a.environments.get? e = some x := by
  rw [environmentAt_eq] at h
  cases hx : a.environments.get? e with
  | none => rw [hx] at h; cases h
  | some y =>
    rw [hx] at h
    cases h
    exact ⟨rfl, rfl⟩

/-- The objects do not depend on the innermost environment. -/
theorem objects_withEnvironmentOf (e : EnvironmentId) (a : Agent) :
    (withEnvironmentOf e a).objects = a.objects := by
  unfold withEnvironmentOf
  split <;> rfl

/-- Only the innermost environment is another one. -/
theorem places_withEnvironmentOf (e : EnvironmentId) (a : Agent) :
    (withEnvironmentOf e a).places = (List.replicate (min 1 a.places.length) e) ++ a.places.drop 1 := by
  unfold withEnvironmentOf Agent.places
  split <;> next h => simp [h]

end Eval

/-! ### Lawful computations -/

/-- From one agent to another one by operations in their place.  Names without value are as they were,
but for those that may get one, and so are the environments of what is being evaluated, but for the
innermost `k`. -/
structure Grows (k : Nat) (F : EnvironmentId → String → Prop) (a b : Agent) : Prop where
  lawful : a.environments.Lawful b.environments
  spares : a.environments.Spares F b.environments
  length : b.places.length = a.places.length
  drop : b.places.drop k = a.places.drop k

/-- A computation that is lawful under a condition, unless a function is left behind that declares a
name twice; which names it may give a value to, and what holds of its result. -/
structure Runs {α : Type} (k : Nat) (F : EnvironmentId → String → Prop) (G : Prop) (a : Agent)
    (p : Eval α) (Q : α → Agent → Prop) : Prop where
  kept : (p.after a).IsOrderly → a.IsOrderly
  grows : (p.after a).IsOrderly → a.environments.IsSound → G → Grows k F a (p.after a)
  value : ∀ {x b}, p a = .ok x b → b.IsOrderly → a.environments.IsSound → G → Q x b

section Composition

variable {α β σ : Type} {k l : Nat} {F H : EnvironmentId → String → Prop} {G : Prop}
  {a b c : Agent} {p : Eval α} {f : α → Eval β} {Q : α → Agent → Prop} {R : β → Agent → Prop}

/-- The given names of an environment. -/
def Slots (e : EnvironmentId) (ns : List String) (i : EnvironmentId) (n : String) : Prop :=
  i = e ∧ n ∈ ns

/-- Environments that were not there before do not count. -/
def Beside (a : Agent) (F : EnvironmentId → String → Prop) (e : EnvironmentId) (n : String) : Prop :=
  (a.environments.get? e).isSome → F e n

namespace Grows

theorem refl (k : Nat) (F : EnvironmentId → String → Prop) (a : Agent) : Grows k F a a :=
  ⟨.refl _, fun _ _ _ _ _ => rfl, rfl, rfl⟩

theorem mono (h : Grows k F a b) (hkl : k ≤ l)
    (hF : ∀ e n, (a.environments.get? e).isSome → F e n → H e n) : Grows l H a b where
  lawful := h.lawful
  spares := fun e n he hn => h.spares e n he fun hf => hn (hF e n he hf)
  length := h.length
  drop := by
    obtain ⟨m, rfl⟩ := Nat.exists_eq_add_of_le hkl
    rw [← List.drop_drop, ← List.drop_drop, h.drop]

/-- Growing twice is growing, where the second time may fill what the first one made. -/
theorem trans (h : Grows k F a b) (h' : Grows k (Beside a F) b c) (ha : a.environments.IsSound) :
    Grows k F a c where
  lawful := h.lawful.trans h'.lawful
  spares := by
    intro e n he hn hvalue
    have hsame := h.spares e n he hn hvalue
    rw [h'.spares e n (h.lawful.isSome_get? ha he) (fun hF => hn (hF he)) (by rw [hsame, hvalue]),
      hsame]
  length := h'.length.trans h.length
  drop := h'.drop.trans h.drop

/-- Growing keeps environments sound. -/
theorem isSound (h : Grows k F a b) (ha : a.environments.IsSound) : b.environments.IsSound :=
  h.lawful.isSound ha

end Grows

namespace Runs

/-- The condition has to be met by agents in order only, and so have the names to be allowed. -/
theorem weaken {G' : Prop} (h : Runs k F G' a p Q) (hkl : k ≤ l)
    (hG : a.IsOrderly → a.environments.IsSound → G →
      G' ∧ ∀ e n, (a.environments.get? e).isSome → F e n → H e n) : Runs l H G a p Q where
  kept := h.kept
  grows := fun ho hs hg =>
    (h.grows ho hs (hG (h.kept ho) hs hg).1).mono hkl (hG (h.kept ho) hs hg).2
  value := fun {x b} hp ho hs hg => by
    refine h.value hp ho hs (hG (h.kept ?_) hs hg).1
    rwa [Eval.after_ok hp]

/-- The assumption of a run may be replaced by one that follows from it. -/
theorem given {G' : Prop} (h : Runs k F G' a p Q)
    (hG : a.IsOrderly → a.environments.IsSound → G → G') : Runs k F G a p Q :=
  h.weaken (Nat.le_refl k) fun ho hs hg => ⟨hG ho hs hg, fun _ _ _ hF => hF⟩

theorem mono (h : Runs k F G a p Q) (hkl : k ≤ l)
    (hF : ∀ e n, (a.environments.get? e).isSome → F e n → H e n) : Runs l H G a p Q :=
  h.weaken hkl fun _ _ hg => ⟨hg, hF⟩

/-- The conclusion of a run may be weakened. -/
theorem imp {Q' : α → Agent → Prop} (h : Runs k F G a p Q)
    (hQ : ∀ x b, a.environments.IsSound → G → Grows k F a b → Q x b → Q' x b) :
    Runs k F G a p Q' where
  kept := h.kept
  grows := h.grows
  value := fun {x b} hp ho hs hg => by
    have hgrows := h.grows (by rwa [Eval.after_ok hp]) hs hg
    rw [Eval.after_ok hp] at hgrows
    exact hQ x b hs hg hgrows (h.value hp ho hs hg)

/-- What a computation leaves alone is known of its result. -/
theorem framed (h : Runs k F G a p Q) :
    Runs k F G a p fun x b => a.environments.IsSound ∧ Grows k F a b ∧ Q x b :=
  h.imp fun _ _ hs _ hgrows hq => ⟨hs, hgrows, hq⟩

/-- **Composition.**  The second computation may do what it likes to environments that the first one
has made. -/
theorem bind (h : Runs k F G a p Q)
    (hf : ∀ x b, p a = .ok x b → Runs k (Beside a F)
      (G ∧ Grows k F a b ∧ a.environments.IsSound ∧ Q x b) b (f x) R) :
    Runs k F G a (p >>= f) R := by
  cases hp : p a with
  | ok x b =>
    have hf := hf x b hp
    have hsecond : (p >>= f).after a = (f x).after b := by
      rw [Eval.after, Eval.after, Eval.bind_ok hp]
    -- Functions stay, so an agent orderly at the end was orderly between the two parts, and the
    -- first part's promises hold there.
    have hfirst : ((p >>= f).after a).IsOrderly → a.environments.IsSound → G →
        Grows k F a b ∧ Q x b := by
      intro ho hs hg
      have hb := hf.kept (hsecond ▸ ho)
      have hgrows := h.grows (by rwa [Eval.after_ok hp]) hs hg
      rw [Eval.after_ok hp] at hgrows
      exact ⟨hgrows, h.value hp hb hs hg⟩
    refine ⟨fun ho => h.kept ?_, fun ho hs hg => ?_, fun {y c} hy ho hs hg => ?_⟩
    · rw [Eval.after_ok hp]
      exact hf.kept (hsecond ▸ ho)
    · obtain ⟨hgrows, hq⟩ := hfirst ho hs hg
      rw [hsecond] at ho ⊢
      exact hgrows.trans (hf.grows ho (hgrows.isSound hs) ⟨hg, hgrows, hs, hq⟩) hs
    · obtain ⟨hgrows, hq⟩ := hfirst (by rwa [Eval.after_ok hy]) hs hg
      rw [Eval.bind_ok hp] at hy
      exact hf.value hy ho (hgrows.isSound hs) ⟨hg, hgrows, hs, hq⟩
  | error i b =>
    have hsame : (p >>= f).after a = p.after a := by
      rw [Eval.after, Eval.after, Eval.bind_error hp, hp]
    refine ⟨fun ho => h.kept (hsame ▸ ho), fun ho => ?_, fun {y c} hy => ?_⟩
    · rw [hsame] at ho ⊢
      exact h.grows ho
    · rw [Eval.bind_error hp] at hy
      cases hy

/-- A computation that goes on with another one, whatever came of the first. -/
theorem seq {p : Eval α} {q : Eval β} {r : Eval σ} {Q : α → Agent → Prop} {R : σ → Agent → Prop}
    (h : Runs k F G a p Q) (hr : Runs k (Beside a F) G (p.after a) r R)
    (hq : q.after a = r.after (p.after a)) : Runs k F G a q fun _ _ => True where
  kept := fun ho => h.kept (hr.kept (hq ▸ ho))
  grows := fun ho hs hg => by
    rw [hq] at ho ⊢
    have hgrows := h.grows (hr.kept ho) hs hg
    exact hgrows.trans (hr.grows ho (hgrows.isSound hs) hg) hs
  value := fun _ _ _ _ => trivial

/-- A computation that leaves behind what another one does. -/
theorem same {p : Eval α} {q : Eval β} {Q : α → Agent → Prop} (h : Runs k F G a p Q)
    (hq : q.after a = p.after a) : Runs k F G a q fun _ _ => True where
  kept := fun ho => h.kept (hq ▸ ho)
  grows := fun ho hs hg => by
    rw [hq] at ho ⊢
    exact h.grows ho hs hg
  value := fun _ _ _ _ => trivial

/-- A computation that touches no environment, no function and no context. -/
theorem still
    (henvironments : (p.after a).environments = a.environments)
    (hcontexts : (p.after a).contexts = a.contexts)
    (hcode : ∀ o f, (a.object o).code? = some f → ((p.after a).object o).code? = some f) :
    Runs k F G a p fun _ _ => True where
  kept := .of_kept hcode
  grows := fun _ _ _ =>
    ⟨henvironments ▸ .refl _, fun _ _ _ _ _ => by rw [henvironments],
      by rw [Agent.places, hcontexts, Agent.places], by rw [Agent.places, hcontexts, Agent.places]⟩
  value := fun _ _ _ _ => trivial

/-- A computation that runs another one with other contexts, and puts them back afterwards. -/
theorem within {a' : Agent} {p : Eval α} {q : Eval β} {Q : α → Agent → Prop}
    (h : Runs 1 F G a' p Q) (henvironments : a'.environments = a.environments)
    (hobjects : a'.objects = a.objects)
    (henvironments' : (q.after a).environments = (p.after a').environments)
    (hobjects' : (q.after a).objects = (p.after a').objects)
    (hplaces : (p.after a').places.length = a'.places.length →
      (p.after a').places.drop 1 = a'.places.drop 1 → (q.after a).places = a.places) :
    Runs 0 F G a q fun _ _ => True where
  kept := fun ho => .congr hobjects (h.kept (.congr hobjects' ho))
  grows := fun ho hs hg => by
    have hgrows := h.grows (.congr hobjects' ho) (henvironments ▸ hs) hg
    have hplaces := hplaces hgrows.length hgrows.drop
    refine ⟨?_, ?_, congrArg _ hplaces, congrArg _ hplaces⟩
    · rw [henvironments', ← henvironments]
      exact hgrows.lawful
    · rw [henvironments', ← henvironments]
      exact hgrows.spares
  value := fun _ _ _ _ => trivial

/-- **A computation in a context of its own** may leave another environment in it. -/
theorem inContext {d : Context} {p : Eval α} {Q : α → Agent → Prop}
    (h : Runs 1 F G { a with contexts := d :: a.contexts } p Q) :
    Runs 0 F G a (Eval.inContext d p) fun _ _ => True := by
  have hafter : (Eval.inContext d p).after a = (fun b : Agent => { b with contexts := b.contexts.tail })
      (p.after { a with contexts := d :: a.contexts }) := Eval.after_ending ..
  refine h.within rfl rfl (by rw [hafter]) (by rw [hafter]) fun _ hdrop => ?_
  rw [hafter]
  change (p.after _).contexts.tail.map _ = a.places
  rw [List.map_tail, ← List.drop_one]
  exact hdrop

/-- **A computation in an environment** may leave another one. -/
theorem inEnvironment {e : EnvironmentId} {p : Eval α} {Q : α → Agent → Prop}
    (h : Runs 1 F (G ∧ (Eval.withEnvironmentOf e a).places.head? = some e)
      (Eval.withEnvironmentOf e a) p Q) :
    Runs 0 F G a (Eval.inEnvironment e p) fun _ _ => True := by
  obtain ⟨objects, environments, realms, contexts, joining, methods, count, trace, verbose, reports⟩ := a
  cases contexts with
  | nil => exact still rfl rfl fun _ _ => id
  | cons c rest =>
    replace h := h.given fun _ _ hG => ⟨hG, rfl⟩
    generalize ha : (⟨objects, environments, realms, c :: rest, joining, methods, count, trace, verbose,
      reports⟩ : Agent) = a at h ⊢
    have hafter : (Eval.inEnvironment e p).after a
        = Eval.withEnvironmentOf c.environment (p.after (Eval.withEnvironmentOf e a)) := by
      subst ha
      exact Eval.after_ending ..
    refine h.within (Eval.environments_withEnvironmentOf ..) (Eval.objects_withEnvironmentOf ..) ?_ ?_
      fun hlength hdrop => ?_
    · rw [hafter, Eval.environments_withEnvironmentOf]
    · rw [hafter, Eval.objects_withEnvironmentOf]
    · rw [hafter, Eval.places_withEnvironmentOf, hlength, hdrop, Eval.places_withEnvironmentOf]
      subst ha
      rfl

end Runs

end Composition

/-! ### Objects -/

namespace Object

variable (o : Object)

/-- Writing an element leaves the code. -/
theorem code?_writeElement (i : Nat) (v : Value) : (o.writeElement i v).2.code? = o.code? := by
  obtain ⟨kind, e, ps⟩ := o
  cases kind with
  | array a =>
    simp only [writeElement]
    split <;> rfl
  | _ => rfl

theorem code?_add (p : Slot) : (o.add p).2.code? = o.code? := by
  simp only [add]
  split <;> rfl

theorem code?_write (k : PropertyKey) (v : Value) : (o.write k v).2.code? = o.code? := by
  simp only [write]
  split
  · exact o.code?_writeElement _ v
  · split
    · split <;> rfl
    · exact o.code?_add _

theorem code?_define (k : PropertyKey) (v : Value) : (o.define k v).2.code? = o.code? := by
  simp only [define]
  split
  · exact o.code?_writeElement _ v
  · split
    · rfl
    · split
      · split <;> rfl
      · exact o.code?_add _

theorem code?_deleteListed (k : PropertyKey) : (o.deleteListed k).2.code? = o.code? := by
  simp only [deleteListed]
  split
  · rfl
  · split <;> rfl

theorem code?_delete (k : PropertyKey) : (o.delete k).2.code? = o.code? := by
  obtain ⟨kind, e, ps⟩ := o
  cases kind with
  | array a =>
    simp only [delete]
    split
    · split <;> rfl
    · split
      · rfl
      · exact code?_deleteListed _ k
  | _ => exact code?_deleteListed _ k

theorem code?_setLength (n : Nat) : (o.setLength n).2.code? = o.code? := by
  obtain ⟨kind, e, ps⟩ := o
  cases kind with
  | array a =>
    simp only [setLength]
    split <;> rfl
  | _ => rfl

theorem code?_freeze : o.freeze.code? = o.code? := by
  obtain ⟨kind, e, ps⟩ := o
  cases kind <;> rfl

theorem code?_changeElements {α : Type} (f : Elements Value → α × Elements Value) (missing : α) :
    (o.changeElements f missing).2.code? = o.code? := by
  obtain ⟨kind, e, ps⟩ := o
  cases kind <;> rfl

theorem code?_withName (name : String) : (o.withName name).code? = o.code? := by
  obtain ⟨kind, e, ps⟩ := o
  cases kind with
  | closure c =>
    simp only [withName, code?, Closure.withName]
    split <;> rfl
  | _ => rfl

end Object

namespace Agent

variable (a : Agent) (o : ObjectId)

/-- A change that leaves an object's code leaves that of all objects. -/
theorem code?_modifyObject {f : Object → Object} (hf : ∀ x, (f x).code? = x.code?) (i : ObjectId) :
    ((a.modifyObject i f).object o).code? = (a.object o).code? := by
  rw [object_eq_getD, object_eq_getD]
  unfold modifyObject
  dsimp only
  rw [Array.getElem?_modify]
  split
  · cases a.objects[o.index]? with
    | none => rfl
    | some x => exact hf x
  · rfl

/-- A new object leaves the code of those before it. -/
theorem code?_push {f : Function} (x : Object) (h : (a.object o).code? = some f) :
    (Agent.object { a with objects := a.objects.push x } o).code? = some f := by
  by_cases hlt : o.index < a.objects.size
  · rwa [Agrees.object_pushObject hlt]
  · rw [object_eq_getD, Array.getElem?_eq_none (Nat.le_of_not_lt hlt)] at h
    cases h

end Agent

/-! ### Primitives -/

namespace Runs

variable {α : Type} {k : Nat} {F : EnvironmentId → String → Prop} {G : Prop} {a : Agent}

/-- A computation that leaves everything as it is. -/
theorem look {p : Eval α} (h : p.after a = a) :
    Runs k F G a p fun x b => b = a ∧ p a = .ok x a where
  kept := fun ho => h ▸ ho
  grows := fun _ _ _ => h.symm ▸ .refl k F a
  value := fun {x b} hp _ _ _ => by
    rw [Eval.after_ok hp] at h
    subst h
    exact ⟨rfl, hp⟩

/-- A computation whose condition is never met. -/
theorem never {p : Eval α} {Q : α → Agent → Prop} (hkept : (p.after a).IsOrderly → a.IsOrderly)
    (h : a.IsOrderly → a.environments.IsSound → G → False) : Runs k F G a p Q where
  kept := hkept
  grows := fun ho hs hg => (h (hkept ho) hs hg).elim
  value := fun {x b} hp ho hs hg => by
    refine (h (hkept ?_) hs hg).elim
    rwa [Eval.after_ok hp]

theorem allocate (o : Object) :
    Runs k F G a (Eval.allocate o) fun _ _ => True :=
  still rfl rfl fun i _ h => a.code?_push i o h

theorem raise (kind : ErrorKind) (message : String) {Q : α → Agent → Prop} :
    Runs k F G a (Eval.raise kind message) Q := by
  refine (allocate _).bind (R := Q) fun o b _ => ?_
  exact (look rfl).imp fun _ _ _ _ _ h => absurd h.2 nofun

theorem modifyObject (i : ObjectId) {f : Object → Object} (hf : ∀ x, (f x).code? = x.code?) :
    Runs k F G a (Eval.modifyObject i f) fun _ _ => True :=
  still rfl rfl fun o _ h => (a.code?_modifyObject o hf i).trans h

theorem changeObject (i : ObjectId) {f : Object → α × Object}
    (hf : ∀ x, (f x).2.code? = x.code?) (missing : α) :
    Runs k F G a (Eval.changeObject i f missing) fun _ _ => True :=
  (modifyObject i (f := fun x => (f x).2) hf).same (Eval.after_changeObject i f missing a)

/-! ### Environments and variables -/

section Variables

variable (e : EnvironmentId) (name : String)

theorem environment : Runs k F G a Eval.environment fun e b => b = a ∧ a.places.head? = some e := by
  obtain ⟨objects, environments, realms, contexts, joining, methods, count, trace, verbose,
    reports⟩ := a
  cases contexts with
  | nil => exact (look rfl).imp fun _ _ _ _ _ h => absurd h.2 nofun
  | cons c rest =>
    refine (look rfl).imp fun _ _ _ _ _ h => ⟨h.1, ?_⟩
    cases h.2
    rfl

theorem environmentAt : Runs k F G a (Eval.environmentAt e) fun _ _ => True := by
  refine (look ?_).imp fun _ _ _ _ _ _ => trivial
  rw [Eval.after, Eval.environmentAt_eq]
  cases a.environments.get? e <;> rfl

/-- **One operation on a variable**, on a name that may get a value or that has one. -/
theorem updateEnvironment {v : Variable}
    (hstep : ∀ x, a.environments.get? e = some x → G →
      a.environments.Step (a.environments.set e (x.insert name v)))
    (hF : G → F e name ∨ ((a.environments.find? e name).bind (·.value)).isSome) :
    Runs k F G a (Eval.updateEnvironment e (·.insert name v))
      fun _ b => b.environments.find? e name = some v := by
  cases hx : a.environments.get? e with
  | none =>
    have happly : Eval.updateEnvironment e (·.insert name v) a
        = .error (.broken .missingEnvironment) a :=
      Eval.bind_error (by rw [Eval.environmentAt_eq, hx])
    refine (look (by rw [Eval.after, happly])).imp fun _ _ _ _ _ h => ?_
    rw [happly] at h
    cases h.2
  | some x =>
    have happly := Eval.updateEnvironment_apply hx (·.insert name v)
    have hafter := Eval.after_ok happly
    refine ⟨fun ho => ?_, fun _ _ hg => ?_, fun {_ b} hp _ _ _ => ?_⟩
    · rw [hafter] at ho
      exact ho.congr rfl
    -- Only this name changes, which either may be filled or has a value already.
    · rw [hafter]
      refine ⟨.single (hstep x hx hg), fun i n _ hn hvalue => ?_, rfl, rfl⟩
      change (a.environments.set e (x.insert name v)).find? i n = _
      rw [Environments.find?_set hx]
      refine if_neg ?_
      rintro ⟨rfl, rfl⟩
      rcases hF hg with hF | hF
      · exact hn hF
      · rw [hvalue] at hF
        cases hF
    · rw [happly] at hp
      cases hp
      change (a.environments.set e (x.insert name v)).find? e name = _
      rw [Environments.find?_set hx, if_pos ⟨rfl, rfl⟩]

/-- A new name gets a variable without value. -/
theorem createVariable {v : Variable} (hvalue : v.value = none) (hlasting : v.isDeletable = false) :
    Runs k (Slots e [name]) (a.environments.Lacks e name) a (Eval.createVariable e name v)
      fun _ b => b.environments.Awaits e name := by
  refine (updateEnvironment e name (fun x hx hg => ?_) fun _ => .inl ⟨rfl, by simp⟩).imp
    fun _ b _ _ _ hb => ⟨v, hb, hvalue⟩
  have hname := hg.2
  rw [Environments.find?_of_get? hx] at hname
  exact .create hx hname hvalue hlasting

/-- A variable without value gets one. -/
theorem initializeVariable (value : Value) :
    Runs k (Slots e [name]) (a.environments.Awaits e name) a
      (Eval.initializeVariable e name value) fun _ b => b.environments.Binds e name := by
  refine (environmentAt e).bind fun x b hb => ?_
  obtain ⟨rfl, hx⟩ := Eval.environmentAt_ok hb
  cases hname : x.find? name with
  | none => exact (look rfl).imp fun _ _ _ _ _ h => absurd h.2 nofun
  | some v =>
    refine (updateEnvironment e name (fun y hy hg => ?_) fun _ => .inl fun _ => ⟨rfl, by simp⟩).imp
      fun _ b _ _ _ hb => Option.isSome_iff_exists.mpr ⟨_, hb⟩
    cases hx.symm.trans hy
    obtain ⟨w, hw, hvalue⟩ := hg.1
    rw [Environments.find?_of_get? hx, hname] at hw
    cases hw
    exact .give value hx hname hvalue

/-- An assignment is to a variable that has a value, or does nothing but throw.  One that might create a
variable is to a name that has one. -/
theorem writeVariable (value : Value) (isStrict : Bool) :
    Runs k F (isStrict = false → a.environments.Binds e name) a
      (Eval.writeVariable e name value isStrict) fun _ _ => True := by
  refine (environmentAt e).bind fun x b hb => ?_
  obtain ⟨rfl, hx⟩ := Eval.environmentAt_ok hb
  cases hname : x.find? name with
  | none =>
    cases isStrict with
    | true => exact raise .referenceError _
    | false =>
      -- The name is missing here, against what the guard promises of sloppy code.
      refine (updateEnvironment e name (fun y hy hg => ?_) fun hg => ?_).imp
        fun _ _ _ _ _ _ => trivial
      all_goals
        have hbound := hg.1 rfl
        rw [Environments.Binds, Environments.find?_of_get? hx, hname] at hbound
        cases hbound
  | some v =>
    dsimp only
    split
    · exact raise _ _
    -- Writing gives no first value: an uninitialized variable was refused.
    · next hvalue =>
      split
      · next hmutable =>
        rw [Option.isNone_iff_eq_none] at hvalue
        have hsome : v.value.isSome := Option.isSome_iff_ne_none.mpr hvalue
        refine (updateEnvironment e name (fun y hy _ => ?_) fun _ => .inr ?_).imp
          fun _ _ _ _ _ _ => trivial
        · cases hx.symm.trans hy
          exact .assign value hx hname hsome hmutable
        · rw [Environments.find?_of_get? hx, hname]
          exact hsome
      · split
        · exact raise _ _
        · exact (look rfl).imp fun _ _ _ _ _ _ => trivial

/-- Nothing is deleted. -/
theorem deleteVariable : Runs k F G a (Eval.deleteVariable e name) fun _ _ => True := by
  refine (environmentAt e).bind fun x b hb => ?_
  obtain ⟨rfl, hx⟩ := Eval.environmentAt_ok hb
  cases hname : x.find? name with
  | none => exact (look rfl).imp fun _ _ _ _ _ _ => trivial
  | some v =>
    dsimp only
    split
    · next hdeletable =>
      have happly := Eval.updateEnvironment_apply hx (·.erase name)
      refine never (fun ho => ?_) fun _ hs _ => ?_
      · rw [Eval.after, Eval.bind_ok happly] at ho
        exact ho.congr rfl
      · have hlasting := hs.lasting e name v (by rw [Environments.find?_of_get? hx, hname])
        rw [hdeletable] at hlasting
        cases hlasting
    · exact (look rfl).imp fun _ _ _ _ _ _ => trivial

/-- A new environment has no variables. -/
theorem newEnvironment (outer : Option EnvironmentId) :
    Runs k F G a (Eval.newEnvironment outer)
      fun i b => a.environments.get? i = none ∧ ∀ n, b.environments.Lacks i n := by
  have happly : Eval.newEnvironment outer a = .ok (a.environments.allocate ⟨outer, []⟩).1
      { a with environments := (a.environments.allocate ⟨outer, []⟩).2 } := rfl
  have hafter := Eval.after_ok happly
  refine ⟨fun ho => ?_, fun _ hs _ => ?_, fun {i b} hp _ hs _ => ?_⟩
  · rw [hafter] at ho
    exact ho.congr rfl
  · rw [hafter]
    refine ⟨.single (.new _ outer), fun i n _ _ _ => ?_, rfl, rfl⟩
    exact Environments.find?_allocate hs.tidy outer i n
  · rw [happly] at hp
    cases hp
    have hvacant := Environments.vacant_allocate hs.tidy ⟨outer, []⟩
    have hself := Environments.get?_allocate_self hs.tidy ⟨outer, []⟩
    refine ⟨hvacant, fun n => ⟨?_, ?_⟩⟩
    · exact Option.isSome_iff_exists.mpr ⟨_, hself⟩
    · rw [Environments.find?_of_get? hself]
      rfl

/-- The environment of what is being evaluated is another one from then on. -/
theorem setEnvironment :
    Runs 1 F G a (Eval.setEnvironment e)
      fun _ b => b.environments = a.environments ∧ b.places.head? = some e := by
  cases hc : a.contexts with
  | nil =>
    have happly : Eval.setEnvironment e a = .error (.broken .missingContext) a := by
      obtain ⟨objects, environments, realms, contexts, joining, methods, count, trace, verbose,
        reports⟩ := a
      dsimp only at hc
      subst hc
      rfl
    refine (look (by rw [Eval.after, happly])).imp fun _ _ _ _ _ h => ?_
    rw [happly] at h
    cases h.2
  | cons c rest =>
    have happly := Eval.setEnvironment_apply hc e
    have hafter := Eval.after_ok happly
    refine ⟨fun ho => ?_, fun _ _ _ => ?_, fun {_ b} hp _ _ _ => ?_⟩
    · rw [hafter] at ho
      exact ho.congr rfl
    · rw [hafter]
      exact ⟨.refl _, fun _ _ _ _ _ => rfl, by simp [Agent.places, hc], by simp [Agent.places, hc]⟩
    · rw [happly] at hp
      cases hp
      exact ⟨rfl, rfl⟩

end Variables

end Runs

/-! ### Computations that give a value to no name -/

/-- The computation gives a value to no name of an environment that is there already, and leaves
another environment at most in the innermost `k` contexts. -/
def Quiet {α : Type} (k : Nat) (G : Prop) (p : Eval α) : Prop :=
  ∀ a, Runs k (fun _ _ => False) G a p fun _ _ => True

namespace Quiet

variable {α β σ : Type} {k : Nat} {G : Prop} {p : Eval α} {f : α → Eval β}

/-- One after the other; the second computation is one for a result of the first. -/
theorem bindOf (h : Quiet k G p) (hf : ∀ a x b, p a = .ok x b → Quiet k G (f x)) :
    Quiet k G (p >>= f) := fun a =>
  (h a).bind fun x b hx =>
    (hf a x b hx b).weaken (Nat.le_refl k) fun _ _ hg => ⟨hg.1, fun _ _ _ => False.elim⟩

theorem bind (h : Quiet k G p) (hf : ∀ x, Quiet k G (f x)) : Quiet k G (p >>= f) :=
  h.bindOf fun _ x _ _ => hf x

/-- A computation that ends as another one does, or goes on with a third one. -/
theorem seq (σ : Type) {q : Eval β} (h : Quiet k G p) (hq : ∀ a, q.after a = p.after a ∨
    ∃ r : Eval σ, Quiet k G r ∧ q.after a = r.after (p.after a)) : Quiet k G q := by
  intro a
  rcases hq a with hq | ⟨r, hr, hq⟩
  · exact (h a).same hq
  · exact (h a).seq ((hr _).mono (Nat.le_refl k) fun _ _ _ => False.elim) hq

theorem pure (x : α) : Quiet k G (Pure.pure x : Eval α) := fun _ =>
  (Runs.look rfl).imp fun _ _ _ _ _ _ => trivial

theorem throw (i : Interrupt) : Quiet k G (throw i : Eval α) := fun _ =>
  (Runs.look rfl).imp fun _ _ _ _ _ _ => trivial

theorem get : Quiet k G (MonadState.get : Eval Agent) := fun _ =>
  (Runs.look rfl).imp fun _ _ _ _ _ _ => trivial

theorem iterate {p : σ → Eval (Sum σ α)} (h : ∀ s, Quiet k G (p s)) (n : Nat) (s : σ) :
    Quiet k G (Eval.iterate p n s) := by
  induction n generalizing s with
  | zero => exact throw _
  | succ n ih =>
    rw [Eval.iterate_succ]
    refine (h s).bind fun x => ?_
    cases x with
    | inl s => exact ih s
    | inr r => exact pure r

theorem catching {f : Value → Eval α} (h : Quiet k G p) (hf : ∀ v, Quiet k G (f v)) :
    Quiet k G (Eval.catching p f) :=
  h.seq α fun a => (Eval.after_catching p f a).imp id fun ⟨v, hv⟩ => ⟨f v, hf v, hv⟩

theorem followedBy {p q : Eval Completion} (h : Quiet k G p) (hq : Quiet k G q) :
    Quiet k G (Eval.followedBy p q) :=
  h.seq Completion fun a => (Eval.after_followedBy p q a).imp id fun heq => ⟨q, hq, heq⟩

/-- A change of the agent that touches no environment, no context and no object. -/
theorem adjust {f : Agent → α × Agent} (henvironments : ∀ a, (f a).2.environments = a.environments)
    (hcontexts : ∀ a, (f a).2.contexts = a.contexts) (hobjects : ∀ a, (f a).2.objects = a.objects) :
    Quiet k G (MonadState.modifyGet f : Eval α) := fun a =>
  Runs.still (henvironments a) (hcontexts a) fun o g h => by
    change ((f a).2.object o).code? = _
    rwa [Agent.object, hobjects a]

theorem allocate (o : Object) : Quiet k G (Eval.allocate o) := fun _ => Runs.allocate o

theorem allocateArray (e : Elements Value) : Quiet k G (Eval.allocateArray e) := by
  unfold Eval.allocateArray
  split
  · exact throw _
  · exact allocate _

theorem modifyObject (i : ObjectId) {f : Object → Object} (hf : ∀ x, (f x).code? = x.code?) :
    Quiet k G (Eval.modifyObject i f) := fun _ => Runs.modifyObject i hf

theorem changeObject (i : ObjectId) {f : Object → α × Object}
    (hf : ∀ x, (f x).2.code? = x.code?) (missing : α) :
    Quiet k G (Eval.changeObject i f missing) := fun _ => Runs.changeObject i hf missing

theorem given {G' : Prop} (h : Quiet k G' p) (hG : G → G') : Quiet k G p := fun a =>
  (h a).given fun _ _ => hG

theorem roam (h : Quiet 0 G p) : Quiet k G p := fun a =>
  (h a).mono (Nat.zero_le k) fun _ _ _ => id

/-- Nothing is asked of a computation that gives a value to no name. -/
theorem anywhere (h : Quiet k G p) {F : EnvironmentId → String → Prop} {a : Agent} :
    Runs k F G a p fun _ _ => True :=
  (h a).mono (Nat.le_refl k) fun _ _ _ => False.elim

/-- All names without value are as they were. -/
theorem frame (h : Quiet k G p) {F : EnvironmentId → String → Prop} {a : Agent} :
    Runs k F G a p fun _ b => Grows k (fun _ _ => False) a b :=
  ((h a).framed.imp fun _ _ _ _ _ hq => hq.2.1).mono (Nat.le_refl k) fun _ _ _ => False.elim

theorem context : Quiet k G Eval.context := by
  unfold Eval.context
  refine get.bind fun a => ?_
  split
  · exact pure _
  · exact throw _

theorem realmAt (r : RealmId) : Quiet k G (Eval.realmAt r) := by
  unfold Eval.realmAt
  refine get.bind fun a => ?_
  split
  · exact pure _
  · exact throw _

theorem closure (f : Function) (e : EnvironmentId) (name : String) :
    Quiet k G (Eval.closure f e name) :=
  context.bind fun _ => (allocate _).bind fun _ => pure _

/-- A function that knows itself is given to its name at once. -/
theorem functionValue (f : Function) : Quiet 0 G (Eval.functionValue f) := by
  intro a
  unfold Eval.functionValue
  refine Runs.environment.bind fun e b _ => ?_
  cases f.name with
  | none => exact (closure f e "").anywhere.given fun _ _ _ => trivial
  | some name =>
    refine (Runs.newEnvironment (some e)).bind fun i c _ => ?_
    refine ((Runs.createVariable i name rfl rfl).weaken (Nat.le_refl 0) ?_).bind fun _ d _ => ?_
    · rintro - - ⟨-, -, -, hvacant, hlacks⟩
      refine ⟨hlacks name, ?_⟩
      rintro _ _ - ⟨rfl, -⟩ hi
      rw [hvacant] at hi
      cases hi
    refine (closure f i name).frame.bind fun v x _ => ?_
    refine ((Runs.initializeVariable i name v).weaken (Nat.le_refl 0) ?_).bind fun _ _ _ =>
      (pure v).anywhere.given fun _ _ _ => trivial
    rintro - - ⟨⟨⟨-, -, -, hvacant, -⟩, -, -, hawaits⟩, -, hs, hgrows⟩
    refine ⟨Environments.stable_awaits hgrows.lawful hs hgrows.spares not_false hawaits, ?_⟩
    rintro _ _ - ⟨rfl, -⟩ - - hi
    rw [hvacant] at hi
    cases hi

theorem method (b : Builtin) : Quiet k G (Eval.method b) := by
  unfold Eval.method
  refine get.bind fun a => ?_
  split
  · exact pure _
  · exact (allocate _).bind fun id => Quiet.bind (adjust (fun _ => rfl) (fun _ => rfl) fun _ => rfl)
      fun _ => pure _

theorem templateObject (t : Template) : Quiet k G (Eval.templateObject t) := by
  unfold Eval.templateObject
  refine context.bind fun c => Quiet.bind (context.bind fun _ => realmAt _) fun r => ?_
  split
  · exact pure _
  · refine (allocateArray _).bind fun o => (allocateArray _).bind fun raw => ?_
    refine (modifyObject raw Object.code?_freeze).bind fun _ => ?_
    refine Quiet.bind (modifyObject o ?_) fun _ => Quiet.bind (adjust ?_ ?_ ?_) fun _ => pure _
    · exact fun x => (Object.code?_freeze _).trans rfl
    all_goals exact fun _ => rfl

theorem requireThawed (i : ObjectId) : Quiet k G (Eval.requireThawed i) := by
  refine Quiet.bind (get.bind fun _ => pure _) fun e => ?_
  split
  · exact fun _ => Runs.raise _ _
  · exact pure _

theorem requireRoom (i : ObjectId) (count : Nat) : Quiet k G (Eval.requireRoom i count) := by
  refine (requireThawed i).bind fun _ => Quiet.bind (get.bind fun _ => pure _) fun e => ?_
  split
  · exact fun _ => Runs.raise _ _
  · exact pure _

theorem changeArray (i : ObjectId) (f : Elements Value → α × Elements Value) (missing : α) :
    Quiet k G (Eval.changeArray i f missing) := by
  exact (requireThawed i).bind fun _ =>
    changeObject i (fun x => x.code?_changeElements f missing) missing

theorem joining (o : ObjectId) (h : Quiet 0 G p) : Quiet 0 G (do
    modify fun a => { a with joining := o :: a.joining }
    Eval.ending p fun a => { a with joining := a.joining.erase o }) := by
  have hpush := adjust (k := 0) (G := G) (f := fun a => ((), { a with joining := o :: a.joining }))
    (fun _ => rfl) (fun _ => rfl) fun _ => rfl
  have hpop := adjust (k := 0) (G := G) (f := fun a => ((), { a with joining := a.joining.erase o }))
    (fun _ => rfl) (fun _ => rfl) fun _ => rfl
  exact hpush.bind fun _ => h.seq Unit fun a => .inr ⟨_, hpop, Eval.after_ending ..⟩

end Quiet

/-- **The law of computations that give a value to no name.** -/
def quiet (G : Prop) : Law where
  Holds := Quiet 0 G
  CountsOnKeys := False
  pure := Quiet.pure
  throw := Quiet.throw
  get := Quiet.get
  bindOf := fun h hf => h.bindOf fun a x b => hf a x b False.elim
  catching := Quiet.catching
  followedBy := Quiet.followedBy
  joining := Quiet.joining
  adjust := fun f hf =>
    Quiet.adjust (fun a => (hf a).environments) (fun a => (hf a).contexts) fun a => (hf a).objects
  newRealm := fun _ _ => Quiet.adjust (fun _ => rfl) (fun _ => rfl) fun _ => rfl
  allocate := fun o _ => Quiet.allocate o
  method := Quiet.method
  functionValue := Quiet.functionValue
  templateObject := Quiet.templateObject
  causedError := fun _ _ cause => by
    refine (Quiet.allocate _).bind fun i => Quiet.bind ?_ fun _ => .pure _
    cases cause with
    | none => exact Quiet.pure _
    | some v => exact Quiet.modifyObject i fun _ => rfl
  nameFunction := fun v name => by
    cases v with
    | object i => exact Quiet.modifyObject i fun x => x.code?_withName name
    | _ => exact Quiet.pure _
  freeze := fun v => by
    cases v with
    | object i => exact Quiet.modifyObject i Object.code?_freeze
    | _ => exact Quiet.pure _
  delete := fun i k => Quiet.changeObject i (·.code?_delete k) true
  setLength := fun i n _ => Quiet.changeObject i (·.code?_setLength n) false
  write := fun i k v _ hp => by
    refine (Quiet.get.bind fun _ => .pure _).bind fun o => ?_
    split
    · exact hp
    · exact Quiet.changeObject i (·.code?_write k v) false
  define := fun i k v => Quiet.changeObject i (·.code?_define k v) false
  changeArray := fun i f missing _ => Quiet.changeArray i f missing
  growArray := fun i count f _ => (Quiet.requireRoom i count).bind fun _ => Quiet.changeArray i _ ()
  deleteVariable := fun e name _ => Runs.deleteVariable e name

/-- An assignment gives a first value to no name. -/
theorem Quiet.writeVariable {G : Prop} (e : EnvironmentId) (name : String) (v : Value) :
    Quiet 0 G (Eval.writeVariable e name v true) := fun _ =>
  (Runs.writeVariable e name v true).given fun _ _ _ h => by cases h

/-- **A loop over names** of an environment, if no name comes twice. -/
theorem Runs.forM {ι : Type} (f : ι → String)
    {P Q : ι → Environments → EnvironmentId → String → Prop}
    (hP : ∀ d, Environments.Stable (P d)) (hQ : ∀ d, Environments.Stable (Q d)) {e : EnvironmentId}
    {p : ι → Eval PUnit} {l : List ι}
    (h : ∀ d ∈ l, ∀ a, Runs 0 (Slots e [f d]) (P d a.environments e (f d)) a (p d)
      fun _ b => Q d b.environments e (f d)) (a : Agent) :
    Runs 0 (Slots e (l.map f)) ((l.map f).Nodup ∧ ∀ d ∈ l, P d a.environments e (f d)) a (l.forM p)
      fun _ b => ∀ d ∈ l, Q d b.environments e (f d) := by
  induction l generalizing a with
  | nil => exact (Runs.look rfl).imp fun _ _ _ _ _ _ d hd => by cases hd
  | cons d l ih =>
    rw [List.map_cons, List.nodup_cons]
    have hfirst := h d List.mem_cons_self a
    refine (hfirst.framed.weaken (Nat.le_refl 0) fun _ _ hg => ⟨hg.2 _ List.mem_cons_self, ?_⟩).bind
      fun _ b _ => ?_
    · rintro i n - ⟨rfl, hn⟩
      exact ⟨rfl, List.mem_cons.mpr (.inl (List.mem_singleton.mp hn))⟩
    · have hrest := ih (fun d hd => h d (List.mem_cons_of_mem _ hd)) b
      refine (hrest.framed.weaken (Nat.le_refl 0) ?_).imp fun _ c _ hg _ hq => ?_
      · rintro - - ⟨⟨⟨hfresh, hl⟩, hg⟩, -, hs, -, hgrows, -⟩
        refine ⟨⟨hl, fun x hx => ?_⟩, fun i n _ hF _ => ⟨hF.1, List.mem_cons_of_mem _ hF.2⟩⟩
        refine hP x hgrows.lawful hs hgrows.spares ?_ (hg x (List.mem_cons_of_mem _ hx))
        rintro ⟨-, hx'⟩
        exact hfresh (List.mem_singleton.mp hx' ▸ List.mem_map_of_mem hx)
      · obtain ⟨hs, hgrows, hrest⟩ := hq
        refine List.forall_mem_cons.mpr ⟨?_, hrest⟩
        exact hQ d hgrows.lawful hs hgrows.spares (fun hF => hg.1.1.1 hF.2) hg.2.2.2.2.2

end Scriptlet
