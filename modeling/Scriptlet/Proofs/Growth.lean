import Scriptlet.Proofs.Agreement

/-!
# Growing worlds

Agreeing agents go on agreeing when something that corresponds is changed alike on both sides, and,
in a later world, when something new is made on both sides.

## Main definitions

* `World.withObject`, `World.withEnvironment`, `World.withBound`, `World.withFunction` — the worlds
  in which more corresponds or more is known.

## Main results

* `Agrees.setObject`, `Agrees.pushObject` — changed and new objects.
* `Agrees.setEnvironment`, `Agrees.allocateEnvironment` — changed and new environments.
* `Agrees.noteBound`, `Agrees.noteFunction` — what is found out.
-/

namespace Scriptlet

/-- A relation that holds besides of two things that it did not know is as unique as before. -/
theorem biUnique_or {α β : Type} {R : α → β → Prop} (hR : Relator.BiUnique R) {a : α} {b : β}
    (ha : ∀ y, ¬R a y) (hb : ∀ x, ¬R x b) :
    Relator.BiUnique fun x y => R x y ∨ x = a ∧ y = b := by
  constructor
  · rintro x x' y (h | ⟨rfl, rfl⟩) (h' | ⟨rfl, h'⟩)
    · exact hR.1 h h'
    · exact absurd (h' ▸ h) (hb x)
    · exact absurd h' (hb x')
    · rfl
  · rintro x y y' (h | ⟨rfl, rfl⟩) (h' | ⟨h', rfl⟩)
    · exact hR.2 h h'
    · exact absurd (h' ▸ h) (ha y)
    · exact absurd h' (ha y')
    · rfl

namespace World

theorem left_object {ρ : World} {o p : ObjectId} (h : ρ.object o p) : ρ.left.object o := ⟨p, h⟩

theorem right_object {ρ : World} {o p : ObjectId} (h : ρ.object o p) : ρ.right.object p := ⟨o, h⟩

theorem left_environment {ρ : World} {e f : EnvironmentId} (h : ρ.environment e f) :
    ρ.left.environment e :=
  ⟨f, h⟩

theorem right_environment {ρ : World} {e f : EnvironmentId} (h : ρ.environment e f) :
    ρ.right.environment f :=
  ⟨e, h⟩

variable (ρ : World)

/-- The world in which two more objects correspond. -/
def withObject (o p : ObjectId) (ho : ∀ q, ¬ρ.object o q) (hp : ∀ q, ¬ρ.object q p) : World :=
  { ρ with
    object := fun o' p' => ρ.object o' p' ∨ o' = o ∧ p' = p
    object_unique := biUnique_or ρ.object_unique ho hp }

/-- The world in which two more environments correspond, of which the first one has a plan. -/
def withEnvironment (e f : EnvironmentId) (plan : Plan) (he : ∀ f', ¬ρ.environment e f')
    (hf : ∀ e', ¬ρ.environment e' f) : World :=
  { ρ with
    environment := fun e' f' => ρ.environment e' f' ∨ e' = e ∧ f' = f
    environment_unique := biUnique_or ρ.environment_unique he hf
    plan := fun e' => if e' = e then plan else ρ.plan e'
    isBound := fun e' n => e' ≠ e ∧ ρ.isBound e' n }

/-- The world in which an environment is known to have a name. -/
def withBound (e : EnvironmentId) (name : String) : World :=
  { ρ with isBound := fun e' n => ρ.isBound e' n ∨ e' = e ∧ n = name }

/-- The world in which an object is known to be a function. -/
def withFunction (o : ObjectId) : World :=
  { ρ with isFunction := fun o' => ρ.isFunction o' ∨ o' = o }

variable {ρ}

theorem le_withObject {o p : ObjectId} (ho : ∀ q, ¬ρ.object o q) (hp : ∀ q, ¬ρ.object q p) :
    ρ ≤ ρ.withObject o p ho hp :=
  { le_refl ρ with object := .inl }

theorem le_withEnvironment {e f : EnvironmentId} {plan : Plan} (he : ∀ f', ¬ρ.environment e f')
    (hf : ∀ e', ¬ρ.environment e' f) : ρ ≤ ρ.withEnvironment e f plan he hf where
  object := id
  environment := .inl
  realm := id
  isFunction := id
  plan := by
    rintro e' ⟨f', h⟩
    exact if_neg (by rintro rfl; exact he f' h)
  isBound := by
    rintro e' n ⟨f', h⟩ hb
    exact ⟨by rintro rfl; exact he f' h, hb⟩
  globals := fun _ => rfl
  filing := rfl

theorem le_withBound (e : EnvironmentId) (name : String) : ρ ≤ ρ.withBound e name :=
  { le_refl ρ with isBound := fun _ => .inl }

theorem le_withFunction (o : ObjectId) : ρ ≤ ρ.withFunction o :=
  { le_refl ρ with isFunction := .inl }

end World

/-! ### Later worlds -/

namespace Agrees

variable {φ : RealmId → Filing} {ρ : World} {K : Stack φ} {a b : Agent}

/-- An environment that keeps to its plan does so in a later world, if it has the names that are
known of it there. -/
theorem environmentRel_mono {σ : World} (hle : ρ ≤ σ) {e : EnvironmentId} {x y : Environment}
    (hk : ρ.Knows e) (hbound : ∀ n, σ.isBound e n → x.has n = true)
    (h : Environment.Rel ρ e x y) : Environment.Rel σ e x y where
  outer := by
    obtain ⟨h1, h2⟩ | ⟨o, o', h1, h2, ho⟩ := Option.rel_cases h.outer <;> rw [h1, h2]
    · exact .none
    · exact .some (hle.environment ho)
  entries := h.entries.imp fun p q hpq => ⟨hpq.1, hpq.2.mono hle⟩
  plan := by
    rw [hle.plan hk]
    exact h.plan
  depth := by
    intro o ho
    obtain ⟨h1, -⟩ | ⟨o₁, o₂, h1, -, ho'⟩ := Option.rel_cases h.outer
    · rw [h1] at ho
      cases ho
    · rw [h1] at ho
      cases ho
      rw [hle.plan hk, hle.plan ⟨o₂, ho'⟩]
      exact h.depth _ h1
  allowed := by
    rw [hle.plan hk]
    exact h.allowed
  bound := hbound

/-- What agrees in a world agrees in a later one in which the same places correspond, if what is
known there besides is true. -/
theorem later {σ : World} (h : Agrees ρ K a b) (hle : ρ ≤ σ)
    (ho : ∀ {o p}, σ.object o p → ρ.object o p)
    (he : ∀ {e f}, σ.environment e f → ρ.environment e f)
    (hr : ∀ {r s}, σ.realm r s → ρ.realm r s)
    (hf : ∀ {o}, σ.isFunction o → (a.object o).isFunction = true)
    (hb : ∀ {e x}, a.environments.get? e = some x → ∀ n, σ.isBound e n → σ.Knows e →
      x.has n = true) : Agrees σ K a b where
  object := by
    intro o p hop
    -- What the later world pairs was paired before, and records related in a world are related in
    -- each later one.
    obtain ⟨x, y, hx, hy, hxy⟩ := h.object (ho hop)
    exact ⟨x, y, hx, hy, hxy.mono hle⟩
  function := hf
  environments :=
    { h.environments with
      record := by
        intro e f hef
        obtain ⟨x, y, hx, hy, hxy⟩ := h.environments.record (he hef)
        exact ⟨x, y, hx, hy,
          environmentRel_mono hle ⟨f, he hef⟩ (fun n hn => hb hx n hn ⟨f, hef⟩) hxy⟩ }
  realm := by
    intro r s hrs
    obtain ⟨x, y, hx, hy, hxy⟩ := h.realm (hr hrs)
    exact ⟨x, y, hx, hy, hxy.mono hle ⟨s, hr hrs⟩⟩
  method := by
    intro m
    rcases h.method m with ⟨o, p, hm, hm', hop⟩ | ⟨hl, hr⟩
    · exact .inl ⟨o, p, hm, hm', hle.object hop⟩
    · refine .inr ⟨fun o hm => ⟨?_, (hl o hm).2⟩, fun p hm => ⟨?_, (hr p hm).2⟩⟩
      · rintro ⟨p, hop⟩
        exact (hl o hm).1 ⟨p, ho hop⟩
      · rintro ⟨o, hop⟩
        exact (hr p hm).1 ⟨o, ho hop⟩
  contexts_left := h.contexts_left
  contexts_right := h.contexts_right
  contexts := fun c hc => (h.contexts c hc).mono hle
  joining_left := h.joining_left
  joining_right := h.joining_right
  joining := fun o hj => hle.object (h.joining o hj)
  realms_size := h.realms_size
  filing := hle.filing.trans h.filing
  size := h.size
  same := fun i hi => hle.object (h.same i hi)
  known := fun i hi => (h.known i hi).imp fun _ hs => hle.realm hs

/-- An object is found out to be a function. -/
theorem noteFunction (h : Agrees ρ K a b) {o : ObjectId} (ho : (a.object o).isFunction = true) :
    Agrees (ρ.withFunction o) K a b := by
  refine h.later (World.le_withFunction o) id id id ?_ ?_
  · rintro o' (ho' | rfl)
    · exact h.function ho'
    · exact ho
  · rintro e x hx n hb ⟨f, hef⟩
    obtain ⟨x', y, hx', -, hxy⟩ := h.environments.record hef
    rw [hx] at hx'
    cases hx'
    exact hxy.bound n hb

/-- An environment is found out to have a name. -/
theorem noteBound (h : Agrees ρ K a b) {e : EnvironmentId} {x : Environment} {name : String}
    (hx : a.environments.get? e = some x) (hn : x.has name = true) :
    Agrees (ρ.withBound e name) K a b := by
  refine h.later (World.le_withBound e name) id id id h.function ?_
  rintro e' x' hx' n (hb | ⟨rfl, rfl⟩) ⟨f, hef⟩
  · obtain ⟨x'', y, hx'', -, hxy⟩ := h.environments.record hef
    rw [hx'] at hx''
    cases hx''
    exact hxy.bound n hb
  · rw [hx] at hx'
    cases hx'
    exact hn

end Agrees

/-! ### Objects -/

theorem Agent.object_eq_getD (a : Agent) (o : ObjectId) :
    a.object o = (a.objects[o.index]?).getD .empty :=
  Array.getD_eq_getD_getElem? ..

namespace Agrees

variable {φ : RealmId → Filing} {ρ : World} {K : Stack φ} {a b : Agent}

/-- An object of the first agent that corresponds to none is none of those that are known to be
functions elsewhere. -/
theorem not_object_size (h : Agrees ρ K a b) (q : ObjectId) : ¬ρ.object ⟨a.objects.size⟩ q :=
  fun hq => Nat.lt_irrefl _ (h.lt_left hq)

theorem not_object_size_right (h : Agrees ρ K a b) (q : ObjectId) :
    ¬ρ.object q ⟨b.objects.size⟩ :=
  fun hq => Nat.lt_irrefl _ (h.lt_right hq)

/-- The objects of a place that keeps them, after one of them has been replaced. -/
theorem getElem?_setObject {xs : Array Object} {o : ObjectId} {x : Object} (h : o.index < xs.size)
    (o' : ObjectId) :
    (xs.setIfInBounds o.index x)[o'.index]? = if o' = o then some x else xs[o'.index]? := by
  rw [Array.getElem?_setIfInBounds]
  by_cases ho : o' = o
  · subst ho
    rw [if_pos rfl, if_pos h, if_pos rfl]
  · have hi : o.index ≠ o'.index := fun hi => ho (by cases o; cases o'; cases hi; rfl)
    rw [if_neg hi, if_neg ho]

/-- A method is kept in reserve when other objects change. -/
theorem reserves_setObject {U : Territory} {m : Builtin} {o : ObjectId} {x : Object}
    (hlt : o.index < a.objects.size) (ho : U.object o) (h : a.Reserves U m) :
    Agent.Reserves { a with objects := a.objects.setIfInBounds o.index x } U m := by
  intro q hq
  obtain ⟨hU, hx⟩ := h q hq
  refine ⟨hU, ?_⟩
  have hne : q ≠ o := by
    rintro rfl
    exact hU ho
  rw [getElem?_setObject hlt, if_neg hne]
  exact hx

/-- Corresponding objects are replaced by corresponding ones. -/
theorem setObject (h : Agrees ρ K a b) {o p : ObjectId} (hop : ρ.object o p) {x y : Object}
    (hxy : Object.Rel ρ x y) (hx : x.isFunction = (a.object o).isFunction) :
    Agrees ρ K { a with objects := a.objects.setIfInBounds o.index x }
      { b with objects := b.objects.setIfInBounds p.index y } := by
  have hlt := h.lt_left hop
  have hlt' := h.lt_right hop
  refine { h with object := ?_, function := ?_, method := ?_, size := ?_, same := ?_ }
  · intro o' p' hop'
    rw [getElem?_setObject hlt, getElem?_setObject hlt']
    -- The pairing is one to one, so the two objects that are replaced are paired with each other
    -- only.
    by_cases ho : o' = o
    · subst ho
      have hp : p' = p := ρ.object_unique.2 hop' hop
      subst hp
      rw [if_pos rfl, if_pos rfl]
      exact ⟨x, y, rfl, rfl, hxy⟩
    · have hp : p' ≠ p := by
        rintro rfl
        exact ho (ρ.object_unique.1 hop' hop)
      rw [if_neg ho, if_neg hp]
      exact h.object hop'
  · intro o' ho'
    have hf := h.function ho'
    rw [Agent.object_eq_getD] at hf ⊢
    rw [getElem?_setObject hlt]
    split
    · rename_i ho
      subst ho
      rw [Option.getD_some, hx, Agent.object_eq_getD]
      exact hf
    · exact hf
  · intro m
    rcases h.method m with hm | ⟨hl, hr⟩
    · exact .inl hm
    · exact .inr ⟨reserves_setObject hlt (World.left_object hop) hl,
        reserves_setObject hlt' (World.right_object hop) hr⟩
  · rw [Array.size_setIfInBounds, Array.size_setIfInBounds]
    exact h.size
  · rw [Array.size_setIfInBounds]
    exact h.same

/-- Replacing an object spares all others. -/
theorem spares_setObject {U : Territory} {o : ObjectId} (hlt : o.index < a.objects.size)
    (ho : U.object o) (x : Object) :
    Territory.Spares U U a { a with objects := a.objects.setIfInBounds o.index x } :=
  { Territory.Spares.refl U a with
    size := by simp
    object := by
      intro q y hy hq
      have hne : q ≠ o := by
        rintro rfl
        exact hq ho
      rw [getElem?_setObject hlt, if_neg hne]
      exact hy }

theorem extends_setObject (h : Agrees ρ K a b) {o p : ObjectId} (hop : ρ.object o p)
    (x y : Object) :
    Extends ρ a b ρ { a with objects := a.objects.setIfInBounds o.index x }
      { b with objects := b.objects.setIfInBounds p.index y } :=
  ⟨World.le_refl ρ, spares_setObject (h.lt_left hop) (World.left_object hop) x,
    spares_setObject (h.lt_right hop) (World.right_object hop) y⟩

/-- What is there stays in its place when an object is added behind it. -/
theorem getElem?_pushObject {xs : Array Object} {i : Nat} {x : Object} (h : xs[i]? = some x)
    (y : Object) : (xs.push y)[i]? = some x := by
  have hlt := (Array.getElem?_eq_some_iff.mp h).1
  rw [Array.getElem?_push_lt hlt, ← Array.getElem?_eq_getElem hlt]
  exact h

theorem object_pushObject {o : ObjectId} (h : o.index < a.objects.size) (x : Object) :
    Agent.object { a with objects := a.objects.push x } o = a.object o := by
  rw [Agent.object_eq_getD, Agent.object_eq_getD, Array.getElem?_push_lt h,
    Array.getElem?_eq_getElem h]

/-- A method is kept in reserve when objects are added. -/
theorem reserves_pushObject {U V : Territory} {m : Builtin}
    (hV : ∀ o, V.object o → U.object o ∨ o = ⟨a.objects.size⟩) (x : Object)
    (h : a.Reserves U m) :
    Agent.Reserves { a with objects := a.objects.push x } V m := by
  intro q hq
  obtain ⟨hU, hx⟩ := h q hq
  refine ⟨fun hqV => ?_, getElem?_pushObject hx x⟩
  rcases hV q hqV with hqU | rfl
  · exact hU hqU
  · exact Nat.lt_irrefl _ (Array.getElem?_eq_some_iff.mp hx).1

/-- The world after corresponding objects have been added on both sides. -/
def pushedWorld (h : Agrees ρ K a b) : World :=
  ρ.withObject ⟨a.objects.size⟩ ⟨b.objects.size⟩ h.not_object_size h.not_object_size_right

theorem le_pushedWorld (h : Agrees ρ K a b) : ρ ≤ h.pushedWorld := World.le_withObject _ _

theorem object_pushedWorld (h : Agrees ρ K a b) :
    h.pushedWorld.object ⟨a.objects.size⟩ ⟨b.objects.size⟩ :=
  .inr ⟨rfl, rfl⟩

/-- Corresponding objects are added on both sides. -/
theorem pushObject (h : Agrees ρ K a b) {x y : Object} (hxy : Object.Rel ρ x y) :
    Agrees h.pushedWorld K { a with objects := a.objects.push x }
      { b with objects := b.objects.push y } where
  object := by
    rintro o p (hop | ⟨rfl, rfl⟩)
    · obtain ⟨x', y', hx, hy, hxy'⟩ := h.object hop
      exact ⟨x', y', getElem?_pushObject hx x, getElem?_pushObject hy y,
        hxy'.mono h.le_pushedWorld⟩
    · exact ⟨x, y, Array.getElem?_push_size, Array.getElem?_push_size, hxy.mono h.le_pushedWorld⟩
  function := by
    intro o ho
    have hf := h.function ho
    -- An index behind the end gives no function, so the pushed object takes no function's place.
    have hlt : o.index < a.objects.size := by
      by_contra hge
      rw [Agent.object_eq_getD, Array.getElem?_eq_none (Nat.le_of_not_lt hge)] at hf
      cases hf
    rw [object_pushObject hlt]
    exact hf
  environments :=
    { h.environments with
      record := by
        intro e f hef
        obtain ⟨x', y', hx, hy, hxy'⟩ := h.environments.record hef
        exact ⟨x', y', hx, hy, environmentRel_mono h.le_pushedWorld ⟨f, hef⟩ hxy'.bound hxy'⟩ }
  realm := by
    intro r s hrs
    obtain ⟨x', y', hx, hy, hxy'⟩ := h.realm hrs
    exact ⟨x', y', hx, hy, hxy'.mono h.le_pushedWorld ⟨s, hrs⟩⟩
  method := by
    intro m
    rcases h.method m with ⟨o, p, ho, hp, hop⟩ | ⟨hl, hr⟩
    · exact .inl ⟨o, p, ho, hp, .inl hop⟩
    · refine .inr ⟨reserves_pushObject (fun o => ?_) x hl, reserves_pushObject (fun p => ?_) y hr⟩
      · rintro ⟨q, hq | ⟨rfl, rfl⟩⟩
        · exact .inl ⟨q, hq⟩
        · exact .inr rfl
      · rintro ⟨q, hq | ⟨rfl, rfl⟩⟩
        · exact .inl ⟨q, hq⟩
        · exact .inr rfl
  contexts_left := h.contexts_left
  contexts_right := h.contexts_right
  contexts := fun c hc => (h.contexts c hc).mono h.le_pushedWorld
  joining_left := h.joining_left
  joining_right := h.joining_right
  joining := fun o ho => .inl (h.joining o ho)
  realms_size := h.realms_size
  filing := h.filing
  size := by
    rw [Array.size_push, Array.size_push, h.size]
  same := by
    intro i hi
    rw [Array.size_push] at hi
    rcases Nat.lt_succ_iff_lt_or_eq.mp hi with hlt | rfl
    · exact .inl (h.same i hlt)
    · exact .inr ⟨rfl, by rw [h.size]⟩
  known := h.known

/-- Adding an object spares all others. -/
theorem spares_pushObject {U V : Territory} (hU : ∀ {o}, U.object o → V.object o)
    (hV : ∀ {o}, V.object o → U.object o ∨ o = ⟨a.objects.size⟩)
    (he : V.environment = U.environment) (hr : V.realm = U.realm) (x : Object) :
    Territory.Spares U V a { a with objects := a.objects.push x } where
  object_mono := hU
  environment_mono := by rw [he]; exact id
  realm_mono := by rw [hr]; exact id
  size := by simp
  method := id
  object := fun hx _ => getElem?_pushObject hx x
  object_new := by
    intro o ho
    rcases hV ho with ho | rfl
    · exact .inl ho
    · exact .inr (.inl (Array.getElem?_eq_none (Nat.le_refl _)))
  environment := fun hx _ => hx
  environment_new := by rw [he]; exact .inl
  realm := fun hx _ => hx
  realm_new := by rw [hr]; exact .inl

theorem extends_pushObject (h : Agrees ρ K a b) (x y : Object) :
    Extends ρ a b h.pushedWorld { a with objects := a.objects.push x }
      { b with objects := b.objects.push y } where
  le := h.le_pushedWorld
  left := by
    refine spares_pushObject (U := ρ.left) (V := h.pushedWorld.left) ?_ ?_ rfl rfl x
    · rintro o ⟨p, hop⟩
      exact ⟨p, .inl hop⟩
    · rintro o ⟨p, hop | ⟨rfl, rfl⟩⟩
      · exact .inl ⟨p, hop⟩
      · exact .inr rfl
  right := by
    refine spares_pushObject (U := ρ.right) (V := h.pushedWorld.right) ?_ ?_ rfl rfl y
    · rintro p ⟨o, hop⟩
      exact ⟨o, .inl hop⟩
    · rintro p ⟨o, hop | ⟨rfl, rfl⟩⟩
      · exact .inl ⟨o, hop⟩
      · exact .inr rfl

end Agrees

/-! ### Environments -/

namespace Agrees

variable {φ : RealmId → Filing} {ρ : World} {K : Stack φ} {a b : Agent}

/-- Corresponding environments are replaced by corresponding ones. -/
theorem setEnvironment (h : Agrees ρ K a b) {e f : EnvironmentId} (hef : ρ.environment e f)
    {x y : Environment} (hxy : Environment.Rel ρ e x y) :
    Agrees ρ K { a with environments := a.environments.set e x }
      { b with environments := b.environments.set f y } := by
  obtain ⟨x₀, y₀, hx, hy, -⟩ := h.environments.record hef
  refine { h with environments := ⟨?_, ?_, ?_, ?_⟩ }
  · intro e' f' hef'
    by_cases he : e' = e
    · subst he
      have hf : f' = f := ρ.environment_unique.2 hef' hef
      subst hf
      exact ⟨x, y, Environments.get?_set_self hx x, Environments.get?_set_self hy y, hxy⟩
    · have hf : f' ≠ f := by
        rintro rfl
        exact he (ρ.environment_unique.1 hef' hef)
      rw [Environments.get?_set_of_ne he, Environments.get?_set_of_ne hf]
      exact h.environments.record hef'
  · exact Environments.isTidy_set h.environments.tidy_left hx x
  · exact Environments.isTidy_set h.environments.tidy_right hy y
  · intro e' z name v hz hv
    by_cases he : e' = e
    · subst he
      cases (Environments.get?_set_self hx x).symm.trans hz
      exact hxy.lasting hv
    · rw [Environments.get?_set_of_ne he] at hz
      exact h.environments.lasting hz hv

/-- Replacing an environment spares all others. -/
theorem spares_setEnvironment {U : Territory} {e : EnvironmentId} (he : U.environment e)
    (x : Environment) :
    Territory.Spares U U a { a with environments := a.environments.set e x } :=
  { Territory.Spares.refl U a with
    environment := by
      intro e' y hy he'
      have hne : e' ≠ e := by
        rintro rfl
        exact he' he
      rw [Environments.get?_set_of_ne hne]
      exact hy }

theorem extends_setEnvironment {e f : EnvironmentId} (hef : ρ.environment e f)
    (x y : Environment) :
    Extends ρ a b ρ { a with environments := a.environments.set e x }
      { b with environments := b.environments.set f y } :=
  ⟨World.le_refl ρ, spares_setEnvironment (World.left_environment hef) x,
    spares_setEnvironment (World.right_environment hef) y⟩

theorem not_environment_vacant (h : Agrees ρ K a b) (x : Environment) (f : EnvironmentId) :
    ¬ρ.environment (a.environments.allocate x).1 f := by
  intro hf
  obtain ⟨x', -, hx', -, -⟩ := h.environments.record hf
  rw [Environments.vacant_allocate h.environments.tidy_left] at hx'
  cases hx'

theorem not_environment_vacant_right (h : Agrees ρ K a b) (y : Environment) (e : EnvironmentId) :
    ¬ρ.environment e (b.environments.allocate y).1 := by
  intro he
  obtain ⟨-, y', -, hy', -⟩ := h.environments.record he
  rw [Environments.vacant_allocate h.environments.tidy_right] at hy'
  cases hy'

/-- The world after corresponding environments have been made on both sides. -/
def grownWorld (h : Agrees ρ K a b) (x y : Environment) (plan : Plan) : World :=
  ρ.withEnvironment (a.environments.allocate x).1 (b.environments.allocate y).1 plan
    (h.not_environment_vacant x) (h.not_environment_vacant_right y)

theorem le_grownWorld (h : Agrees ρ K a b) (x y : Environment) (plan : Plan) :
    ρ ≤ h.grownWorld x y plan :=
  World.le_withEnvironment _ _

/-- Corresponding environments without names are made on both sides. -/
theorem allocateEnvironment (h : Agrees ρ K a b) {o o' : Option EnvironmentId}
    (ho : Option.Rel ρ.environment o o') (plan : Plan) (hplan : plan.outer = o)
    (hdepth : ∀ i, o = some i → (ρ.plan i).depth < plan.depth) :
    Agrees (h.grownWorld ⟨o, []⟩ ⟨o', []⟩ plan) K
      { a with environments := (a.environments.allocate ⟨o, []⟩).2 }
      { b with environments := (b.environments.allocate ⟨o', []⟩).2 } := by
  have hle := h.le_grownWorld ⟨o, []⟩ ⟨o', []⟩ plan
  have hlater : ∀ {e f x y}, ρ.environment e f → Environment.Rel ρ e x y →
      Environment.Rel (h.grownWorld ⟨o, []⟩ ⟨o', []⟩ plan) e x y :=
    fun hef hxy => environmentRel_mono hle ⟨_, hef⟩ (fun n hn => hxy.bound n hn.2) hxy
  refine
    { object := ?_, function := h.function, environments := ⟨?_, ?_, ?_, ?_⟩, realm := ?_, method := ?_,
      contexts_left := h.contexts_left, contexts_right := h.contexts_right,
      contexts := fun c hc => (h.contexts c hc).mono hle, joining_left := h.joining_left,
      joining_right := h.joining_right, joining := h.joining, realms_size := h.realms_size,
      filing := h.filing, size := h.size, same := h.same, known := h.known }
  · intro i p hip
    obtain ⟨x, y, hx, hy, hxy⟩ := h.object hip
    exact ⟨x, y, hx, hy, hxy.mono hle⟩
  -- The records allocated are at vacant places: none of those paired before is touched.
  · rintro e f (hef | ⟨rfl, rfl⟩)
    · obtain ⟨x, y, hx, hy, hxy⟩ := h.environments.record hef
      have he : e ≠ (a.environments.allocate ⟨o, []⟩).1 := by
        rintro rfl
        exact h.not_environment_vacant _ _ hef
      have hf : f ≠ (b.environments.allocate ⟨o', []⟩).1 := by
        rintro rfl
        exact h.not_environment_vacant_right _ _ hef
      rw [Environments.get?_allocate_of_ne _ he, Environments.get?_allocate_of_ne _ hf]
      exact ⟨x, y, hx, hy, hlater hef hxy⟩
    · refine ⟨⟨o, []⟩, ⟨o', []⟩, Environments.get?_allocate_self h.environments.tidy_left _,
        Environments.get?_allocate_self h.environments.tidy_right _, ?_⟩
      have hp : (h.grownWorld ⟨o, []⟩ ⟨o', []⟩ plan).plan (a.environments.allocate ⟨o, []⟩).1 = plan :=
        if_pos rfl
      refine { outer := ?_, entries := .nil, plan := ?_, depth := ?_, allowed := ?_, bound := ?_ }
      · obtain ⟨rfl, rfl⟩ | ⟨i, j, rfl, rfl, hij⟩ := Option.rel_cases ho
        · exact .none
        · exact .some (hle.environment hij)
      · rw [hp, hplan]
      · rintro i rfl
        obtain ⟨h1, -⟩ | ⟨i', j, h1, -, hij⟩ := Option.rel_cases ho
        · cases h1
        · cases h1
          rw [hp, hle.plan ⟨j, hij⟩]
          exact hdepth i rfl
      · intro n hn
        cases hn
      · rintro n ⟨hne, -⟩
        exact absurd rfl hne
  · exact Environments.isTidy_allocate h.environments.tidy_left _
  · exact Environments.isTidy_allocate h.environments.tidy_right _
  · intro e z name v hz hv
    by_cases he : e = (a.environments.allocate ⟨o, []⟩).1
    · subst he
      cases (Environments.get?_allocate_self h.environments.tidy_left _).symm.trans hz
      cases hv
    · rw [Environments.get?_allocate_of_ne _ he] at hz
      exact h.environments.lasting hz hv
  · intro r s hrs
    obtain ⟨x, y, hx, hy, hxy⟩ := h.realm hrs
    exact ⟨x, y, hx, hy, hxy.mono hle ⟨s, hrs⟩⟩
  · intro m
    exact h.method m

/-- Making an environment spares all others. -/
theorem spares_allocateEnvironment {U V : Territory} (h : a.environments.IsTidy) (x : Environment)
    (hU : ∀ {e}, U.environment e → V.environment e)
    (hV : ∀ {e}, V.environment e → U.environment e ∨ e = (a.environments.allocate x).1)
    (hself : V.environment (a.environments.allocate x).1) (ho : V.object = U.object)
    (hr : V.realm = U.realm) :
    Territory.Spares U V a { a with environments := (a.environments.allocate x).2 } where
  object_mono := by rw [ho]; exact id
  environment_mono := hU
  realm_mono := by rw [hr]; exact id
  size := Nat.le_refl _
  method := id
  object := fun hx _ => hx
  object_new := by rw [ho]; exact .inl
  environment := by
    intro e y hy he
    have hne : e ≠ (a.environments.allocate x).1 := by
      rintro rfl
      exact he hself
    rw [Environments.get?_allocate_of_ne _ hne]
    exact hy
  environment_new := by
    intro e he
    rcases hV he with he | rfl
    · exact .inl he
    · exact .inr (Environments.vacant_allocate h x)
  realm := fun hx _ => hx
  realm_new := by rw [hr]; exact .inl

theorem extends_allocateEnvironment (h : Agrees ρ K a b) (x y : Environment) (plan : Plan) :
    Extends ρ a b (h.grownWorld x y plan)
      { a with environments := (a.environments.allocate x).2 }
      { b with environments := (b.environments.allocate y).2 } where
  le := h.le_grownWorld x y plan
  left := by
    refine spares_allocateEnvironment (U := ρ.left) (V := (h.grownWorld x y plan).left)
      h.environments.tidy_left x ?_ ?_ ⟨_, .inr ⟨rfl, rfl⟩⟩ rfl rfl
    · rintro e ⟨f, hef⟩
      exact ⟨f, .inl hef⟩
    · rintro e ⟨f, hef | ⟨rfl, rfl⟩⟩
      · exact .inl ⟨f, hef⟩
      · exact .inr rfl
  right := by
    refine spares_allocateEnvironment (U := ρ.right) (V := (h.grownWorld x y plan).right)
      h.environments.tidy_right y ?_ ?_ ⟨_, .inr ⟨rfl, rfl⟩⟩ rfl rfl
    · rintro f ⟨e, hef⟩
      exact ⟨e, .inl hef⟩
    · rintro f ⟨e, hef | ⟨rfl, rfl⟩⟩
      · exact .inl ⟨e, hef⟩
      · exact .inr rfl

end Agrees

end Scriptlet
