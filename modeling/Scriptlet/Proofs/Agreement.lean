import Scriptlet.Proofs.Environments
import Scriptlet.Proofs.Objects

/-!
# Agreeing agents

Two agents agree in a world if all that corresponds in it is there and corresponds.  What does not
correspond may be anything; it is spared, that is, left as it is.

Computations on the two sides are related if they lead from agreeing agents to agreeing agents in a
later world, and both return corresponding results or both throw corresponding values.  They never
find the state out of order.

## Main definitions

* `Territory`, `Territory.Spares` — places, and what a computation that keeps to them leaves alone.
* `Stack` — what a computation leaves as it has found it.
* `Agrees` — agreeing agents.
* `Outcome`, `Related`, `Roams` — related computations; those that roam may end in another
  environment than they start in.

## Main results

* `Territory.Spares.trans` — sparing is transitive.
* `Related.bind`, `Roams.bind` — **related computations one after the other are related**.
-/

namespace Scriptlet

/-! ### What is spared -/

/-- The object for a method, if the method has been used. -/
def Agent.methodId? (a : Agent) (m : Builtin) : Option ObjectId :=
  (a.methods.find? (·.1 == m)).map (·.2)

/-- Places of an agent. -/
structure Territory where
  /-- The objects. -/
  object : ObjectId → Prop
  /-- The environments. -/
  environment : EnvironmentId → Prop
  /-- The realms. -/
  realm : RealmId → Prop

/-- The places of the first agent that correspond to others. -/
def World.left (ρ : World) : Territory :=
  ⟨fun o => ∃ p, ρ.object o p, fun e => ∃ f, ρ.environment e f, fun r => ∃ s, ρ.realm r s⟩

/-- The places of the second agent that others correspond to. -/
def World.right (ρ : World) : Territory :=
  ⟨fun p => ∃ o, ρ.object o p, fun f => ∃ e, ρ.environment e f, fun s => ∃ r, ρ.realm r s⟩

namespace Territory

/-- While its places grew from `U` to `V`, an agent has left everything outside of them alone; the
places that came to them were empty before, but for methods. -/
structure Spares (U V : Territory) (a b : Agent) : Prop where
  object_mono : ∀ {o}, U.object o → V.object o
  environment_mono : ∀ {e}, U.environment e → V.environment e
  realm_mono : ∀ {r}, U.realm r → V.realm r
  size : a.objects.size ≤ b.objects.size
  method : ∀ {m o}, a.methodId? m = some o → b.methodId? m = some o
  object : ∀ {o : ObjectId} {x}, a.objects[o.index]? = some x → ¬V.object o → b.objects[o.index]? = some x
  object_new : ∀ {o : ObjectId}, V.object o →
    U.object o ∨ a.objects[o.index]? = none ∨ ∃ m, b.methodId? m = some o
  environment : ∀ {e x}, a.environments.get? e = some x → ¬V.environment e →
    b.environments.get? e = some x
  environment_new : ∀ {e}, V.environment e → U.environment e ∨ a.environments.get? e = none
  realm : ∀ {r : RealmId} {x}, a.realms[r.index]? = some x → ¬V.realm r → b.realms[r.index]? = some x
  realm_new : ∀ {r : RealmId}, V.realm r → U.realm r ∨ a.realms[r.index]? = none

namespace Spares

variable {U V W : Territory} {a b c : Agent}

theorem refl (U : Territory) (a : Agent) : Spares U U a a :=
  ⟨id, id, id, Nat.le_refl _, id, fun h _ => h, .inl, fun h _ => h, .inl, fun h _ => h, .inl⟩

theorem trans (h : Spares U V a b) (h' : Spares V W b c) : Spares U W a c where
  object_mono := fun ho => h'.object_mono (h.object_mono ho)
  environment_mono := fun he => h'.environment_mono (h.environment_mono he)
  realm_mono := fun hr => h'.realm_mono (h.realm_mono hr)
  size := Nat.le_trans h.size h'.size
  method := fun hm => h'.method (h.method hm)
  object := fun hx ho => h'.object (h.object hx fun hV => ho (h'.object_mono hV)) ho
  object_new := by
    intro o ho
    -- What one belongs to after both steps has been there, or has come to be in one of the two.
    rcases h'.object_new ho with hV | hnone | hm
    · rcases h.object_new hV with hU | hnone | ⟨m, hm⟩
      · exact .inl hU
      · exact .inr (.inl hnone)
      · exact .inr (.inr ⟨m, h'.method hm⟩)
    · rw [Array.getElem?_eq_none_iff] at hnone
      exact .inr (.inl (Array.getElem?_eq_none_iff.mpr (Nat.le_trans h.size hnone)))
    · exact .inr (.inr hm)
  environment := fun hx he => h'.environment (h.environment hx fun hV => he (h'.environment_mono hV)) he
  environment_new := by
    intro e he
    by_cases hV : V.environment e
    · exact h.environment_new hV
    -- An environment that is new after both steps was not there after the first one either.
    · refine .inr (Option.eq_none_iff_forall_ne_some.mpr fun x hx => ?_)
      have hb := h.environment hx hV
      rcases h'.environment_new he with hV' | hnone
      · exact hV hV'
      · rw [hb] at hnone
        cases hnone
  realm := fun hx hr => h'.realm (h.realm hx fun hV => hr (h'.realm_mono hV)) hr
  realm_new := by
    intro r hr
    by_cases hV : V.realm r
    · exact h.realm_new hV
    · refine .inr (Option.eq_none_iff_forall_ne_some.mpr fun x hx => ?_)
      have hb := h.realm hx hV
      rcases h'.realm_new hr with hV' | hnone
      · exact hV hV'
      · rw [hb] at hnone
        cases hnone

end Spares

end Territory

/-- Worlds and agents grow; outside of what corresponds, everything is spared on both sides. -/
structure Extends (ρ : World) (a b : Agent) (σ : World) (a' b' : Agent) : Prop where
  le : ρ ≤ σ
  left : Territory.Spares ρ.left σ.left a a'
  right : Territory.Spares ρ.right σ.right b b'

namespace Extends

variable {ρ σ τ : World} {a b a' b' a'' b'' : Agent}

theorem refl (ρ : World) (a b : Agent) : Extends ρ a b ρ a b :=
  ⟨World.le_refl ρ, .refl _ _, .refl _ _⟩

theorem trans (h : Extends ρ a b σ a' b') (h' : Extends σ a' b' τ a'' b'') :
    Extends ρ a b τ a'' b'' :=
  ⟨World.le_trans h.le h'.le, h.left.trans h'.left, h.right.trans h'.right⟩

end Extends

/-! ### Agreement -/

/-- What a computation leaves as it has found it: what is being evaluated, the arrays whose texts
are being put together, and the number of realms.  It is about realms with the given filings. -/
structure Stack (φ : RealmId → Filing) where
  /-- What is being evaluated on both sides, the innermost first. -/
  contexts : List (Context × Context)
  /-- The arrays whose texts are being put together on both sides. -/
  joining : List (ObjectId × ObjectId)
  /-- The number of realms of the first agent. -/
  realms : Nat

namespace Stack

/-- Nothing is being evaluated. -/
def idle (φ : RealmId → Filing) (realms : Nat) : Stack φ := ⟨[], [], realms⟩

/-- Something else is being evaluated. -/
def push {φ : RealmId → Filing} (c : Context × Context) (K : Stack φ) : Stack φ :=
  { K with contexts := c :: K.contexts }

end Stack

/-- The contexts with other environments. -/
def moved (c : Context × Context) (e f : EnvironmentId) : Context × Context :=
  ({ c.1 with environment := e }, { c.2 with environment := f })

/-- Corresponding contexts. -/
structure Context.Rel (ρ : World) (c d : Context) : Prop where
  realm : ρ.realm c.realm d.realm
  environment : ρ.environment c.environment d.environment

theorem Context.Rel.mono {ρ σ : World} (h : ρ ≤ σ) {c d : Context} (hc : Context.Rel ρ c d) :
    Context.Rel σ c d :=
  ⟨h.realm hc.realm, h.environment hc.environment⟩

/-- The object for a method is outside of the given places and as it was made, if there is one. -/
def Agent.Reserves (a : Agent) (U : Territory) (m : Builtin) : Prop :=
  ∀ o, a.methodId? m = some o →
    ¬U.object o ∧ a.objects[o.index]? = some (.ofKind (.builtin m))

/-- The object for a method corresponds, or is reserved on both sides. -/
def MethodRel (ρ : World) (a b : Agent) (m : Builtin) : Prop :=
  (∃ o p, a.methodId? m = some o ∧ b.methodId? m = some p ∧ ρ.object o p) ∨
    a.Reserves ρ.left m ∧ b.Reserves ρ.right m

/-- All that corresponds in a world is there on both sides and corresponds.  All objects are in the same
places of both, and all realms correspond. -/
structure Agrees {φ : RealmId → Filing} (ρ : World) (K : Stack φ) (a b : Agent) : Prop where
  object : ∀ {o p}, ρ.object o p →
    ∃ x y, a.objects[o.index]? = some x ∧ b.objects[p.index]? = some y ∧ Object.Rel ρ x y
  function : ∀ {o}, ρ.isFunction o → (a.object o).isFunction = true
  environments : Environments.Rel ρ a.environments b.environments
  realm : ∀ {r s}, ρ.realm r s →
    ∃ x y, a.realms[r.index]? = some x ∧ b.realms[s.index]? = some y ∧ Realm.Rel ρ r x y
  method : ∀ m, MethodRel ρ a b m
  contexts_left : a.contexts = K.contexts.map Prod.fst
  contexts_right : b.contexts = K.contexts.map Prod.snd
  contexts : ∀ c ∈ K.contexts, Context.Rel ρ c.1 c.2
  joining_left : a.joining = K.joining.map Prod.fst
  joining_right : b.joining = K.joining.map Prod.snd
  joining : ∀ o ∈ K.joining, ρ.object o.1 o.2
  realms_size : a.realms.size = K.realms
  filing : ρ.filing = φ
  size : a.objects.size = b.objects.size
  same : ∀ i < a.objects.size, ρ.object ⟨i⟩ ⟨i⟩
  known : ∀ i < a.realms.size, ∃ s, ρ.realm ⟨i⟩ s

namespace Agrees

variable {φ : RealmId → Filing} {ρ : World} {K : Stack φ} {a b : Agent}

theorem object_rel (h : Agrees ρ K a b) {o p : ObjectId} (hop : ρ.object o p) :
    Object.Rel ρ (a.object o) (b.object p) := by
  obtain ⟨x, y, hx, hy, hxy⟩ := h.object hop
  unfold Agent.object
  rw [Array.getD_eq_getD_getElem?, Array.getD_eq_getD_getElem?, hx, hy]
  exact hxy

theorem lt_left (h : Agrees ρ K a b) {o p : ObjectId} (hop : ρ.object o p) :
    o.index < a.objects.size := by
  obtain ⟨x, y, hx, -, -⟩ := h.object hop
  exact (Array.getElem?_eq_some_iff.mp hx).1

theorem lt_right (h : Agrees ρ K a b) {o p : ObjectId} (hop : ρ.object o p) :
    p.index < b.objects.size := by
  obtain ⟨x, y, -, hy, -⟩ := h.object hop
  exact (Array.getElem?_eq_some_iff.mp hy).1

/-- Corresponding objects are the same. -/
theorem eq_of_object (h : Agrees ρ K a b) {o p : ObjectId} (hop : ρ.object o p) : o = p :=
  (ρ.object_unique.2 (h.same o.index (h.lt_left hop)) hop)

/-- A closure corresponds to one. -/
theorem closure_rel (h : Agrees ρ K a b) {o : ObjectId} {c : Closure}
    (hc : (a.object o).kind = .closure c) : ∃ d, Closure.Rel ρ c d := by
  have hlt : o.index < a.objects.size := by
    refine Nat.lt_of_not_ge fun hle => ?_
    rw [Agent.object, Array.getD_eq_getD_getElem?, Array.getElem?_eq_none hle] at hc
    cases hc
  have hkind := (h.object_rel (h.same o.index hlt)).kind
  rw [show (⟨o.index⟩ : ObjectId) = o from rfl, hc] at hkind
  generalize (b.object o).kind = k at hkind
  cases hkind with
  | closure hc => exact ⟨_, hc⟩

end Agrees

/-! ### Related computations -/

/-- Related outcomes of two computations: both return, both throw corresponding values, or both are
longer than allowed.  What is said of the states afterwards is `good` in the first case and `bad` in
the other ones. -/
inductive Outcome {α β : Type} (ρ : World) (a b : Agent)
    (good : World → Agent → Agent → α → β → Prop) (bad : World → Agent → Agent → Prop) :
    EStateM.Result Interrupt Agent α → EStateM.Result Interrupt Agent β → Prop
  | ok {σ a' b' x y} (ext : Extends ρ a b σ a' b') (h : good σ a' b' x y) :
    Outcome ρ a b good bad (.ok x a') (.ok y b')
  | thrown {σ a' b' v w} (ext : Extends ρ a b σ a' b') (value : σ.value v w)
    (h : bad σ a' b') : Outcome ρ a b good bad (.error (.thrown v) a') (.error (.thrown w) b')
  | exhausted {σ a' b'} (ext : Extends ρ a b σ a' b') (h : bad σ a' b') :
    Outcome ρ a b good bad (.error .exhausted a') (.error .exhausted b')

/-- Computations that lead from agreeing agents to agreeing ones, with related results. -/
def Related {α β : Type} {φ : RealmId → Filing} (ρ : World) (K : Stack φ) (p : Eval α)
    (q : Eval β) (R : World → α → β → Prop) : Prop :=
  ∀ a b, Agrees ρ K a b →
    Outcome ρ a b (fun σ a' b' x y => Agrees σ K a' b' ∧ R σ x y) (fun σ a' b' => Agrees σ K a' b')
      (p a) (q b)

/-- Computations that lead from agreeing agents to agreeing ones, with related results; the
innermost environment may be another one afterwards. -/
def Roams {α β : Type} {φ : RealmId → Filing} (ρ : World) (c : Context × Context) (K : Stack φ)
    (p : Eval α) (q : Eval β)
    (R : World → EnvironmentId → EnvironmentId → α → β → Prop) : Prop :=
  ∀ a b, Agrees ρ (K.push c) a b →
    Outcome ρ a b (fun σ a' b' x y => ∃ e f, Agrees σ (K.push (moved c e f)) a' b' ∧ R σ e f x y)
      (fun σ a' b' => ∃ e f, Agrees σ (K.push (moved c e f)) a' b') (p a) (q b)

/-- A computation after another one of which the outcomes are related: the outcomes of both together
are related. -/
theorem Outcome.bind {α β γ δ : Type} {ρ : World} {a b : Agent}
    {good : World → Agent → Agent → α → β → Prop} {good' : World → Agent → Agent → γ → δ → Prop}
    {bad bad' : World → Agent → Agent → Prop} {p : Eval α} {q : Eval β} {f : α → Eval γ}
    {g : β → Eval δ} (h : Outcome ρ a b good bad (p a) (q b))
    (hok : ∀ {σ a' b' x y}, Extends ρ a b σ a' b' → good σ a' b' x y →
      Outcome σ a' b' good' bad' (f x a') (g y b'))
    (hbad : ∀ {σ a' b'}, bad σ a' b' → bad' σ a' b') :
    Outcome ρ a b good' bad' ((p >>= f) a) ((q >>= g) b) := by
  change Outcome ρ a b good' bad' (EStateM.bind p f a) (EStateM.bind q g b)
  unfold EStateM.bind
  generalize p a = r, q b = r' at h
  cases h with
  | ok ext hgood =>
    dsimp only
    have hnext := hok ext hgood
    generalize f _ _ = s, g _ _ = s' at hnext ⊢
    cases hnext with
    | ok ext' h' => exact .ok (ext.trans ext') h'
    | thrown ext' hv h' => exact .thrown (ext.trans ext') hv h'
    | exhausted ext' h' => exact .exhausted (ext.trans ext') h'
  | thrown ext hv h' => exact .thrown ext hv (hbad h')
  | exhausted ext h' => exact .exhausted ext (hbad h')

/-- What is said of the states after related outcomes may be weakened. -/
theorem Outcome.imp {α β : Type} {ρ : World} {a b : Agent}
    {good good' : World → Agent → Agent → α → β → Prop} {bad bad' : World → Agent → Agent → Prop}
    {r : EStateM.Result Interrupt Agent α} {r' : EStateM.Result Interrupt Agent β}
    (h : Outcome ρ a b good bad r r')
    (hgood : ∀ {σ a' b' x y}, Extends ρ a b σ a' b' → good σ a' b' x y → good' σ a' b' x y)
    (hbad : ∀ {σ a' b'}, bad σ a' b' → bad' σ a' b') : Outcome ρ a b good' bad' r r' := by
  cases h with
  | ok ext h => exact .ok ext (hgood ext h)
  | thrown ext hv h => exact .thrown ext hv (hbad h)
  | exhausted ext h => exact .exhausted ext (hbad h)

namespace Related

variable {α β γ δ : Type} {φ : RealmId → Filing} {ρ : World} {K : Stack φ} {p : Eval α}
  {q : Eval β}
  {R : World → α → β → Prop}

/-- Two values that are returned without further ado. -/
theorem pure {x : α} {y : β} (h : R ρ x y) : Related ρ K (Pure.pure x) (Pure.pure y) R :=
  fun a b hab => .ok (.refl ρ a b) ⟨hab, h⟩

/-- Two values that are thrown. -/
theorem throw {v w : Value} (h : ρ.value v w) :
    Related ρ K (MonadExcept.throw (Interrupt.thrown v) : Eval α)
      (MonadExcept.throw (Interrupt.thrown w) : Eval β) R :=
  fun a b hab => .thrown (.refl ρ a b) h hab

/-- Two computations that are longer than allowed. -/
theorem exhausted :
    Related ρ K (MonadExcept.throw Interrupt.exhausted : Eval α)
      (MonadExcept.throw Interrupt.exhausted : Eval β) R :=
  fun a b hab => .exhausted (.refl ρ a b) hab

/-- **Related computations one after the other are related.** -/
theorem bind {f : α → Eval γ} {g : β → Eval δ} {S : World → γ → δ → Prop}
    (h : Related ρ K p q R)
    (hfg : ∀ {σ x y}, ρ ≤ σ → R σ x y → Related σ K (f x) (g y) S) :
    Related ρ K (p >>= f) (q >>= g) S :=
  fun a b hab => (h a b hab).bind (fun ext hgood => hfg ext.le hgood.2 _ _ hgood.1) id

/-- A computation with the same result on both sides before related ones. -/
theorem bindEq {q : Eval α} {f : α → Eval γ} {g : α → Eval δ} {S : World → γ → δ → Prop}
    (h : Related ρ K p q fun _ x y => x = y)
    (hfg : ∀ {σ x}, ρ ≤ σ → Related σ K (f x) (g x) S) : Related ρ K (p >>= f) (q >>= g) S :=
  h.bind fun hle hxy => by
    subst hxy
    exact hfg hle

/-- What is known of the results may be weakened. -/
theorem imp {S : World → α → β → Prop} (h : Related ρ K p q R)
    (hRS : ∀ {σ x y}, ρ ≤ σ → R σ x y → S σ x y) : Related ρ K p q S :=
  fun a b hab => (h a b hab).imp (fun ext hgood => ⟨hgood.1, hRS ext.le hgood.2⟩) id

/-- **Related computations for the things of a list are related.** -/
theorem forM {Q : World → γ → Prop} {p q : γ → Eval Unit} {l : List γ}
    (hQ : ∀ {σ τ x}, ρ ≤ σ → σ ≤ τ → Q σ x → Q τ x)
    (h : ∀ {σ x}, ρ ≤ σ → x ∈ l → Related σ K (p x) (q x) fun τ _ _ => Q τ x) :
    Related ρ K (l.forM p) (l.forM q) fun σ _ _ => ∀ x ∈ l, Q σ x := by
  induction l generalizing ρ with
  | nil => exact pure fun x hx => by cases hx
  | cons x l ih =>
    refine (h (World.le_refl ρ) List.mem_cons_self).bind fun hle hx => ?_
    refine (ih (fun hle' => hQ (World.le_trans hle hle'))
      fun hle' hx => h (World.le_trans hle hle') (List.mem_cons_of_mem _ hx)).imp fun hle' hl => ?_
    exact List.forall_mem_cons.mpr ⟨hQ hle hle' hx, hl⟩

/-- Computations that depend on the states that they start from. -/
theorem get {f : Agent → Eval γ} {g : Agent → Eval δ} {S : World → γ → δ → Prop}
    (h : ∀ a b, Agrees ρ K a b → Related ρ K (f a) (g b) S) :
    Related ρ K (MonadState.get >>= f) (MonadState.get >>= g) S :=
  fun a b hab => h a b hab a b hab

end Related

namespace Roams

variable {α β γ δ : Type} {φ : RealmId → Filing} {ρ : World} {c : Context × Context} {K : Stack φ}
  {p : Eval α} {q : Eval β}
  {R : World → EnvironmentId → EnvironmentId → α → β → Prop}

/-- Computations that stay in their environments are among those that roam. -/
theorem ofRelated {S : World → α → β → Prop} (h : Related ρ (K.push c) p q S) :
    Roams ρ c K p q fun σ e f x y => (e = c.1.environment ∧ f = c.2.environment) ∧ S σ x y :=
  fun a b hab =>
    (h a b hab).imp (fun _ hgood => ⟨c.1.environment, c.2.environment, hgood.1, ⟨rfl, rfl⟩, hgood.2⟩)
      fun hbad => ⟨c.1.environment, c.2.environment, hbad⟩

/-- Two values that are returned where the computations have come to. -/
theorem pure {x : α} {y : β} (h : R ρ c.1.environment c.2.environment x y) :
    Roams ρ c K (Pure.pure x) (Pure.pure y) R :=
  fun a b hab => .ok (.refl ρ a b) ⟨c.1.environment, c.2.environment, hab, h⟩

/-- **Roaming computations one after the other are related.** -/
theorem bind {f : α → Eval γ} {g : β → Eval δ}
    {S : World → EnvironmentId → EnvironmentId → γ → δ → Prop} (h : Roams ρ c K p q R)
    (hfg : ∀ {σ e e' x y}, ρ ≤ σ → R σ e e' x y → Roams σ (moved c e e') K (f x) (g y) S) :
    Roams ρ c K (p >>= f) (q >>= g) S := by
  refine fun a b hab => (h a b hab).bind (fun ext hgood => ?_) id
  obtain ⟨e, e', hagree, hR⟩ := hgood
  exact hfg ext.le hR _ _ hagree

/-- A computation that stays in its environments before one that roams. -/
theorem bind_left {f : α → Eval γ} {g : β → Eval δ} {T : World → α → β → Prop}
    {S : World → EnvironmentId → EnvironmentId → γ → δ → Prop}
    (h : Related ρ (K.push c) p q T)
    (hfg : ∀ {σ x y}, ρ ≤ σ → T σ x y → Roams σ c K (f x) (g y) S) :
    Roams ρ c K (p >>= f) (q >>= g) S :=
  (ofRelated h).bind fun hle hT => by
    obtain ⟨⟨rfl, rfl⟩, hxy⟩ := hT
    exact hfg hle hxy

/-- What is known of the results may be weakened. -/
theorem imp {S : World → EnvironmentId → EnvironmentId → α → β → Prop} (h : Roams ρ c K p q R)
    (hRS : ∀ {σ e f x y}, ρ ≤ σ → R σ e f x y → S σ e f x y) : Roams ρ c K p q S := by
  refine fun a b hab => (h a b hab).imp (fun ext hgood => ?_) id
  obtain ⟨e, f, hagree, hR⟩ := hgood
  exact ⟨e, f, hagree, hRS ext.le hR⟩

end Roams

end Scriptlet
