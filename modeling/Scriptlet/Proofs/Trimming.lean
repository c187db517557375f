import Scriptlet.Proofs.Collection

/-!
# Agreement and removal of environments

What the roots of two agreeing agents reach corresponds.  When environments that nothing reaches are
removed on either side, the agents go on agreeing in a world of those environments.

## Main definitions

* `World.Alive` — corresponding environments that corresponding realms and closures reach.
* `Agrees.living` — the world of these environments.

## Main results

* `Agrees.trim` — **agents that agree between two requests agree after removals on either side**.
-/

namespace Scriptlet

/-- Corresponding environments that corresponding realms and closures reach. -/
inductive World.Alive (ρ : World) (a b : Agent) : EnvironmentId → EnvironmentId → Prop
  | globals {r s x y} (h : ρ.realm r s) (hx : a.realms[r.index]? = some x)
    (hy : b.realms[s.index]? = some y) : Alive ρ a b x.globals y.globals
  | closure {o p x y c d} (h : ρ.object o p) (hx : a.objects[o.index]? = some x)
    (hy : b.objects[p.index]? = some y) (hc : x.kind = .closure c) (hd : y.kind = .closure d) :
    Alive ρ a b c.environment d.environment
  | outer {e f x y e' f'} (h : Alive ρ a b e f) (hx : a.environments.get? e = some x)
    (hy : b.environments.get? f = some y) (ho : x.outer = some e') (ho' : y.outer = some f') :
    Alive ρ a b e' f'

variable {φ : RealmId → Filing} {ρ : World} {K : Stack φ} {a b : Agent} {e f : EnvironmentId}

namespace World.Alive

/-- They correspond. -/
theorem environment (hab : Agrees ρ K a b) (h : ρ.Alive a b e f) : ρ.environment e f := by
  induction h with
  -- Whatever is alive is reached through pairs, so it is paired itself.
  | @globals r s x y h hx hy =>
    obtain ⟨x', y', hx', hy', hxy⟩ := hab.realm h
    rw [hx] at hx'
    rw [hy] at hy'
    cases hx'
    cases hy'
    exact hxy.globals
  | @closure o p x y c d h hx hy hc hd =>
    obtain ⟨x', y', hx', hy', hxy⟩ := hab.object h
    rw [hx] at hx'
    rw [hy] at hy'
    cases hx'
    cases hy'
    have hkind := hxy.kind
    rw [hc, hd] at hkind
    cases hkind with
    | closure hcd => exact hcd.environment
  | @outer e f x y e' f' _ hx hy ho ho' ih =>
    obtain ⟨x', y', hx', hy', hxy⟩ := hab.environments.record ih
    rw [hx] at hx'
    rw [hy] at hy'
    cases hx'
    cases hy'
    have houter := hxy.outer
    rw [ho, ho'] at houter
    cases houter with
    | some h => exact h

/-- The roots of the first agent reach them. -/
theorem left (h : ρ.Alive a b e f) : a.environments.Reach a.roots e := by
  induction h with
  | @globals r s x y _ hx _ =>
    refine .root (List.mem_append_left _ (List.mem_append_right _ ?_))
    rw [Array.mem_toList_iff, Array.mem_map]
    exact ⟨x, Array.mem_of_getElem? hx, rfl⟩
  | @closure o p x y c d _ hx _ hc _ =>
    refine .root (List.mem_append_right _ (List.mem_filterMap.mpr ⟨x, ?_, ?_⟩))
    · exact Array.mem_toList_iff.mpr (Array.mem_of_getElem? hx)
    · rw [Object.environment?, hc]
  | outer _ hx _ ho _ ih => exact .outer ih hx ho

/-- The roots of the second agent reach them. -/
theorem right (h : ρ.Alive a b e f) : b.environments.Reach b.roots f := by
  induction h with
  | @globals r s x y _ _ hy =>
    refine .root (List.mem_append_left _ (List.mem_append_right _ ?_))
    rw [Array.mem_toList_iff, Array.mem_map]
    exact ⟨y, Array.mem_of_getElem? hy, rfl⟩
  | @closure o p x y c d _ _ hy _ hd =>
    refine .root (List.mem_append_right _ (List.mem_filterMap.mpr ⟨y, ?_, ?_⟩))
    · exact Array.mem_toList_iff.mpr (Array.mem_of_getElem? hy)
    · rw [Object.environment?, hd]
  | outer _ _ hy _ ho' ih => exact .outer ih hy ho'

end World.Alive

namespace Agrees

/-- The world of the environments that corresponding realms and closures reach. -/
def living (h : Agrees ρ K a b) : World :=
  { ρ with
    environment := ρ.Alive a b
    environment_unique :=
      ⟨fun _ _ _ he he' => ρ.environment_unique.1 (he.environment h) (he'.environment h),
        fun _ _ _ he he' => ρ.environment_unique.2 (he.environment h) (he'.environment h)⟩ }

/-- An environment that is reached represents the same scopes. -/
theorem represents_living (h : Agrees ρ K a b) {r : RealmId} {S : List Scope}
    (hS : ρ.Represents r e S) (he : h.living.Knows e) : h.living.Represents r e S := by
  have houter : ∀ {e o}, h.living.Knows e → (ρ.plan e).outer = some o → h.living.Knows o := by
    rintro e o ⟨f, hef⟩ ho
    obtain ⟨x, y, hx, hy, hxy⟩ := h.environments.record (World.Alive.environment h hef)
    have hxo := hxy.outer
    rw [hxy.plan, ho] at hxo
    obtain ⟨hnone, -⟩ | ⟨o₁, o', hxo₁, hyo', -⟩ := Option.rel_cases hxo
    · cases hnone
    · cases hxo₁
      exact ⟨o', .outer hef hx hy (hxy.plan.trans ho) hyo'⟩
  induction hS with
  | globals known => exact .globals known
  | nameless names _ ih => exact .nameless names (ih he)
  | single _ ho names bound _ ih => exact .single he ho names bound (ih (houter he ho))
  | split _ ho _ hop names bound bound' _ ih =>
    have hp := houter he ho
    exact .split he ho hp hop names bound bound' (ih (houter hp hop))

/-- The same values correspond. -/
theorem value_living (h : Agrees ρ K a b) {v w : Value} (hv : ρ.value v w) :
    h.living.value v w :=
  Value.Rel.imp (ρ := ρ) (σ := h.living) (fun hop => hop) hv

theorem variable_living (h : Agrees ρ K a b) {u v : Variable} (huv : Variable.Rel ρ u v) :
    Variable.Rel h.living u v := by
  refine { huv with value := ?_ }
  obtain ⟨hu, hv⟩ | ⟨v, w, hu, hv, hvw⟩ := Option.rel_cases huv.value
  · rw [hu, hv]
    exact .none
  · rw [hu, hv]
    exact .some (h.value_living hvw)

/-- The same objects correspond: the environments of closures are among those that are reached. -/
theorem object_living (h : Agrees ρ K a b) {o p : ObjectId} {x y : Object} (hop : ρ.object o p)
    (hx : a.objects[o.index]? = some x) (hy : b.objects[p.index]? = some y)
    (hxy : Object.Rel ρ x y) : Object.Rel h.living x y where
  kind := by
    have halive : ∀ {c d}, x.kind = .closure c → y.kind = .closure d →
        ρ.Alive a b c.environment d.environment := .closure hop hx hy
    obtain ⟨kind, isExtensible, properties⟩ := x
    obtain ⟨kind', isExtensible', properties'⟩ := y
    have hkind : ObjectKind.Rel ρ kind kind' := hxy.kind
    cases hkind with
    | ordinary => exact .ordinary
    | array he => exact .array (he.imp fun _ _ => h.value_living)
    | closure hc =>
      have henv := halive rfl rfl
      obtain ⟨S, hS, hcovers⟩ := hc.around
      exact .closure { hc with environment := henv
                               around := ⟨S, h.represents_living hS ⟨_, henv⟩, hcovers⟩ }
    | builtin b => exact .builtin b
    | error k => exact .error k
  isExtensible := hxy.isExtensible
  properties := hxy.properties.imp fun _ _ hs => { hs with value := h.value_living hs.value }

theorem realm_living (h : Agrees ρ K a b) {r s : RealmId} {x y : Realm} (hrs : ρ.realm r s)
    (hx : a.realms[r.index]? = some x) (hy : b.realms[s.index]? = some y)
    (hxy : Realm.Rel ρ r x y) : Realm.Rel h.living r x y :=
  { hxy with globals := .globals hrs hx hy }

/-- Environments that are reached go on corresponding after removals on either side. -/
theorem environments_living (h : Agrees ρ K a b) {a' b' : Agent} (ha : a.Trims a')
    (hb : b.Trims b') : Environments.Rel h.living a'.environments b'.environments where
  record := by
    intro e f hef
    obtain ⟨x, y, hx, hy, hxy⟩ := h.environments.record (World.Alive.environment h hef)
    refine ⟨x, y, ha.kept hef.left hx, hb.kept hef.right hy, { hxy with
      outer := ?_
      entries := hxy.entries.imp fun _ _ hp => ⟨hp.1, h.variable_living hp.2⟩ }⟩
    obtain ⟨ho, ho'⟩ | ⟨o, o', ho, ho', -⟩ := Option.rel_cases hxy.outer
    · rw [ho, ho']
      exact .none
    · rw [ho, ho']
      exact .some (.outer hef hx hy ho ho')
  tidy_left := ha.tidy h.environments.tidy_left
  tidy_right := hb.tidy h.environments.tidy_right
  lasting hx hv := h.environments.lasting (ha.there hx) hv

/-- Methods are as they were: removals change no object. -/
theorem method_living (h : Agrees ρ K a b) {a' b' : Agent} (ha : a.Trims a') (hb : b.Trims b')
    (m : Builtin) : MethodRel h.living a' b' m := by
  have hm := h.method m
  unfold MethodRel Agent.Reserves Agent.methodId? at hm ⊢
  rw [ha.methods, ha.objects, hb.methods, hb.objects]
  exact hm

/-- **Agents that agree between two requests agree after removals on either side.** -/
theorem trim {k : Nat} (h : Agrees ρ (Stack.idle φ k) a b) {a' b' : Agent} (ha : a.Trims a')
    (hb : b.Trims b') : Agrees h.living (Stack.idle φ k) a' b' where
  object := by
    intro o p hop
    obtain ⟨x, y, hx, hy, hxy⟩ := h.object hop
    exact ⟨x, y, ha.objects ▸ hx, hb.objects ▸ hy, h.object_living hop hx hy hxy⟩
  function := by
    intro o ho
    unfold Agent.object
    rw [ha.objects]
    exact h.function ho
  environments := h.environments_living ha hb
  realm := by
    intro r s hrs
    obtain ⟨x, y, hx, hy, hxy⟩ := h.realm hrs
    exact ⟨x, y, ha.realms ▸ hx, hb.realms ▸ hy, h.realm_living hrs hx hy hxy⟩
  method := h.method_living ha hb
  contexts_left := ha.contexts.trans h.contexts_left
  contexts_right := hb.contexts.trans h.contexts_right
  contexts := fun c hc => by cases hc
  joining_left := ha.joining.trans h.joining_left
  joining_right := hb.joining.trans h.joining_right
  joining := h.joining
  realms_size := by rw [ha.realms]; exact h.realms_size
  filing := h.filing
  size := by
    rw [ha.objects, hb.objects]
    exact h.size
  same := by
    rw [ha.objects]
    exact h.same
  known := by
    rw [ha.realms]
    exact h.known

end Agrees

end Scriptlet
