import Scriptlet.Proofs.Places
import Scriptlet.Proofs.Sessions

/-!
# What a removal leaves

What is evaluated, the realms and the closures need environments, and each of these the one around it.
A removal leaves exactly these, as they are.  In a session all of them are there, whenever it takes
place: what has been removed was needed by nothing, and nothing can come to need it again.

## Main definitions

* `Agent.Needs` — the environments that an agent needs.
* `Agent.IsAnchored` — the free places are in order, and whatever is needed is there.
* `Condition.anchored` — agents that come to a task are anchored.
* `Environments.IsInPlace`, `Agent.IsCollected` — what is said of places, and of removals.

## Main results

* `Agrees.isAnchored` — **agents of a session are anchored**, in the middle of a task as well.
* `collection_exact` — **a removal leaves what is needed and nothing else**.
-/

namespace Scriptlet

open Eval Relation

variable {a b : Agent} {e : EnvironmentId}

/-! ### What is needed -/

/-- The environments that an agent needs. -/
inductive Agent.Needs (a : Agent) : EnvironmentId → Prop
  /-- That in which something is evaluated. -/
  | context {c : Context} (h : c ∈ a.contexts) : Needs a c.environment
  /-- That of the names that were supplied to a realm. -/
  | globals {r : Realm} (h : r ∈ a.realms) : Needs a r.globals
  /-- That in which a closure was created. -/
  | closure {o : Object} {c : Closure} (h : o ∈ a.objects) (hkind : o.kind = .closure c) :
    Needs a c.environment
  /-- That around one which is needed. -/
  | outer {e : EnvironmentId} {x : Environment} {o : EnvironmentId} (h : Needs a e)
    (hx : a.environments.get? e = some x) (ho : x.outer = some o) : Needs a o

namespace Agent

theorem mem_roots : e ∈ a.roots ↔ (∃ c ∈ a.contexts, c.environment = e) ∨
    (∃ r ∈ a.realms, r.globals = e) ∨ ∃ o ∈ a.objects, o.environment? = some e := by
  simp [roots]

/-- What is needed is what the roots reach. -/
theorem needs_iff : a.Needs e ↔ a.environments.Reach a.roots e := by
  constructor
  · intro h
    induction h with
    | context hc => exact .root (mem_roots.mpr (.inl ⟨_, hc, rfl⟩))
    | globals hr => exact .root (mem_roots.mpr (.inr (.inl ⟨_, hr, rfl⟩)))
    | closure ho hkind =>
      refine .root (mem_roots.mpr (.inr (.inr ⟨_, ho, ?_⟩)))
      rw [Object.environment?, hkind]
    | outer _ hx ho ih => exact .outer ih hx ho
  · intro h
    induction h with
    | root he =>
      obtain ⟨c, hc, rfl⟩ | ⟨r, hr, rfl⟩ | ⟨o, ho, he⟩ := mem_roots.mp he
      · exact .context hc
      · exact .globals hr
      · unfold Object.environment? at he
        split at he
        · next hkind =>
          cases he
          exact .closure ho hkind
        · cases he
    | outer _ hx ho ih => exact .outer ih hx ho

/-- The free places are in order, and whatever is needed is there. -/
structure IsAnchored (a : Agent) : Prop where
  tidy : a.environments.IsTidy
  there : ∀ e, a.Needs e → (a.environments.get? e).isSome

/-- Exactly what is needed survives a removal, and it stays as it is. -/
theorem get?_sweep_iff {x : Environment} : a.sweep.environments.get? e = some x ↔
    a.environments.get? e = some x ∧ a.Needs e :=
  Environments.get?_sweep_iff.trans (and_congr_right' needs_iff.symm)

/-- What is needed after a removal was needed before. -/
theorem Needs.of_sweep (h : a.sweep.Needs e) : a.Needs e := by
  induction h with
  | context hc => exact .context hc
  | globals hr => exact .globals hr
  | closure ho hkind => exact .closure ho hkind
  | outer _ hx ho ih => exact .outer ih (get?_sweep_iff.mp hx).1 ho

theorem IsAnchored.isSome_sweep (h : a.IsAnchored) (he : a.Needs e) :
    (a.sweep.environments.get? e).isSome := by
  obtain ⟨x, hx⟩ := Option.isSome_iff_exists.mp (h.there e he)
  exact Option.isSome_iff_exists.mpr ⟨x, get?_sweep_iff.mpr ⟨hx, he⟩⟩

theorem IsAnchored.sweep (h : a.IsAnchored) : a.sweep.IsAnchored :=
  ⟨Environments.isTidy_sweep h.tidy _, fun _ he => h.isSome_sweep he.of_sweep⟩

end Agent

/-! ### Sessions -/

/-- **Agents of a session are anchored**: what they need corresponds, and is therefore there. -/
theorem Agrees.isAnchored {φ : RealmId → Filing} {ρ : World} {K : Stack φ} (h : Agrees ρ K a b) :
    a.IsAnchored := by
  -- The induction is on why an environment is needed: each of these things corresponds to another, and
  -- with it the environment that it refers to.
  have hknown : ∀ e, a.Needs e → ρ.Knows e := by
    intro e he
    induction he with
    | context hc =>
      rw [h.contexts_left] at hc
      obtain ⟨d, hd, rfl⟩ := List.mem_map.mp hc
      exact ⟨_, (h.contexts d hd).environment⟩
    | globals hr =>
      obtain ⟨i, hi⟩ := Array.mem_iff_getElem?.mp hr
      obtain ⟨s, hs⟩ := h.known i (Array.getElem?_eq_some_iff.mp hi).1
      obtain ⟨x, y, hx, -, hxy⟩ := h.realm hs
      cases hi.symm.trans hx
      exact ⟨_, hxy.globals⟩
    | closure ho hkind =>
      obtain ⟨i, hi⟩ := Array.mem_iff_getElem?.mp ho
      obtain ⟨x, y, hx, -, hxy⟩ := h.object (h.same i (Array.getElem?_eq_some_iff.mp hi).1)
      cases hi.symm.trans hx
      have hrel := hxy.kind
      rw [hkind] at hrel
      generalize y.kind = k at hrel
      cases hrel with
      | closure hc => exact ⟨_, hc.environment⟩
    | outer _ hx ho ih =>
      obtain ⟨f, hf⟩ := ih
      obtain ⟨x', y, hx', -, hxy⟩ := h.environments.record hf
      cases hx.symm.trans hx'
      have hrel := hxy.outer
      rw [ho] at hrel
      generalize y.outer = o at hrel
      cases hrel with
      | some ho => exact ⟨_, ho⟩
  refine ⟨h.environments.tidy_left, fun e he => ?_⟩
  obtain ⟨f, hf⟩ := hknown e he
  obtain ⟨x, y, hx, -, -⟩ := h.environments.record hf
  exact Option.isSome_iff_exists.mpr ⟨x, hx⟩

/-- Agents that come to a task are anchored. -/
def Condition.anchored : Condition := ⟨fun _ a => a.IsAnchored⟩

theorem Condition.anchored_holds (φ : RealmId → Filing) : Condition.anchored.Holds φ :=
  fun _ hab => hab.isAnchored

/-- An agent that a host has asked for one thing after the other agrees with itself. -/
theorem agrees_ofRequests (n : Nat) (isVerbose : Bool) (requests : List (Request × Tidying)) :
    ∃ ρ k, Agrees ρ (Stack.idle (onFile (requests.map Prod.fst)) k)
      (Agent.ofRequests n isVerbose requests) (Agent.ofRequests n isVerbose requests) := by
  -- On the way the realms that are still to come are on file behind those that are there.
  suffices hall : ∀ (φ : RealmId → Filing) (l : List (Request × Tidying)) (a : Agent) (ρ : World)
      (k : Nat), (∀ i f, ((l.map Prod.fst).filterMap (·.filing?))[i]? = some f → φ ⟨k + i⟩ = f) →
      Agrees ρ (Stack.idle φ k) a a → ∃ σ k', Agrees σ (Stack.idle φ k')
        (l.foldl (fun a x => (x.1.answer (.ofDepth n) x.2).after a) a)
        (l.foldl (fun a x => (x.1.answer (.ofDepth n) x.2).after a) a) from
    hall _ requests _ _ 0 (fun _ _ => onFile_eq) (agrees_new _ isVerbose)
  intro φ l
  induction l with
  | nil => exact fun a ρ k _ hab => ⟨ρ, k, hab⟩
  | cons x l ih =>
    intro a ρ k hφ hab
    obtain ⟨hhead, htail⟩ := filed_cons (r := x.1) hφ
    have hanswer := x.1.answered (Machine.agree_ofDepth n) hab hhead x.2 x.2
    have hagree : ∃ σ, Agrees σ (Stack.idle φ (k + x.1.realms))
        ((x.1.answer (.ofDepth n) x.2).after a) ((x.1.answer (.ofDepth n) x.2).after a) := by
      unfold Eval.after
      generalize x.1.answer (.ofDepth n) x.2 a = o at hanswer
      cases hanswer with
      | ok h | thrown h | exhausted h => exact ⟨_, h⟩
    obtain ⟨σ, hagree⟩ := hagree
    exact ih _ σ _ htail hagree

/-! ### Removals -/

/-- The places are in order: the free ones are listed, each of them once, and the others are counted;
a new environment comes to a place that holds nothing, and leaves the others alone. -/
structure Environments.IsInPlace (s : Environments) : Prop where
  nodup : s.free.Nodup
  mem_free : ∀ i, i ∈ s.free ↔ s.records[i]? = some none
  length : s.free.length + s.occupied.length = s.records.size
  count : s.count = s.occupied.length
  vacant : ∀ x, s.get? (s.allocate x).1 = none
  allocated : ∀ x, (s.allocate x).2.get? (s.allocate x).1 = some x
  others : ∀ x e, e ≠ (s.allocate x).1 → (s.allocate x).2.get? e = s.get? e

theorem Environments.IsTidy.isInPlace {s : Environments} (h : s.IsTidy) : s.IsInPlace where
  nodup := h.nodup
  mem_free := h.mem_free
  length := h.length_free
  count := h.count_eq
  vacant := vacant_allocate h
  allocated := get?_allocate_self h
  others := fun x _ => get?_allocate_of_ne x

/-- The second agent is the first one after a removal: what the marking loop has marked is left, which
is what is needed, and it is as it was. -/
structure Agent.IsCollected (a b : Agent) : Prop where
  tidy : b.environments.IsTidy
  marks : b.environments.records = a.environments.records.mapIdx fun i x =>
    if ((Marking.start a.environments a.roots).finish a.environments)[i]?.getD false then x else none
  survivors : ∀ e x, b.environments.get? e = some x ↔ a.environments.get? e = some x ∧ a.Needs e
  outer : ∀ e x o, b.environments.get? e = some x → x.outer = some o → (b.environments.get? o).isSome

theorem Agent.IsAnchored.isCollected (h : a.IsAnchored) : a.IsCollected a.sweep where
  tidy := h.sweep.tidy
  marks := by
    rw [Marking.finish_start]
    rfl
  survivors := fun _ _ => get?_sweep_iff
  outer := fun e x o hx ho => by
    obtain ⟨hx, he⟩ := get?_sweep_iff.mp hx
    exact h.isSome_sweep (.outer he hx ho)

/-- **A removal leaves what is needed and nothing else.**  Whatever is evaluated, environments are put
into places, changed there and removed; so in every state the free places are those that hold nothing,
each listed once, and a new environment comes to one of them or to a new place.  Marking comes to an
end, whatever refers to what.  In every session whatever is needed is there, when a host has its answer
and whenever a task starts, and wherever that is so, a removal leaves it as it is. -/
theorem collection_exact :
    (∀ (n : Nat) {α : Type} (t : Task α) (a : Agent),
      ReflTransGen Environments.Move a.environments ((Task.run n t).after a).environments) ∧
    (∀ (n : Nat) (isVerbose : Bool) (requests : List (Request × Tidying)),
      ReflTransGen Environments.Move .empty (Agent.ofRequests n isVerbose requests).environments) ∧
    (∀ s, ReflTransGen Environments.Move .empty s → s.IsInPlace) ∧
    (∀ s : Environments, WellFounded fun m' m : Marking => m.round s = some m') ∧
    (∀ (n : Nat) (isVerbose : Bool) (requests : List (Request × Tidying)),
      (Agent.ofRequests n isVerbose requests).IsAnchored ∧
      serve (.watching .anchored n) requests (.new isVerbose)
        = serve (.ofDepth n) requests (.new isVerbose)) ∧
    ∀ a : Agent, a.IsAnchored → a.IsCollected a.sweep ∧ a.sweep.IsAnchored := by
  refine ⟨fun n _ t a => places_run n t a, places_ofRequests, fun s hs => ?_,
    Marking.wellFounded_round, fun n isVerbose requests => ⟨?_, ?_⟩, fun a ha => ?_⟩
  · exact (Environments.isTidy_of_moves hs Environments.isTidy_empty).isInPlace
  · obtain ⟨ρ, k, hagree⟩ := agrees_ofRequests n isVerbose requests
    exact hagree.isAnchored
  · exact (serve_watching n isVerbose (Condition.anchored_holds _)).1
  · exact ⟨ha.isCollected, ha.sweep⟩

/-- An agent with three environments, each around the next, that evaluates something in the second
one. -/
def Agent.withPlaces : Agent :=
  { Agent.new false with
    environments := ⟨#[some ⟨none, []⟩, some ⟨some ⟨0⟩, []⟩, some ⟨some ⟨1⟩, []⟩], [], 0⟩
    contexts := [⟨⟨0⟩, ⟨1⟩⟩] }

theorem Agent.moves_withPlaces :
    ReflTransGen Environments.Move .empty Agent.withPlaces.environments :=
  ((ReflTransGen.single (.new ⟨none, []⟩)).tail (.new ⟨some ⟨0⟩, []⟩)).tail (.new ⟨some ⟨1⟩, []⟩)

theorem Agent.isAnchored_withPlaces : Agent.withPlaces.IsAnchored := by
  have hneeded : ∀ e, Agent.withPlaces.Needs e → e = ⟨0⟩ ∨ e = ⟨1⟩ := by
    intro e he
    induction he with
    | context hc =>
      cases List.mem_singleton.mp hc
      exact .inr rfl
    | globals hr => exact absurd hr (Array.not_mem_empty _)
    | closure ho => exact absurd ho (Array.not_mem_empty _)
    | outer _ hx ho ih =>
      rcases ih with rfl | rfl
      · cases hx
        cases ho
      · cases hx
        cases ho
        exact .inl rfl
  refine ⟨Environments.isTidy_of_moves Agent.moves_withPlaces Environments.isTidy_empty, fun e he => ?_⟩
  rcases hneeded e he with rfl | rfl <;> rfl

/-- The third environment is not needed; its place is used again. -/
theorem collection_exact_inner :
    Agent.withPlaces.IsCollected Agent.withPlaces.sweep ∧
    Agent.withPlaces.environments.IsInPlace ∧
    (Agent.withPlaces.sweep.environments.get? ⟨1⟩).isSome ∧
    Agent.withPlaces.sweep.environments.get? ⟨2⟩ = none ∧
    (Agent.withPlaces.sweep.environments.allocate ⟨none, []⟩).1 = ⟨2⟩ := by
  obtain ⟨-, -, hplaces, -, -, hcollected⟩ := collection_exact
  refine ⟨(hcollected _ Agent.isAnchored_withPlaces).1, hplaces _ Agent.moves_withPlaces, ?_, ?_, ?_⟩
  all_goals decide +kernel

end Scriptlet
