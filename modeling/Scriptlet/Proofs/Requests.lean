import Scriptlet.Globals
import Scriptlet.Proofs.Realms

/-!
# Hosts

A host asks an agent for one thing after the other: for new standard globals, to load a root, or to
call a function.  In between it tidies the agent up, or does not.  It sees the values that are
returned or thrown, and all objects, but not the places in which code is evaluated.

Whatever a host does, what is on file about the realms of its agent follows from what it asks for,
and the answers do not depend on how the agent is tidied up.

## Main definitions

* `Tidying` — what a host does to tidy an agent up.
* `Program`, `Request` — roots that the grammar allows, and what a host asks for.
* `Answer`, `serve` — what it sees.
* `onFile` — the filings of the realms.

## Main results

* `Agrees.seen` — a host of agreeing agents sees the same on both sides.
* `serve_agrees` — **machines that agree give the same answers, however they are tidied up**.
-/

namespace Scriptlet

open Eval

/-! ### What a host does -/

/-- What a host does to tidy an agent up. -/
inductive Tidying
  /-- Nothing. -/
  | nothing
  /-- Environments that nothing reaches are removed, if there are many environments. -/
  | collection
  /-- Environments that nothing reaches are removed. -/
  | removal
deriving DecidableEq, Repr

/-- The agent after it has been tidied up. -/
def Tidying.apply : Tidying → Agent → Agent
  | nothing, a => a
  | collection, a => a.collect
  | removal, a => a.sweep

/-- A root that the grammar allows, with what it is loaded with. -/
structure Program where
  /-- The root. -/
  root : Root
  /-- Its source. -/
  source : Source
  /-- What it is loaded with. -/
  provisions : Provisions
  /-- The grammar allows the root. -/
  isGrammatical : root.isGrammatical ⟨root.isExpression, provisions.noVar⟩ = true

/-- What a host asks an agent for. -/
inductive Request
  /-- New values for the names that programs usually get. -/
  | globals
  /-- Loading a root. -/
  | load (p : Program)
  /-- Calling a function. -/
  | invoke (f : Value) (arguments : List Value)
  /-- Nothing. -/
  | rest

namespace Agent

/-- The value that a host gives.  No host has an object that the agent does not have. -/
def given (a : Agent) : Value → Value
  | .object o => if o.index < a.objects.size then .object o else .undefined
  | v => v

/-- The values that a host provides for names. -/
def givenAll (a : Agent) (p : Provisions) : Provisions :=
  { p with values := p.values.map fun x => (x.1, a.given x.2) }

end Agent

/-- Does what a host asks for, and tidies the agent up. -/
def Request.answer (m : Machine) (t : Tidying) : Request → Eval (List Value)
  | globals => do return (← standardGlobals).map (·.2)
  | load p => do
    let a ← get
    return [← m.loadTidying t.apply p.root p.source (a.givenAll p.provisions)]
  | invoke f args => do
    let a ← get
    return [← m.invokeTidying t.apply (a.given f) (args.map a.given)]
  | rest => do
    modify t.apply
    return []

/-- The object as a host sees it: it does not see the places in which code is evaluated. -/
def Object.seen (o : Object) : Object :=
  match o.kind with
  | .closure c => { o with kind := .closure { c with environment := ⟨0⟩, realm := ⟨0⟩ } }
  | _ => o

/-- What a host sees when it has asked for something: what came of it, with all objects. -/
inductive Answer
  /-- Values were returned. -/
  | returned (values : List Value) (objects : Array Object)
  /-- A value was thrown. -/
  | threw (v : Value) (objects : Array Object)
  /-- The computation was stopped. -/
  | stopped (i : Interrupt)

/-- What a host sees when it asks an agent for one thing after the other, until a computation is
stopped. -/
def serve (m : Machine) : List (Request × Tidying) → Agent → List Answer
  | [], _ => []
  | (r, t) :: rest, a =>
    match r.answer m t a with
    | .ok vs a => .returned vs (a.objects.map Object.seen) :: serve m rest a
    | .error (.thrown v) a => .threw v (a.objects.map Object.seen) :: serve m rest a
    | .error i _ => [.stopped i]

/-! ### What is on file -/

/-- What is on file about a root, if it is accepted. -/
def Program.filing? (p : Program) : Option Filing :=
  let rules : Rules := ⟨p.root.isExpression, p.provisions.noVar⟩
  match analyze rules p.root with
  | .ok s => some ⟨p.root, rules, s.supplied p.provisions.values⟩
  | .error _ => none

/-- What is on file about the root that is asked to be loaded, if one is and if it is accepted. -/
def Request.filing? : Request → Option Filing
  | load p => p.filing?
  | _ => none

/-- What is on file about the root of a realm.  The realms are those of the roots that are accepted,
in their order; no others come to be. -/
def onFile (requests : List Request) (r : RealmId) : Filing :=
  (requests.filterMap (·.filing?)).getD r.index
    ⟨.expression (.constant ⟨0, 0⟩ .null), ⟨true, false⟩, []⟩

theorem provided?_map {α β : Type} (f : α → β) (name : String) (l : List (String × α)) :
    provided? name (l.map fun x => (x.1, f x.2)) = (provided? name l).map f := by
  induction l with
  | nil => rfl
  | cons x l ih =>
    obtain ⟨n, v⟩ := x
    rw [List.map_cons]
    unfold provided?
    dsimp only
    rw [ih]
    cases provided? name l with
    | some w => rfl
    | none =>
      dsimp only [Option.map_none]
      split <;> rfl

/-- Which names are supplied does not depend on the values. -/
theorem Analysis.supplied_map {α β : Type} (s : Analysis) (f : α → β) (l : List (String × α)) :
    s.supplied (l.map fun x => (x.1, f x.2)) = s.supplied l := by
  unfold Analysis.supplied supply
  rw [List.map_filterMap, List.map_filterMap]
  refine congrArg (List.filterMap · s.free) (funext fun n => ?_)
  rw [provided?_map, Option.map_map, Option.map_map, Option.map_map]
  rfl

variable {φ : RealmId → Filing} {ρ : World} {K : Stack φ} {a b : Agent} {m m' : Machine} {k : Nat}

theorem Tidying.trims (t : Tidying) (a : Agent) : a.Trims (t.apply a) := by
  cases t with
  | nothing => exact a.trims_refl
  | collection => exact a.trims_collect
  | removal => exact a.trims_sweep

/-! ### What a host sees of agreeing agents -/

/-- Corresponding values are the same. -/
theorem Agrees.value_eq (h : Agrees ρ K a b) {v w : Value}
    (hv : ρ.value v w) : v = w := by
  cases hv with
  | object hop => rw [h.eq_of_object hop]
  | _ => rfl

theorem Agrees.values_eq (h : Agrees ρ K a b) {vs ws : List Value}
    (hvs : ρ.values vs ws) : vs = ws :=
  List.forall₂_eq_eq_eq ▸ hvs.imp fun _ _ => h.value_eq

theorem Elements.Rel.eq {α : Type} {e e' : Elements α} (h : Rel (· = ·) e e') : e = e' := by
  obtain ⟨z, rfl, rfl⟩ := h
  exact congrArg z.map (funext fun p => p.2)

/-- A host sees no difference between corresponding objects. -/
theorem Agrees.seen_eq (h : Agrees ρ K a b) {x y : Object}
    (hxy : Object.Rel ρ x y) : x.seen = y.seen := by
  obtain ⟨kind, isExtensible, properties⟩ := x
  obtain ⟨kind', isExtensible', properties'⟩ := y
  obtain ⟨hkind, rfl, hproperties⟩ := hxy
  dsimp only at hkind hproperties
  have heq : properties = properties' := by
    refine Array.toList_inj.mp (List.forall₂_eq_eq_eq ▸ hproperties.imp ?_)
    rintro ⟨key, v, w, e, c⟩ ⟨key', v', w', e', c'⟩ ⟨rfl, hv, rfl, rfl, rfl⟩
    exact congrArg (Slot.mk key · w e c) (h.value_eq hv)
  subst heq
  cases hkind with
  | ordinary => rfl
  | builtin b => rfl
  | error e => rfl
  | array he =>
    rw [(he.imp fun _ _ => h.value_eq).eq]
  | @closure c d hc =>
    obtain ⟨code, environment, realm, name⟩ := c
    obtain ⟨code', environment', realm', name'⟩ := d
    obtain ⟨rfl, rfl, -⟩ := hc
    rfl

/-- **A host sees the same objects on both sides.** -/
theorem Agrees.seen (h : Agrees ρ K a b) :
    a.objects.map Object.seen = b.objects.map Object.seen := by
  refine Array.ext (by rw [Array.size_map, Array.size_map, h.size]) fun i hi hi' => ?_
  rw [Array.size_map] at hi hi'
  obtain ⟨x, y, hx, hy, hxy⟩ := h.object (h.same i hi)
  rw [Array.getElem_map, Array.getElem_map, h.seen_eq]
  rw [Array.getElem?_eq_getElem hi] at hx
  rw [Array.getElem?_eq_getElem hi'] at hy
  cases hx
  cases hy
  exact hxy

/-- What a host gives corresponds. -/
theorem Agrees.given (h : Agrees ρ K a b) (v : Value) :
    ρ.value (a.given v) (b.given v) := by
  cases v with
  | object o =>
    unfold Agent.given
    dsimp only
    rw [← h.size]
    split
    · rename_i ho
      exact .object (h.same o.index ho)
    · exact .undefined
  | _ => exact .refl rfl

theorem Agrees.givenAll (h : Agrees ρ K a b) (p : Provisions) :
    List.Forall₂ ρ.provided (a.givenAll p).values (b.givenAll p).values := by
  unfold Agent.givenAll
  rw [List.forall₂_map_left_iff, List.forall₂_map_right_iff, List.forall₂_same]
  exact fun x _ => ⟨rfl, h.given x.2⟩

/-! ### Standard globals -/

namespace Related

theorem builtin (b : Builtin) :
    Related ρ K (Eval.builtin b) (Eval.builtin b) fun σ v w => σ.value v w :=
  (allocate (.ofKind (.builtin b))).bind fun _ hop => pure (.object hop)

/-- Properties for built-in functions, one for each thing of a list. -/
theorem builtinSlots {α : Type} (f : α → Builtin) (l : List α) :
    Related ρ K (l.mapM fun x => Eval.builtinSlot (f x)) (l.mapM fun x => Eval.builtinSlot (f x))
      fun σ ps qs => List.Forall₂ (Slot.Rel σ) ps qs := by
  refine mapM (I := fun _ x y => x = y) (fun _ => id) (fun hle hpq => hpq.mono hle) ?_
    (List.forall₂_same.mpr fun _ _ => rfl)
  rintro σ x _ hle rfl
  exact (builtin (f x)).bind fun _ hv => pure (Object.Rel.hidden _ hv)

/-- Objects with constants and built-in functions. -/
theorem library {kind kind' : ObjectKind} (hkind : ObjectKind.Rel ρ kind kind')
    (constants : List (String × Float)) {ps qs : List Slot}
    (h : List.Forall₂ (Slot.Rel ρ) ps qs) :
    Related ρ K (Eval.library kind constants ps) (Eval.library kind' constants qs)
      fun σ v w => σ.value v w := by
  refine (allocate (Object.Rel.withProperties (.ofKind hkind) ?_)).bind
    fun _ hop => pure (.object hop)
  refine List.rel_append ?_ h
  rw [List.forall₂_map_left_iff, List.forall₂_map_right_iff, List.forall₂_same]
  exact fun p _ => ⟨rfl, .number p.2, rfl, rfl, rfl⟩

theorem constructorWith {α : Type} (c : Constructor) (f : α → Builtin) (l : List α) :
    Related ρ K (Eval.constructorWith c (l.map f)) (Eval.constructorWith c (l.map f))
      fun σ v w => σ.value v w := by
  unfold Eval.constructorWith
  have hslots := builtinSlots (ρ := ρ) (K := K) id (l.map f)
  exact hslots.bind fun _ hpq => library (.builtin _) [] hpq

/-- Constructors of errors under their names. -/
theorem errorConstructors (kinds : List ErrorKind) :
    Related ρ K
      (kinds.mapM fun k => do return (k.name, ← Eval.constructorWith (.error k) []))
      (kinds.mapM fun k => do return (k.name, ← Eval.constructorWith (.error k) []))
      fun σ l l' => List.Forall₂ σ.provided l l' := by
  refine mapM (I := fun _ x y => x = y) (fun _ => id) (fun hle => World.provided.mono hle) ?_
    (List.forall₂_same.mpr fun _ _ => rfl)
  rintro σ k _ hle rfl
  exact (constructorWith (.error k) id []).bind fun _ hv => pure ⟨rfl, hv⟩

/-- Values for the names that programs usually get are made alike on both sides. -/
theorem standardGlobals :
    Related ρ K Scriptlet.standardGlobals Scriptlet.standardGlobals
      fun σ l l' => List.Forall₂ σ.provided l l' := by
  unfold Scriptlet.standardGlobals
  refine (builtin _).bind fun _ hparseInt => ?_
  refine (builtin _).bind fun h₂ hparseFloat => ?_
  refine (constructorWith _ _ _).bind fun h₃ hobject => ?_
  refine (constructorWith _ _ _).bind fun h₄ harray => ?_
  refine (builtinSlots _ _).bind fun h₅ hfunctions => ?_
  refine (library .ordinary _ hfunctions).bind fun h₆ hmath => ?_
  refine (builtinSlots _ _).bind fun h₇ hfunctions => ?_
  -- what was made so far is needed below in the world that has been come to
  have h₃₇ := World.le_trans h₄ (World.le_trans h₅ (World.le_trans h₆ h₇))
  have hparseInt := hparseInt.mono (World.le_trans h₂ (World.le_trans h₃ h₃₇))
  have hparseFloat := hparseFloat.mono (World.le_trans h₃ h₃₇)
  have hobject := hobject.mono h₃₇
  have harray := harray.mono (World.le_trans h₅ (World.le_trans h₆ h₇))
  have hmath := hmath.mono h₇
  refine (library (.builtin _) _ (List.rel_append hfunctions
    (.cons (Object.Rel.hidden _ hparseFloat) (.cons (Object.Rel.hidden _ hparseInt) .nil)))).bind
    fun h₈ hnumber => ?_
  refine (constructorWith _ id []).bind fun h₉ hstring => ?_
  refine (constructorWith _ id []).bind fun h₁₀ hboolean => ?_
  refine (errorConstructors _).bind fun h₁₁ herrors => ?_
  refine (builtin _).bind fun h₁₂ hisNaN => ?_
  refine (builtin _).bind fun h₁₃ hisFinite => pure ?_
  have h₁₁' := World.le_trans h₁₂ h₁₃
  have h₁₀' := World.le_trans h₁₁ h₁₁'
  have h₉' := World.le_trans h₁₀ h₁₀'
  have h₈' := World.le_trans h₉ h₉'
  have h₇' := World.le_trans h₈ h₈'
  refine List.rel_append (List.rel_append ?_ (herrors.imp fun _ _ h => h.mono h₁₁')) ?_
  · exact .cons ⟨rfl, hobject.mono h₇'⟩ (.cons ⟨rfl, harray.mono h₇'⟩
      (.cons ⟨rfl, hmath.mono h₇'⟩ (.cons ⟨rfl, hnumber.mono h₈'⟩
      (.cons ⟨rfl, hstring.mono h₉'⟩ (.cons ⟨rfl, hboolean.mono h₁₀'⟩ .nil)))))
  · exact .cons ⟨rfl, hparseInt.mono h₇'⟩ (.cons ⟨rfl, hparseFloat.mono h₇'⟩
      (.cons ⟨rfl, hisNaN.mono h₁₃⟩ (.cons ⟨rfl, hisFinite⟩
      (.cons ⟨rfl, .number _⟩ (.cons ⟨rfl, .number _⟩ (.cons ⟨rfl, .undefined⟩ .nil))))))

end Related

/-! ### What a host sees -/

/-- The number of realms that are made when something is asked for. -/
def Request.realms (r : Request) : Nat := r.filing?.toList.length

/-- The filings of the realms that are made from then on. -/
theorem filed_cons {r : Request} {requests : List Request}
    (hφ : ∀ i f, ((r :: requests).filterMap (·.filing?))[i]? = some f → φ ⟨k + i⟩ = f) :
    (∀ f, r.filing? = some f → φ ⟨k⟩ = f) ∧
      ∀ i f, (requests.filterMap (·.filing?))[i]? = some f → φ ⟨k + r.realms + i⟩ = f := by
  rw [List.filterMap_cons] at hφ
  unfold Request.realms
  cases hr : r.filing? with
  | none =>
    rw [hr] at hφ
    exact ⟨by simp, hφ⟩
  | some g =>
    rw [hr] at hφ
    refine ⟨fun f hf => hφ 0 f hf, fun i f hf => ?_⟩
    have hi := hφ (i + 1) f hf
    rw [Nat.add_comm i 1, ← Nat.add_assoc] at hi
    exact hi

/-- **Agreeing machines do what a host asks for in corresponding ways**, however the agents are
tidied up. -/
theorem Request.answered (h : m.Agree φ m') (hab : Agrees ρ (Stack.idle φ k) a b)
    (r : Request) (hφ : ∀ f, r.filing? = some f → φ ⟨k⟩ = f)
    (t t' : Tidying) :
    Answered φ (k + r.realms) World.values (r.answer m t a) (r.answer m' t' b) := by
  cases r with
  | globals =>
    refine Related.answered (Related.standardGlobals.bind fun _ hl => .pure ?_) hab
    rw [World.values, List.forall₂_map_left_iff, List.forall₂_map_right_iff]
    exact hl.imp fun _ _ hpq => hpq.2
  | invoke f args =>
    refine Answered.map (h.invoke hab (hab.given f) ?_ t.trims t'.trims)
      fun hv => .cons hv .nil
    rw [World.values, List.forall₂_map_left_iff, List.forall₂_map_right_iff, List.forall₂_same]
    exact fun v _ => hab.given v
  | rest => exact .ok (hab.trim (t.trims a) (t'.trims b)) .nil
  | load p =>
    refine Answered.map (R := World.value) ?_ fun hv => .cons hv .nil
    have hfiling : (Request.load p).filing? = p.filing? := rfl
    unfold Request.realms
    rw [hfiling] at hφ ⊢
    unfold Program.filing? at hφ ⊢
    dsimp only at hφ ⊢
    -- A program that the analysis rejects is answered without a realm.
    cases hs : analyze ⟨p.root.isExpression, p.provisions.noVar⟩ p.root with
    | error r => exact Machine.Agree.load_rejected hab rfl hs
    | ok s =>
      rw [hs] at hφ
      refine h.load hab (hab.givenAll p.provisions) rfl hs p.isGrammatical ?_ t.trims t'.trims
      rw [hφ _ rfl]
      exact congrArg (Filing.mk _ _) (s.supplied_map a.given p.provisions.values).symm

/-- Whether an answer says that the state was found out of order. -/
def Answer.isBroken : Answer → Bool
  | stopped (.broken _) => true
  | _ => false

/-- **Machines that agree give the same answers, however the agents are tidied up**, and never find
the state out of order. -/
theorem serve_agrees (h : m.Agree φ m') {requests requests' : List (Request × Tidying)}
    (hsame : requests.map Prod.fst = requests'.map Prod.fst)
    (hφ : ∀ i f, ((requests.map Prod.fst).filterMap (·.filing?))[i]? = some f → φ ⟨k + i⟩ = f)
    (hab : Agrees ρ (Stack.idle φ k) a b) :
    serve m requests a = serve m' requests' b ∧
      ∀ x ∈ serve m requests a, x.isBroken = false := by
  -- On the requests: after each answer the agents agree again, in a world with the realms made so
  -- far.
  induction requests generalizing requests' ρ k a b with
  | nil =>
    rw [List.map_nil, eq_comm, List.map_eq_nil_iff] at hsame
    subst hsame
    exact ⟨rfl, by simp [serve]⟩
  | cons x requests ih =>
    obtain ⟨r, t⟩ := x
    obtain _ | ⟨⟨r', t'⟩, requests'⟩ := requests'
    · cases hsame
    rw [List.map_cons, List.map_cons, List.cons.injEq] at hsame
    obtain ⟨rfl, hsame⟩ := hsame
    obtain ⟨hhead, htail⟩ := filed_cons hφ
    have hanswer := r.answered h hab hhead t t'
    unfold serve
    generalize r.answer m t a = o, r.answer m' t' b = o' at hanswer
    cases hanswer with
    | ok hagree result =>
      obtain ⟨hrest, hbroken⟩ := ih hsame htail hagree
      dsimp only
      rw [hagree.values_eq result, hagree.seen, hrest]
      exact ⟨rfl, List.forall_mem_cons.mpr ⟨rfl, hrest ▸ hbroken⟩⟩
    | thrown hagree value =>
      obtain ⟨hrest, hbroken⟩ := ih hsame htail hagree
      dsimp only
      rw [hagree.value_eq value, hagree.seen, hrest]
      exact ⟨rfl, List.forall_mem_cons.mpr ⟨rfl, hrest ▸ hbroken⟩⟩
    | exhausted => exact ⟨rfl, List.forall_mem_singleton.mpr rfl⟩

end Scriptlet
