import Scriptlet.Proofs.Restoration

/-!
# Histories of keys

The objects of an agent come to be with keys that are in order, and change by single operations of
which none breaks that.  So whatever has been evaluated, and in the middle of it as well, the keys of
an object are those of its properties, each of them once: the indices ascending, the other texts and
the symbols in the order in which they were created.

What "in the order in which they were created" means is a matter of the whole history of an object: a
key that was there when another one was created, and has not been deleted since, comes before it.

## Main definitions

* `Objects.Move` — what may happen to the keys of the objects that there are.
* `keeping` — the law of computations during which nothing else happens to them.
* `Objects.Lists` — an object that there is has a key.

## Main results

* `moves_run`, `moves_answer` — nothing else happens, whatever is evaluated.
* `Objects.keyed_of_moves` — **no move breaks what is required of keys**.
* `Objects.precedes_of_moves` — **a key comes before those that were created after it**.
* `ownKeys_in_order` — **what the keys of the objects are**, and what becomes of them.
-/

namespace Scriptlet

open Eval Relation

/-- What may happen to the keys of the objects that there are. -/
inductive Objects.Move (l : Array Object) : Array Object → Prop
  | new {o : Object} (h : o.IsKeyed) : Move l (l.push o)
  | turn (id : ObjectId) {o x : Object} (ho : l[id.index]? = some o) (h : o.Turn x) :
    Move l (l.setIfInBounds id.index x)

/-- The keys of the objects go from those of the first agent to those of the second, if they were in
order. -/
def Agent.Moves (a b : Agent) : Prop := a.IsKeyed → ReflTransGen Objects.Move a.objects b.objects

variable {a b c : Agent} {l l' : Array Object} {i : Nat} {k k' : PropertyKey}

/-! ### Single moves -/

/-- **No move breaks what is required of keys.** -/
theorem Objects.Move.keyed (h : Objects.Move l l') (hl : ∀ o ∈ l, o.IsKeyed) :
    ∀ o ∈ l', o.IsKeyed := by
  intro x hx
  cases h with
  | new ho =>
    rcases Array.mem_push.mp hx with hx | rfl
    · exact hl x hx
    · exact ho
  | turn id ho hturn =>
    obtain ⟨j, hj⟩ := Array.mem_iff_getElem?.mp hx
    rw [Array.getElem?_setIfInBounds] at hj
    split at hj
    · split at hj
      · cases hj
        exact hturn.isKeyed (hl _ (Array.mem_of_getElem? ho))
      · cases hj
    · exact hl x (Array.mem_of_getElem? hj)

theorem Objects.keyed_of_moves (h : ReflTransGen Objects.Move l l') (hl : ∀ o ∈ l, o.IsKeyed) :
    ∀ o ∈ l', o.IsKeyed := by
  induction h with
  | refl => exact hl
  | tail _ hmove ih => exact hmove.keyed ih

namespace Agent

theorem Moves.refl (a : Agent) : a.Moves a := fun _ => .refl

theorem Moves.isKeyed (h : a.Moves b) (ha : a.IsKeyed) : b.IsKeyed :=
  Objects.keyed_of_moves (h ha) ha

theorem Moves.trans (h : a.Moves b) (h' : b.Moves c) : a.Moves c := fun ha =>
  (h ha).trans (h' (h.isKeyed ha))

theorem Moves.of_same (h : b.objects = a.objects) : a.Moves b := fun _ => h ▸ .refl

/-- New objects come to be one after the other. -/
theorem Extends.moves {news : List Object} (h : a.Extends b news) (hnews : ∀ o ∈ news, o.IsKeyed) :
    a.Moves b := by
  have hmoves : ∀ (news : List Object), (∀ o ∈ news, o.IsKeyed) → ∀ l : Array Object,
      ReflTransGen Objects.Move l (l ++ news) := by
    intro news
    induction news with
    | nil => exact fun _ l => by simpa using ReflTransGen.refl
    | cons o news ih =>
      intro hnews l
      obtain ⟨ho, hnews⟩ := List.forall_mem_cons.mp hnews
      exact .head (.new ho) (by simpa using ih hnews (l.push o))
  exact fun _ => h.objects ▸ hmoves news hnews a.objects

/-- A change of one object. -/
theorem moves_modifyObject (id : ObjectId) {f : Object → Object}
    (hf : ∀ o, a.objects[id.index]? = some o → o.Turn (f o)) : a.Moves (a.modifyObject id f) := by
  intro _
  by_cases h : id.index < a.objects.size
  · rw [modifyObject_eq h, object_eq_getD, Array.getElem?_eq_getElem h]
    exact .single (.turn id (Array.getElem?_eq_getElem h) (hf _ (Array.getElem?_eq_getElem h)))
  · rw [modifyObject_of_same fun x hx => absurd (Array.getElem?_eq_some_iff.mp hx).1 h]

end Agent

/-! ### All evaluation -/

/-- The computation leads to what agents move to. -/
abbrev Moving {α : Type} (p : Eval α) : Prop := Leads Agent.Moves p

namespace Moving

variable {α β : Type} {p : Eval α} {f : α → Eval β}

theorem still (h : ∀ a, (p.after a).objects = a.objects) : Moving p := fun a => .of_same (h a)

/-- One after the other; the second computation starts with keys that are in order. -/
theorem bindOf (h : Moving p) (hf : ∀ a x b, a.IsKeyed → p a = .ok x b → Moving (f x)) :
    Moving (p >>= f) := by
  intro a ha
  rcases after_bind p f a with heq | ⟨x, hx, heq⟩
  · exact heq ▸ h a ha
  · exact heq ▸ (h a).trans (hf a x _ ha hx _) ha

theorem modifyObject (id : ObjectId) {f : Object → Object} (hf : ∀ o : Object, o.Turn (f o)) :
    Moving (Eval.modifyObject id f) := fun _ => Agent.moves_modifyObject id fun o _ => hf o

theorem changeObject (id : ObjectId) {f : Object → α × Object} (hf : ∀ o : Object, o.Turn (f o).2)
    (missing : α) : Moving (Eval.changeObject id f missing) := fun a => by
  rw [after_changeObject]
  exact Agent.moves_modifyObject id fun o _ => hf o

/-- New objects are keyed. -/
def creation : CreationLaw where
  Holds := Moving
  CountsOnKeys := True
  pure := fun _ a => .refl a
  throw := fun _ a => .refl a
  get := fun a => .refl a
  bindOf := fun h hf => bindOf h fun a x b ha => hf a x b fun _ => ha
  extend := fun f hf a => by
    obtain ⟨news, hnews, h⟩ := hf a
    exact h.moves (hnews trivial)
  newEnvironment := fun _ => still fun _ => rfl
  updateEnvironment := fun e f => by
    refine bindOf (bindOf (fun a => .refl a) fun a _ _ _ _ => ?_) fun _ _ _ _ _ => still fun _ => rfl
    split
    · exact fun a => .refl a
    · exact fun a => .refl a

/-- **An assignment**; that to the length of an array is another computation. -/
theorem write (id : ObjectId) (k : PropertyKey) (v : Value) {p : Eval Bool} (hp : Moving p) :
    Moving (do
      if k.isNamed "length" && (← Eval.object id).isArray then p
      else Eval.changeObject id (·.write k v) false) := by
  intro a
  have hsame : Eval.after (do
      if k.isNamed "length" && (← Eval.object id).isArray then p
      else Eval.changeObject id (·.write k v) false) a
      = (if k.isNamed "length" && (a.object id).isArray then p
        else Eval.changeObject id (·.write k v) false).after a := rfl
  rw [hsame]
  -- The length of an array is written by the other task; every other property by one turn of the
  -- object.
  split
  · exact hp a
  · next hnot =>
    rw [Bool.and_eq_true] at hnot
    rw [after_changeObject]
    refine Agent.moves_modifyObject id fun o ho => Object.turn_write v ?_
    rwa [Agent.object_eq_getD, ho, Option.getD_some] at hnot

/-- What is done to the elements that an array has. -/
theorem changeElements (id : ObjectId) (f : Elements Value → α × Elements Value) (missing : α)
    (hf : ∀ e, (a.object id).elements? = some e → e.IsSound → (f e).2.IsSound) :
    a.Moves ((Eval.changeArray id f missing).after a) := by
  rcases after_bind (Eval.requireThawed id)
    (fun _ => Eval.changeObject id (·.changeElements f missing) missing) a with heq | ⟨x, hx, heq⟩
  · exact heq ▸ creation.requireThawed id a
  · change a.Moves (Eval.after (_ >>= _) a)
    rw [heq, (requireThawed_ok hx).1, after_changeObject]
    refine Agent.moves_modifyObject id fun o ho => Object.turn_changeElements o (fun e he => ?_) _
    rw [Agent.object_eq_getD, ho, Option.getD_some] at hf
    exact hf e he

theorem changeArray (id : ObjectId) (f : Elements Value → α × Elements Value) (missing : α)
    (hf : ∀ e, e.IsSound → (f e).2.IsSound) : Moving (Eval.changeArray id f missing) := fun _ =>
  changeElements id f missing fun e _ => hf e

/-- **More elements** are put only into an array that has room for them. -/
theorem growArray (id : ObjectId) (count : Nat) (f : Elements Value → Elements Value)
    (hf : ∀ e, e.IsStored → e.length + count ≤ maxArrayLength → (f e).IsSound) :
    Moving (Eval.growArray id count f) := by
  intro a
  rcases after_bind (Eval.requireRoom id count)
    (fun _ => Eval.changeArray id (fun e => ((), f e)) ()) a with heq | ⟨x, hx, heq⟩
  · exact heq ▸ creation.requireRoom id count a
  · obtain ⟨hsame, hroom⟩ := requireRoom_ok hx
    change a.Moves (Eval.after (_ >>= _) a)
    rw [heq, hsame]
    refine changeElements id _ () fun e he hsound => hf e hsound.stored ?_
    rwa [Agent.elements, he] at hroom

theorem objects_withEnvironmentOf (e : EnvironmentId) (a : Agent) :
    (withEnvironmentOf e a).objects = a.objects := by
  unfold withEnvironmentOf
  split <;> rfl

theorem ending (f : Agent → Agent) (hf : ∀ a, (f a).objects = a.objects) (h : Moving p) :
    Moving (Eval.ending p f) := fun a => by
  rw [after_ending]
  exact (h a).trans (.of_same (hf _))

theorem setEnvironment (e : EnvironmentId) : Moving (Eval.setEnvironment e) := by
  refine creation.bind creation.get fun a => ?_
  split
  · exact still fun _ => rfl
  · exact creation.throw _

theorem inEnvironment (e : EnvironmentId) (h : Moving p) : Moving (Eval.inEnvironment e p) := by
  refine creation.bind creation.environment fun old => creation.bind (setEnvironment e) fun _ => ?_
  exact ending _ (objects_withEnvironmentOf old) h

theorem tidy (t : Tidying) (a : Agent) : (t.apply a).objects = a.objects := by
  cases t with
  | nothing | removal => rfl
  | collection =>
    change a.collect.objects = _
    unfold Agent.collect
    split <;> rfl

theorem concluding (t : Tidying) {p : Eval Value} (h : Moving p) :
    Moving (Eval.concluding t.apply p) := by
  have hreport : ∀ (a : Agent) v, (a.reportUncaught v).objects = a.objects := by
    intro a v
    unfold Agent.reportUncaught
    split <;> rfl
  intro a
  rcases after_concluding t.apply p a with heq | ⟨v, heq⟩
  · exact heq ▸ (h a).trans (.of_same (tidy t _))
  · exact heq ▸ (h a).trans (.of_same ((hreport _ v).trans (tidy t _)))

end Moving

/-- **The law of computations that move keys.** -/
def keeping : SessionLaw where
  Holds := Moving
  CountsOnKeys := True
  pure := Moving.creation.pure
  throw := Moving.creation.throw
  get := Moving.creation.get
  bindOf := Moving.creation.bindOf
  catching := Leads.catching .trans
  followedBy := Leads.followedBy .trans
  joining := fun o h => Moving.creation.bind (Moving.still fun _ => rfl) fun _ =>
    Moving.ending _ (fun _ => rfl) h
  adjust := fun f hf => Moving.still fun a => (hf a).objects
  newRealm := fun _ _ => Moving.still fun _ => rfl
  allocate := Moving.creation.allocate
  method := fun _ => .method .refl fun _ _ => .single (.new (Object.isKeyed_ofKind nofun))
  functionValue := Moving.creation.functionValue
  templateObject := fun t => Moving.creation.templateObject t fun _ _ => Moving.still fun _ => rfl
  causedError := Moving.creation.causedError
  nameFunction := fun v name => by
    cases v with
    | object i => exact Moving.modifyObject i fun o => o.turn_withName name
    | _ => exact Moving.creation.pure _
  freeze := fun v => by
    cases v with
    | object i => exact Moving.modifyObject i Object.turn_freeze
    | _ => exact Moving.creation.pure _
  delete := fun i k => Moving.changeObject i (fun o => o.turn_delete k) true
  setLength := fun i _ hn => Moving.changeObject i (fun o => o.turn_setLength hn) false
  write := fun i k v _ hp => Moving.write i k v hp
  define := fun i k v => Moving.changeObject i (fun o => o.turn_define k v) false
  changeArray := Moving.changeArray
  growArray := Moving.growArray
  deleteVariable := Moving.creation.deleteVariable
  Roams := Moving
  roam := id
  bindRoaming := Moving.creation.bind
  iterateRoaming := Leads.iterate .refl .trans
  setEnvironment := Moving.setEnvironment
  inEnvironment := Moving.inEnvironment
  inContext := fun c h => Moving.creation.bind (Moving.still fun _ => rfl) fun _ =>
    Moving.ending _ (fun _ => rfl) h
  newEnvironment := Moving.creation.newEnvironment
  createVariable := fun e _ _ _ => Moving.creation.updateEnvironment e _
  initializeVariable := Moving.creation.initializeVariable
  writeVariable := Moving.creation.writeVariable
  tidy := fun t => Moving.still (Moving.tidy t)
  concluding := fun t h => Moving.concluding t h

/-- **Keys move by every task.** -/
theorem moves_run (n : Nat) {α : Type} (t : Task α) : Moving (Task.run n t) := keeping.ofDepth n t

/-- **Keys move by whatever a host asks for.** -/
theorem moves_answer (n : Nat) (r : Request) (t : Tidying) : Moving (r.answer (.ofDepth n) t) :=
  SessionLaw.answer (keeping.ofDepth n) t r

/-- What an agent has come to has moved there from nothing. -/
theorem moves_ofRequests (n : Nat) (isVerbose : Bool) (requests : List (Request × Tidying)) :
    (Agent.new isVerbose).Moves (Agent.ofRequests n isVerbose requests) :=
  leads_ofRequests .refl .trans (moves_answer n) isVerbose requests

/-- The objects of whatever agent there is are keyed. -/
theorem isKeyed_ofRequests (n : Nat) (isVerbose : Bool) (requests : List (Request × Tidying)) :
    (Agent.ofRequests n isVerbose requests).IsKeyed :=
  (moves_ofRequests n isVerbose requests).isKeyed (Agent.isKeyed_new isVerbose)

/-! ### The order of creation -/

/-- An object that there is has a key in its list. -/
def Objects.Lists (l : Array Object) (i : Nat) (k : PropertyKey) : Prop :=
  ∃ o, l[i]? = some o ∧ k ∈ o.created

/-- An object that there is has a key in its list, and another one, if at all, behind it. -/
def Objects.Precedes (l : Array Object) (i : Nat) (k k' : PropertyKey) : Prop :=
  ∃ o, l[i]? = some o ∧ k ∈ o.created ∧ (k' ∈ o.created → [k, k'].Sublist o.created)

theorem filter_pair {p : PropertyKey → Bool} (hk : p k = true) (hk' : p k' = true) :
    [k, k'].filter p = [k, k'] := by
  rw [List.filter_cons_of_pos hk, List.filter_cons_of_pos hk', List.filter_nil]

/-- A change that does not delete a key leaves it in front of what is behind it. -/
theorem Object.Turn.precedes {o x : Object} (h : o.Turn x) (hk : k ∈ o.created) (hx : k ∈ x.created)
    (ho : k' ∈ o.created → [k, k'].Sublist o.created) (hx' : k' ∈ x.created) :
    [k, k'].Sublist x.created := by
  obtain heq | ⟨new, -, -, heq⟩ | ⟨gone, heq⟩ := h.created
  · rw [heq] at hx' ⊢
    exact ho hx'
  · rw [heq] at hx' ⊢
    rcases List.mem_append.mp hx' with hx' | hx'
    · exact (ho hx').trans (List.sublist_append_left _ _)
    · rw [List.mem_singleton.mp hx']
      exact (List.singleton_sublist.mpr hk).append (List.Sublist.refl [new])
  · rw [heq] at hx hx' ⊢
    obtain ⟨hmem, hkept⟩ := List.mem_filter.mp hx'
    have hpair := filter_pair (p := fun k => !(k == gone)) (List.mem_filter.mp hx).2 hkept
    exact hpair ▸ (ho hmem).filter _

/-- **One move** that does not delete a key leaves it in front of what is behind it. -/
theorem Objects.Move.precedes (h : Objects.Move l l') (hl : Objects.Precedes l i k k')
    (hk : Objects.Lists l' i k) : Objects.Precedes l' i k k' := by
  obtain ⟨o, ho, hmem, hbehind⟩ := hl
  obtain ⟨x, hx, hxmem⟩ := hk
  refine ⟨x, hx, hxmem, ?_⟩
  -- A move leaves the object alone or turns it, and a turn puts nothing in front of a key that
  -- stays.
  cases h with
  | new hnew =>
    rw [Array.getElem?_push, if_neg (Nat.ne_of_lt (Array.getElem?_eq_some_iff.mp ho).1), ho] at hx
    cases hx
    exact hbehind
  | turn id hid hturn =>
    rw [Array.getElem?_setIfInBounds] at hx
    split at hx
    · next hsame =>
      subst hsame
      cases ho.symm.trans hid
      rw [if_pos (Array.getElem?_eq_some_iff.mp ho).1] at hx
      cases hx
      exact hturn.precedes hmem hxmem hbehind
    · cases hx.symm.trans ho
      exact hbehind

/-- **A key comes before those that were created after it**, as long as it is not deleted. -/
theorem Objects.precedes_of_moves (h : ReflTransGen (fun l l' => Objects.Move l l' ∧
      Objects.Lists l' i k) l l') (hk : Objects.Lists l i k) (hk' : ¬Objects.Lists l i k') :
    Objects.Precedes l' i k k' := by
  induction h with
  | refl =>
    obtain ⟨o, ho, hmem⟩ := hk
    exact ⟨o, ho, hmem, fun hmem' => absurd ⟨o, ho, hmem'⟩ hk'⟩
  | tail _ hmove ih => exact hmove.1.precedes ih hmove.2

/-- Keys that are no indices, of which one precedes the other, are listed in that order if both are
symbols or neither is. -/
theorem Object.IsKeyed.sublist_ownKeys {o : Object} (h : o.IsKeyed) (hsub : [k, k'].Sublist o.created)
    (hgroup : k.isSymbol = k'.isSymbol) (hk : k.arrayIndex? = none) (hk' : k'.arrayIndex? = none) :
    [k, k'].Sublist o.ownKeys := by
  have hfilter : ∀ p : PropertyKey → Bool, p k = true → p k' = true →
      [k, k'].Sublist (o.created.filter p) := fun p hp hp' => filter_pair hp hp' ▸ hsub.filter p
  rw [h.ownKeys_eq]
  cases hs : k.isSymbol with
  | true => exact (hfilter _ hs (hgroup ▸ hs)).trans (List.sublist_append_right _ _)
  | false =>
    have hnames : [k, k'].Sublist o.nameKeys := by
      refine (hfilter isNameKey ?_ ?_).trans (List.sublist_append_right _ _)
      · rw [isNameKey, hs, hk]
        rfl
      · rw [isNameKey, ← hgroup, hs, hk']
        rfl
    exact (hnames.trans (List.sublist_append_right _ _)).trans (List.sublist_append_left _ _)

/-! ### All objects -/

/-- The keys of an object are those of its properties, each of them once, and in order; and changes
of single properties leave them in order. -/
structure Object.IsInOrder (o : Object) : Prop where
  distinct : o.created.Nodup
  listed : o.isArray = true → ∀ k ∈ o.created, k.arrayIndex? = none ∧ k.isNamed "length" = false
  nodup : o.ownKeys.Nodup
  mem : ∀ k, k ∈ o.ownKeys ↔ o.hasOwn k = true
  groups : o.ownKeys = o.indices.map .ofNat ++ o.nameKeys ++ o.symbolKeys
  ascending : o.indices.Pairwise (· < ·)
  written : ∀ k v, o.hasOwn k = true → ¬(k.isNamed "length" = true ∧ o.isArray = true) →
    (o.write k v).2.ownKeys = o.ownKeys
  defined : ∀ k v, o.hasOwn k = true → (o.define k v).2.ownKeys = o.ownKeys
  recreated : ∀ k v x, o.hasOwn k = true → (o.delete k).1 = true →
    ((o.delete k).2.write k v = (true, x) ∨ (o.delete k).2.define k v = (true, x)) →
    x.ownKeys = o.indices.map .ofNat
      ++ (o.nameKeys.filter (fun k' => !(k' == k)) ++ [k].filter isNameKey)
      ++ (o.symbolKeys.filter (fun k' => !(k' == k)) ++ [k].filter (·.isSymbol))

theorem Object.IsKeyed.isInOrder {o : Object} (h : o.IsKeyed) : o.IsInOrder where
  distinct := h.distinct
  listed := h.listed
  nodup := h.nodup_ownKeys
  mem := fun _ => h.mem_ownKeys
  groups := h.ownKeys_eq
  ascending := h.ascending_indices
  written := fun _ v hk hlength => ownKeys_write h v hk hlength
  defined := fun _ v hk => ownKeys_define h v hk
  recreated := fun k v x hk hd hx => by
    have hrecreated := recreated_of_delete h hk hd hx
    rw [hrecreated.isKeyed.ownKeys_eq, hrecreated.indices_eq, hrecreated.nameKeys_eq,
      hrecreated.symbolKeys_eq]

/-- **The keys of every object are in order**, whatever is evaluated.  All that tasks, and whatever a
host asks for, do to the objects are moves from one state to the next; and in every state that there is
on the way from nothing the keys of an object are those of its properties, each of them once: the
indices ascending, then the other texts and the symbols, each in the order in which they were created.
What is overwritten keeps its place, and what is deleted and created again is the last of its kind. -/
theorem ownKeys_in_order :
    (∀ (n : Nat) {α : Type} (t : Task α) (a : Agent), a.IsKeyed →
      ReflTransGen Objects.Move a.objects ((Task.run n t).after a).objects) ∧
    (∀ (n : Nat) (isVerbose : Bool) (requests : List (Request × Tidying)),
      ReflTransGen Objects.Move #[] (Agent.ofRequests n isVerbose requests).objects) ∧
    (∀ l : Array Object, ReflTransGen Objects.Move #[] l → ∀ o ∈ l, o.IsInOrder) ∧
    ∀ (l l' : Array Object) (i : Nat) (k k' : PropertyKey) (o : Object),
      ReflTransGen Objects.Move #[] l → Objects.Lists l i k → ¬Objects.Lists l i k' →
      ReflTransGen (fun l l' => Objects.Move l l' ∧ Objects.Lists l' i k) l l' →
      l'[i]? = some o → k' ∈ o.created → k.isSymbol = k'.isSymbol → k.arrayIndex? = none →
      k'.arrayIndex? = none → [k, k'].Sublist o.ownKeys := by
  have hkeyed : ∀ l : Array Object, ReflTransGen Objects.Move #[] l → ∀ o ∈ l, o.IsKeyed :=
    fun l hl => Objects.keyed_of_moves hl fun o ho => absurd ho (Array.not_mem_empty o)
  refine ⟨fun n _ t a ha => moves_run n t a ha, fun n isVerbose requests => ?_,
    fun l hl o ho => (hkeyed l hl o ho).isInOrder,
    fun l l' i k k' o hl hk hk' hmoves ho hmem hgroup hnot hnot' => ?_⟩
  · exact moves_ofRequests n isVerbose requests (Agent.isKeyed_new isVerbose)
  · obtain ⟨x, hx, -, hbehind⟩ := Objects.precedes_of_moves hmoves hk hk'
    cases hx.symm.trans ho
    have hall : (fun l l' => Objects.Move l l' ∧ Objects.Lists l' i k) ≤ Objects.Move :=
      fun _ _ h => h.1
    have hl' : ReflTransGen Objects.Move #[] l' := hl.trans (ReflTransGen.mono hall _ _ hmoves)
    exact (hkeyed l' hl' o (Array.mem_of_getElem? ho)).sublist_ownKeys (hbehind hmem) hgroup hnot hnot'

/-- An agent that has two objects, and a function that assigns the properties of one to another. -/
def Agent.withObjects : Agent :=
  { Agent.new false with
    objects := #[⟨.ordinary, true, #[.data "b" .null]⟩,
      ⟨.ordinary, true, #[.data "a" .null, .data (.ofNat 1) .null, .data "b" (.boolean true)]⟩,
      .ofKind (.builtin (.object .assign))] }

theorem Agent.moves_withObjects :
    ReflTransGen Objects.Move #[] Agent.withObjects.objects ∧ Agent.withObjects.IsKeyed := by
  have hfirst : Object.IsKeyed ⟨.ordinary, true, #[.data "b" .null]⟩ :=
    Object.isKeyed_of_distinct rfl (List.nodup_singleton _)
  have hsecond : Object.IsKeyed ⟨.ordinary, true,
      #[.data "a" .null, .data (.ofNat 1) .null, .data "b" (.boolean true)]⟩ :=
    Object.isKeyed_of_distinct rfl (by decide +kernel)
  have hthird : (Object.ofKind (.builtin (.object .assign))).IsKeyed := Object.isKeyed_ofKind nofun
  have hmoves : ReflTransGen Objects.Move #[] Agent.withObjects.objects :=
    ((ReflTransGen.single (.new hfirst)).tail (.new hsecond)).tail (.new hthird)
  exact ⟨hmoves, Objects.keyed_of_moves hmoves fun o ho => absurd ho (Array.not_mem_empty o)⟩

/-- The properties of the second object are assigned to the first one, of which one is there already;
the others come behind it, but the index. -/
theorem ownKeys_in_order_assigned :
    let b := (Task.run 3 (.call ⟨2⟩ .undefined [.object ⟨0⟩, .object ⟨1⟩])).after Agent.withObjects
    ((b.object ⟨0⟩).ownKeys = [PropertyKey.ofNat 1, ("b" : PropertyKey), ("a" : PropertyKey)] ∧
      (b.object ⟨0⟩).IsInOrder) ∧
    [("b" : PropertyKey), ("a" : PropertyKey)].Sublist
      ((Agent.withObjects.object ⟨0⟩).define "a" .null).2.ownKeys := by
  obtain ⟨hmoves, hkeyed⟩ := Agent.moves_withObjects
  have hrun := ownKeys_in_order.1 3 (.call ⟨2⟩ .undefined [.object ⟨0⟩, .object ⟨1⟩]) _ hkeyed
  have hsize : 0 < ((Task.run 3 (.call ⟨2⟩ .undefined [.object ⟨0⟩, .object ⟨1⟩])).after
      Agent.withObjects).objects.size := by decide +kernel
  refine ⟨⟨by decide +kernel, ownKeys_in_order.2.2.1 _ (hmoves.trans hrun) _ ?_⟩, ?_⟩
  · rw [Agent.object, Array.getD, dif_pos hsize]
    exact Array.getElem_mem hsize
  · refine ownKeys_in_order.2.2.2 _ _ 0 "b" "a" _ hmoves ⟨_, rfl, by decide +kernel⟩ ?_
      (.single ⟨.turn ⟨0⟩ rfl (Object.turn_define _ _ _), _, rfl, ?_⟩) rfl ?_ rfl ?_ ?_
    · rintro ⟨o, ho, hmem⟩
      cases ho
      exact absurd hmem (by decide +kernel)
    all_goals decide +kernel

end Scriptlet
