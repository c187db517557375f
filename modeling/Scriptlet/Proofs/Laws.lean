import Scriptlet.Proofs.Keys

/-!
# Laws of evaluation

Everything but declarations is evaluated by few pieces: computations one after the other, loops,
handlers, and the primitives that touch an agent.  A property of computations that these pieces hand
on or have is a property of all such tasks.  This is the place where the definitions of the evaluation
are gone through; whoever wants to know that no run does something has to look at the pieces, and at
the tasks that declare names.  Assignments to names are set apart, as there are properties that they do
not have.

The lemmas follow the definitions one by one.  Where a definition is recursive the proof is by
induction on its list; the pieces of the others are found by the automation, with the definitions of
a few that have many cases divided by hand.

## Main definitions

* `Law` — a property of computations that the pieces of the evaluation have.
* `Task.IsPlain` — tasks that neither declare names nor assign to any.
* `Law.Obeys` — a machine that does every such task by a computation with the property.
* `Law.Assigns` — a machine that assigns to names by computations with the property.

## Main results

* `Law.step` — **a machine that does its tasks with one that obeys a law obeys the law**, if its calls
  and its assignments do.
* `Law.attempt`, `Law.whileLoop`, `Law.forEach` and their like — statements whose parts have the
  property.
-/

namespace Scriptlet

open Eval

/-- Tasks that neither declare names nor assign to any. -/
inductive Task.IsPlain : {α : Type} → Task α → Prop
  | expression (e) : IsPlain (.expression e)
  | name (place name) : IsPlain (.name place name)
  | link (e) : IsPlain (.link e)
  | call (f this args) : IsPlain (.call f this args)
  | primitive (o hint) : IsPlain (.primitive o hint)

attribute [grind .] Task.IsPlain.expression Task.IsPlain.name Task.IsPlain.link Task.IsPlain.call
  Task.IsPlain.primitive

/-- Whether the expression assigns to its operand. -/
def Expr.isAssigning : Expr → Bool
  | .assign _ _ _ _ | .update _ _ _ _ => true
  | _ => false

/-- The agents have the same objects, methods, environments and realms, and the same is being
evaluated. -/
structure Agent.IsLike (a b : Agent) : Prop where
  objects : b.objects = a.objects
  methods : b.methods = a.methods
  environments : b.environments = a.environments
  realms : b.realms = a.realms
  contexts : b.contexts = a.contexts
  joining : b.joining = a.joining

/-- A property of computations that is handed on by what computations are put together with, and that
the primitives have. -/
structure Law where
  /-- The property. -/
  Holds : {α : Type} → Eval α → Prop
  /-- Whether the property is about agents only whose objects are keyed. -/
  CountsOnKeys : Prop
  pure : ∀ {α : Type} (x : α), Holds (pure x)
  throw : ∀ {α : Type} (i : Interrupt), Holds (throw i : Eval α)
  get : Holds get
  bindOf : ∀ {α β : Type} {p : Eval α} {f : α → Eval β}, Holds p →
    (∀ a x b, (CountsOnKeys → a.IsKeyed) → p a = .ok x b → Holds (f x)) → Holds (p >>= f)
  catching : ∀ {α : Type} {p : Eval α} {f : Value → Eval α}, Holds p → (∀ v, Holds (f v)) →
    Holds (catching p f)
  followedBy : ∀ {p q : Eval Completion}, Holds p → Holds q → Holds (followedBy p q)
  joining : ∀ {α : Type} {p : Eval α} (o : ObjectId), Holds p → Holds (do
    modify fun a => { a with joining := o :: a.joining }
    ending p fun a => { a with joining := a.joining.erase o })
  adjust : ∀ {α : Type} (f : Agent → α × Agent), (∀ a : Agent, a.IsLike (f a).2) →
    Holds (modifyGet f)
  newRealm : ∀ r : Realm, r.templates = [] → Holds (newRealm r)
  allocate : ∀ o, (CountsOnKeys → o.IsKeyed) → Holds (allocate o)
  method : ∀ b, Holds (method b)
  functionValue : ∀ f, Holds (functionValue f)
  templateObject : ∀ t, Holds (templateObject t)
  causedError : ∀ kind message cause, Holds (do
    let id ← errorObject kind message
    setCause id cause
    return Value.object id)
  nameFunction : ∀ v name, Holds (nameFunction v name)
  freeze : ∀ v, Holds (freeze v)
  delete : ∀ id k, Holds (changeObject id (·.delete k) true)
  setLength : ∀ id n, n ≤ maxArrayLength → Holds (changeObject id (·.setLength n) false)
  write : ∀ id k v {p : Eval Bool}, Holds p → Holds (do
    if k.isNamed "length" && (← object id).isArray then p
    else changeObject id (·.write k v) false)
  define : ∀ id k v, Holds (changeObject id (·.define k v) false)
  changeArray : ∀ {α : Type} id (f : Elements Value → α × Elements Value) missing,
    (∀ e, e.IsSound → (f e).2.IsSound) → Holds (changeArray id f missing)
  growArray : ∀ id count f,
    (∀ e, e.IsStored → e.length + count ≤ maxArrayLength → (f e).IsSound) → Holds (growArray id count f)
  deleteVariable : ∀ e name, Holds (deleteVariable e name)

namespace Law

attribute [grind .] pure throw get method functionValue templateObject nameFunction freeze deleteVariable

attribute [grind ←] catching followedBy

attribute [grind .] Elements.isStored_slice Elements.isStored_ofPlaces Elements.isStored_ofList
  Elements.isStored_ofLength

variable {α β σ : Type} {L : Law}

/-! ### Sequences and loops -/

/-- **One after the other**, whatever the result of the first computation is. -/
@[grind ←]
theorem bind (L : Law) {p : Eval α} {f : α → Eval β} (hp : L.Holds p) (hf : ∀ x, L.Holds (f x)) :
    L.Holds (p >>= f) := L.bindOf hp fun _ x _ _ _ => hf x

/-- **A loop** whose state is of some kind in every round. -/
theorem iterateOf (L : Law) {p : σ → Eval (Sum σ α)} {I : σ → Prop} (hp : ∀ s, I s → L.Holds (p s))
    (hnext : ∀ s a s' b, I s → p s a = .ok (.inl s') b → I s') (n : Nat) {s : σ} (hs : I s) :
    L.Holds (iterate p n s) := by
  induction n generalizing s with
  | zero => exact L.throw _
  | succ n ih =>
    rw [iterate_succ]
    refine L.bindOf (hp s hs) fun a x b _ hx => ?_
    cases x with
    | inl s' => exact ih (hnext s a s' b hs hx)
    | inr r => exact L.pure r

/-- A loop, whatever the state of its rounds is. -/
@[grind ←]
theorem iterate (L : Law) {p : σ → Eval (Sum σ α)} (hp : ∀ s, L.Holds (p s)) (n : Nat) (s : σ) :
    L.Holds (iterate p n s) :=
  L.iterateOf (I := fun _ => True) (fun s _ => hp s) (fun _ _ _ _ _ _ => trivial) n trivial

/-! ### Lists -/

/-- A computation for each element of a list, with the list of the results. -/
@[grind ←]
theorem mapM {f : α → Eval β} (hf : ∀ x, L.Holds (f x)) (l : List α) : L.Holds (l.mapM f) := by
  induction l with
  | nil => exact L.pure []
  | cons x l ih =>
    rw [List.mapM_cons]
    grind

/-- A computation for each element of a list, without results. -/
@[grind ←]
theorem forM {f : α → Eval PUnit} (hf : ∀ x, L.Holds (f x)) (l : List α) :
    L.Holds (l.forM f) := by
  induction l with
  | nil => exact L.pure ()
  | cons x l ih => exact L.bind (hf x) fun _ => ih

/-! ### Agents -/

section Agents

variable (e : EnvironmentId) (name : String) (id : ObjectId) (v : Value) (k : PropertyKey)
  (place : Span)

/-- A new array: if it were too long, something would be thrown instead. -/
@[grind ←]
theorem allocateArray {es : Elements Value} (hes : L.CountsOnKeys → es.IsStored) :
    L.Holds (allocateArray es) := by
  unfold Eval.allocateArray
  split
  · exact L.throw _
  · next hlength =>
    exact L.allocate _ fun h => Object.isKeyed_array ⟨hes h, Nat.le_of_not_lt hlength⟩

@[grind .]
theorem emptyObject : L.Holds emptyObject := L.allocate _ fun _ => Object.isKeyed_ofKind nofun

/-- A new error has one property at most, so that no two of its keys are the same. -/
@[grind .]
theorem errorObject (kind : ErrorKind) (message : Option Text) :
    L.Holds (errorObject kind message) := L.allocate _ fun _ => by
  refine Object.isKeyed_of_distinct rfl ?_
  cases message with
  | none => exact List.nodup_nil
  | some t => exact List.nodup_singleton _

/-- What is thrown is allocated first. -/
@[grind .]
theorem raise (kind : ErrorKind) (message : String) : L.Holds (raise kind message : Eval α) := by
  unfold Eval.raise
  grind

/-- What is being evaluated is only looked at, and something is thrown if that is nothing. -/
@[grind .]
theorem context : L.Holds context := by
  unfold Eval.context
  grind

@[grind .]
theorem environment : L.Holds environment := by
  unfold Eval.environment
  grind

@[grind .]
theorem realmAt (r : RealmId) : L.Holds (realmAt r) := by
  unfold Eval.realmAt
  grind

@[grind .]
theorem realm : L.Holds realm := by
  unfold Eval.realm
  grind

/-- A scope that the analysis has not found breaks the computation. -/
@[grind .]
theorem scopeAt (s : Scope) : L.Holds (scopeAt place s) := by
  unfold Eval.scopeAt
  grind

@[grind .]
theorem object : L.Holds (object id) := by
  unfold Eval.object
  grind

/-- An event changes the records of the agent, if at all, and no law is about them. -/
@[grind .]
theorem recordIn (r : RealmId) (event : Event) : L.Holds (recordIn r event) := by
  unfold Eval.recordIn
  refine L.bind (realmAt r) fun r => ?_
  split
  · exact L.adjust _ fun a => ⟨rfl, rfl, rfl, rfl, rfl, rfl⟩
  · exact L.pure _

theorem recordCall (c : Closure) : L.Holds (recordCall c) := by
  unfold Eval.recordCall
  split
  · exact recordIn _ _
  · exact L.pure _

/-- A report changes the reports of the agent, if at all. -/
theorem report (r : Report) : L.Holds (report r) :=
  L.adjust _ fun a => by dsimp only; split <;> exact ⟨rfl, rfl, rfl, rfl, rfl, rfl⟩

@[grind .]
theorem record (event : Event) : L.Holds (record event) := by
  unfold Eval.record
  grind

/-- The text of a place is that of the root which is being evaluated. -/
@[grind .]
theorem sourceText : L.Holds (sourceText place) := by
  unfold Eval.sourceText
  grind

/-- A node that is not supported is refused by an error that quotes it. -/
@[grind .]
theorem unsupported (kind : String) : L.Holds (unsupported kind place : Eval α) := by
  unfold Eval.unsupported
  grind

/-- An environment that is not there breaks the computation. -/
@[grind .]
theorem environmentAt : L.Holds (environmentAt e) := by
  unfold Eval.environmentAt
  grind

@[grind .]
theorem hasVariable : L.Holds (hasVariable e name) := by
  unfold Eval.hasVariable
  grind

/-- A variable without value is refused by an error. -/
@[grind .]
theorem readVariable : L.Holds (readVariable e name) := by
  unfold Eval.readVariable
  grind

/-- A list of values is stored whatever the values are. -/
@[grind .]
theorem arrayOf (values : List Value) : L.Holds (arrayOf values) := by
  unfold Eval.arrayOf
  grind

/-- A method that values have in common is made when it is looked up for the first time. -/
@[grind .]
theorem common? : L.Holds (common? v k) := by
  unfold Eval.common?
  grind

/-- An object's own property is looked up first, and then the methods of its kind. -/
@[grind .]
theorem getFrom : L.Holds (getFrom id k) := by
  unfold Eval.getFrom
  grind

/-- Values that are no objects have methods only. -/
@[grind .]
theorem getOf : L.Holds (getOf v k) := by
  unfold Eval.getOf
  grind

@[grind .]
theorem defineOn : L.Holds (defineOn id k v) := by
  have h := L.define id k v
  unfold Eval.defineOn
  grind

/-- Properties are defined one after the other. -/
@[grind .]
theorem defineAll (l : List (PropertyKey × Value)) : L.Holds (defineAll id l) := by
  induction l with
  | nil => exact L.pure ()
  | cons p l ih =>
    unfold Eval.defineAll
    grind

@[grind .]
theorem copied : L.Holds (copied v) := by
  unfold Eval.copied
  grind

/-- The properties of the source are listed before the first of them is defined. -/
@[grind .]
theorem copyProperties (excluded : List PropertyKey) :
    L.Holds (copyProperties id v excluded) := by
  unfold Eval.copyProperties
  grind

@[grind .]
theorem keysOf : L.Holds (keysOf id) := by
  unfold Eval.keysOf
  grind

/-- A walk over an array or a text begins; other values are refused. -/
@[grind .]
theorem startWalk : L.Holds (startWalk v) := by
  unfold Eval.startWalk
  grind

/-- The array is looked at again in every step of the walk. -/
@[grind .]
theorem nextOf (w : Walk) : L.Holds (nextOf w) := by
  unfold Eval.nextOf
  grind

@[grind .]
theorem restOf (w : Walk) : L.Holds (restOf w) := by
  unfold Eval.restOf
  grind

@[grind .]
theorem itemsOf : L.Holds (itemsOf v) := by
  unfold Eval.itemsOf
  grind

/-- What is called has to be a function, or else an error quotes the source. -/
@[grind .]
theorem requireFunction : L.Holds (requireFunction v place) := by
  unfold Eval.requireFunction
  grind

@[grind .]
theorem requireParts : L.Holds (requireParts v) := by
  unfold Eval.requireParts
  grind

@[grind .]
theorem callable : L.Holds (callable v) := by
  unfold Eval.callable
  grind

@[grind .]
theorem notAnObject : L.Holds (notAnObject : Eval α) := by
  unfold Eval.notAnObject
  grind

end Agents

/-! ### References -/

section References

variable (v : Value) (k : PropertyKey) (r : Reference)

/-- A name is looked up from the innermost environment outwards. -/
@[grind .]
theorem resolve (name : String) : L.Holds (resolve name) := by
  unfold Eval.resolve
  grind

/-- The two kinds of references are variables and properties. -/
@[grind .]
theorem readReference : L.Holds (readReference r) := by
  unfold Eval.readReference
  grind

/-- Only objects have properties that can be deleted. -/
@[grind .]
theorem deleteProperty : L.Holds (deleteProperty v k) := by
  cases v with
  | object id => exact L.delete id k
  | _ =>
    unfold Eval.deleteProperty
    grind

@[grind .]
theorem deleteReference : L.Holds (deleteReference r) := by
  unfold Eval.deleteReference
  grind

end References

/-! ### Arrays and other values -/

section Values

variable (v : Value) (id : ObjectId)

@[grind .]
theorem numberOf : L.Holds (numberOf v) := by
  unfold Eval.numberOf
  grind

@[grind .]
theorem textOf : L.Holds (textOf v) := by
  unfold Eval.textOf
  grind

/-- Texts that would be too long are refused. -/
@[grind .]
theorem tooLong : L.Holds (tooLong : Eval α) := by
  unfold Eval.tooLong
  grind

@[grind .]
theorem isLessPrimitive? (w : Value) : L.Holds (Machine.isLessPrimitive? v w) := by
  unfold Machine.isLessPrimitive?
  grind

@[grind .]
theorem invalidLength : L.Holds (invalidLength : Eval α) := by
  unfold Eval.invalidLength
  grind

/-- The methods of arrays refuse everything else. -/
@[grind .]
theorem thisArray (f : ArrayMethod) : L.Holds (thisArray f v) := by
  unfold Eval.thisArray
  grind

/-- The elements are read off the agent as they are. -/
@[grind .]
theorem elementsOf : L.Holds (elementsOf id) := by
  unfold Eval.elementsOf
  grind

@[grind .]
theorem appendValue (e : Elements Value) : L.Holds (appendValue e v) := by
  unfold Eval.appendValue
  grind

/-- Values are appended one by one, and arrays among them element by element. -/
@[grind .]
theorem appendAll (e : Elements Value) (values : List Value) :
    L.Holds (appendAll e values) := by
  induction values generalizing e with
  | nil => exact L.pure e
  | cons v l ih =>
    unfold Eval.appendAll
    grind

/-- A walk whose state is of some kind in every round. -/
theorem walkElementsOf {visit : σ → Nat → Value → Eval (Sum σ Value)} {finish : σ → Eval Value}
    {I : σ → Prop} (hvisit : ∀ s i v, I s → L.Holds (visit s i v))
    (hfinish : ∀ s, I s → L.Holds (finish s))
    (hnext : ∀ s i v a s' b, I s → visit s i v a = .ok (.inl s') b → I s') (start : Nat) {s : σ}
    (hs : I s) : L.Holds (walkElements id visit finish start s) := by
  unfold Eval.walkElements
  refine L.bind (elementsOf id) fun e => L.iterateOf (I := fun s => I s.2) (fun s hs => ?_)
    (fun s a s' b hs hround => ?_) _ hs
  · have hend := fun p => L.bind (hfinish s.2 hs) fun r => L.pure (.inr r : Sum p Value)
    refine L.bind (elementsOf id) fun e' => ?_
    split
    · exact hend _
    · split
      · exact hend _
      · refine L.bind (hvisit _ _ _ hs) fun r => ?_
        split <;> exact L.pure _
  · -- A round that is not the last one has called back, and goes on with what came of it.
    obtain ⟨e', c, -, hround⟩ := bind_eq_ok hround
    cases hnextPresent : e'.nextPresent? s.1 with
    | none =>
      rw [hnextPresent] at hround
      obtain ⟨r, d, -, hend⟩ := bind_eq_ok hround
      cases hend
    | some p =>
      rw [hnextPresent] at hround
      dsimp only at hround
      split at hround
      · obtain ⟨r, d, -, hend⟩ := bind_eq_ok hround
        cases hend
      · obtain ⟨r, d, hr, hend⟩ := bind_eq_ok hround
        cases r with
        | inl s'' =>
          cases hend
          exact hnext _ _ _ _ _ _ hs hr
        | inr r => cases hend

/-- A walk, whatever the state of its rounds is. -/
theorem walkElements {visit : σ → Nat → Value → Eval (Sum σ Value)} {finish : σ → Eval Value}
    (hvisit : ∀ s i v, L.Holds (visit s i v)) (hfinish : ∀ s, L.Holds (finish s)) (start : Nat)
    (s : σ) : L.Holds (walkElements id visit finish start s) :=
  walkElementsOf id (I := fun _ => True) (fun s i v _ => hvisit s i v) (fun s _ => hfinish s)
    (fun _ _ _ _ _ _ _ _ => trivial) start trivial

@[grind .]
theorem makeArray (args : List Value) : L.Holds (Machine.makeArray args) := by
  unfold Machine.makeArray
  grind

@[grind .]
theorem causeOf : L.Holds (causeOf v) := by
  unfold Eval.causeOf
  grind

/-- The methods of truth values convert nothing. -/
@[grind .]
theorem booleanMethod (f : BooleanMethod) : L.Holds (booleanMethod f v) := by
  unfold Eval.booleanMethod
  grind

/-- What is listed of a value are the properties of an object or the units of a text. -/
@[grind .]
theorem listedOf : L.Holds (listedOf v) := by
  unfold Eval.listedOf
  grind

@[grind .]
theorem isFrozen : L.Holds (isFrozen v) := by
  unfold Eval.isFrozen
  grind

/-- Whether there is a property is looked up on the object itself. -/
@[grind .]
theorem hasOwn (k : PropertyKey) : L.Holds (hasOwn v k) := by
  unfold Eval.hasOwn
  grind

@[grind .]
theorem requireText (f : TextMethod) : L.Holds (requireText f v) := by
  unfold Eval.requireText
  grind

/-- The keys of a loop are listed once, before its first round. -/
@[grind .]
theorem loopKeys : L.Holds (Machine.loopKeys v) := by
  unfold Machine.loopKeys
  grind

end Values

/-- A function object belongs to the realm of what is being evaluated. -/
@[grind .]
theorem closure (L : Law) (f : Function) (e : EnvironmentId) (name : String) :
    L.Holds (closure f e name) := by
  refine L.bind context fun c => ?_
  exact L.bind (L.allocate _ fun _ => Object.isKeyed_ofKind nofun) fun _ => L.pure _

/-- The function that a statement declares has the name of the statement. -/
@[grind .]
theorem declaredFunction (L : Law) (f : Function) (e : EnvironmentId) :
    L.Holds (declaredFunction f e) := by
  unfold Eval.declaredFunction
  grind

/-! ### Standard globals -/

section Globals

variable (L)

/-- A built-in function is an object without properties of its own. -/
theorem builtin (b : Builtin) : L.Holds (builtin b) :=
  L.bind (L.allocate _ fun _ => Object.isKeyed_ofKind nofun) fun _ => L.pure _

/-- Built-in functions that become properties of a library. -/
theorem builtinSlots (f : α → Builtin) (l : List α) :
    L.Holds (l.mapM fun x => builtinSlot (f x)) :=
  mapM (fun x => L.bind (builtin L (f x)) fun _ => L.pure _) l

/-- A library whose properties have different keys. -/
theorem library {kind : ObjectKind} (hkind : ∀ e, kind ≠ .array e) {constants : List (String × Float)}
    {functions : List Slot} (hkeys : L.CountsOnKeys →
      (constants.map (fun p => (p.1 : PropertyKey)) ++ functions.map (·.key)).Nodup) :
    L.Holds (library kind constants functions) := by
  refine L.bind (L.allocate _ fun h => Object.isKeyed_of_distinct ?_ ?_) fun _ => L.pure _
  · cases kind with
    | array e => exact absurd rfl (hkind e)
    | _ => rfl
  · rw [Object.created, List.map_append, List.map_map]
    exact hkeys h

/-- A constructor whose functions have different names. -/
theorem constructorWith (c : Constructor) {functions : List Builtin}
    (hkeys : (functions.map fun b => (b.name : PropertyKey)).Nodup) :
    L.Holds (constructorWith c functions) := by
  refine L.bindOf (builtinSlots L id functions) fun a slots b _ hslots => ?_
  refine library L (by nofun) fun _ => ?_
  rw [List.map_nil, List.nil_append, keys_builtinSlots hslots]
  exact hkeys

/-- The libraries are made one after the other; that no two properties of one of them have the same
key is evaluated. -/
theorem standardGlobals : L.Holds standardGlobals := by
  have hb := builtin L
  have hc := @constructorWith L
  unfold Scriptlet.standardGlobals
  -- The keys of each library are given as literals, so that they are distinct is computed.
  refine L.bind (hb _) fun _ => L.bind (hb _) fun _ => L.bind (hc _ (by decide +kernel)) fun _ => ?_
  refine L.bind (hc _ (by decide +kernel)) fun _ => ?_
  refine L.bindOf (builtinSlots L _ _) fun a math b _ hmath => ?_
  refine L.bind (library L (by nofun) fun _ => ?_) fun _ => ?_
  · rw [keys_builtinSlots hmath]
    decide +kernel
  refine L.bindOf (builtinSlots L _ _) fun a number b _ hnumber => ?_
  refine L.bind (library L (by nofun) fun _ => ?_) fun _ => ?_
  · rw [List.map_append, keys_builtinSlots hnumber]
    change (_ ++ (_ ++ [("parseFloat" : PropertyKey), ("parseInt" : PropertyKey)])).Nodup
    decide +kernel
  refine L.bind (hc _ List.nodup_nil) fun _ => L.bind (hc _ List.nodup_nil) fun _ => ?_
  refine L.bind (mapM (fun k => ?_) globalErrors) fun _ => ?_
  · exact L.bind (hc _ List.nodup_nil) fun _ => L.pure _
  · exact L.bind (hb _) fun _ => L.bind (hb _) fun _ => L.pure _

end Globals

/-! ### Machines -/

/-- The machine does every task that neither declares names nor assigns to any by a computation with the
property. -/
def Obeys (L : Law) (m : Machine) : Prop := ∀ ⦃α : Type⦄ ⦃t : Task α⦄, t.IsPlain → L.Holds (m.run t)

/-- The machine assigns to names by computations with the property. -/
structure Assigns (L : Law) (m : Machine) : Prop where
  write : ∀ e name v, L.Holds (writeVariable e name v true)
  assign : ∀ t v, L.Holds (m.run (.assign t v))
  bind : ∀ p v, L.Holds (m.run (.bind p v none))

attribute [grind ←] Assigns.assign Assigns.bind

section Machines

variable {m : Machine} (hm : L.Obeys m)

include hm

/-- A task that neither declares names nor assigns to any. -/
@[grind ←]
theorem run {t : Task α} (ht : t.IsPlain) : L.Holds (m.run t) := hm ht

@[grind ←]
theorem expression (e : Expr) : L.Holds (m.expression e) := hm (.expression e)

@[grind ←]
theorem name (place : Span) (name : String) : L.Holds (m.name place name) := hm (.name place name)

/-- Calls are tasks, so the machine is asked and not the function looked at. -/
@[grind ←]
theorem call (f : ObjectId) (this : Value) (args : List Value) : L.Holds (m.call f this args) :=
  hm (.call f this args)

/-- Expressions are evaluated from left to right. -/
@[grind ←]
theorem expressions (es : List Expr) : L.Holds (m.expressions es) := by
  induction es with
  | nil => exact L.pure []
  | cons e es ih =>
    unfold Machine.expressions
    grind

/-! ### Conversions -/

section Conversions

variable (v w : Value) (o : ObjectId) (hint : Hint) (separator : Text) (name : String)

/-- Objects are converted by a task of their own. -/
@[grind ←]
theorem toPrimitive : L.Holds (m.toPrimitive v hint) := by
  unfold Machine.toPrimitive
  grind

/-- Numbers come of primitive values. -/
@[grind ←]
theorem toNumber : L.Holds (m.toNumber v) := by
  unfold Machine.toNumber
  grind

@[grind ←]
theorem toText : L.Holds (m.toText v) := by
  unfold Machine.toText
  grind

@[grind ←]
theorem toInteger : L.Holds (m.toInteger v) := by
  unfold Machine.toInteger
  grind

/-- Lengths come of numbers. -/
@[grind ←]
theorem toLength : L.Holds (m.toLength v) := by
  unfold Machine.toLength
  grind

@[grind ←]
theorem toKey : L.Holds (m.toKey v) := by
  unfold Machine.toKey
  grind

/-- One element is converted in each round, which may be a call. -/
@[grind ←]
theorem joinNext (length : Nat) (j : Machine.Joining) :
    L.Holds (m.joinNext o separator length j) := by
  unfold Machine.joinNext
  grind

/-- As many rounds are made as the array has elements at the beginning. -/
@[grind ←]
theorem joinElements : L.Holds (m.joinElements o separator) := by
  unfold Machine.joinElements
  grind

/-- While an array is being joined it is marked. -/
@[grind ←]
theorem join : L.Holds (m.join o separator) := by
  have h := L.joining o (joinElements hm o separator)
  unfold Machine.join
  grind

@[grind ←]
theorem errorPart (missing : Text) : L.Holds (m.errorPart o name missing) := by
  unfold Machine.errorPart
  grind

/-- The name and the message of an error are converted if they are there. -/
@[grind ←]
theorem errorText : L.Holds (m.errorText o) := by
  unfold Machine.errorText
  grind

@[grind ←]
theorem contentText : L.Holds (m.contentText o) := by
  unfold Machine.contentText
  grind

/-- An own method is asked before the methods of the kind, and what it gives is used if it is no
object. -/
@[grind ←]
theorem convertedBy : L.Holds (m.convertedBy o name) := by
  unfold Machine.convertedBy
  refine L.bind (object o) fun x => ?_
  split
  · grind
  · refine L.bind L.get fun a => ?_
    split
    · grind
    · next f _ =>
      refine L.bind (call hm f _ _) fun v => ?_
      split <;> exact L.pure _

/-- The methods are asked in the order of the hint, and then the content is taken. -/
@[grind ←]
theorem primitiveOf : L.Holds (m.primitiveOf o hint) := by
  unfold Machine.primitiveOf
  grind

/-- Both sides are converted, the left one first. -/
@[grind ←]
theorem isLess? : L.Holds (m.isLess? v w) := by
  unfold Machine.isLess?
  grind

@[grind ←]
theorem isGreater? : L.Holds (m.isGreater? v w) := by
  unfold Machine.isGreater?
  grind

@[grind ←]
theorem isLoosely : L.Holds (m.isLoosely v w) := by
  unfold Machine.isLoosely
  grind

end Conversions

/-! ### Assignments and patterns -/

section Bindings

variable (v : Value) (id : ObjectId) (k : PropertyKey) (e : Expr) (p : Pattern) (t : Target)
  (w : Walk) (keys : List PropertyKey)

/-- A new length is converted first, and refused if it is none; other properties are written as they
are. -/
@[grind ←]
theorem setOn : L.Holds (m.setOn id k v) := by
  unfold Machine.setOn
  refine L.write id k v (L.bind (toNumber hm v) fun x => ?_)
  dsimp only
  split
  · exact L.setLength id _ (Nat.le_sub_one_of_lt (Double.toUInt32_lt x))
  · exact raise _ _

/-- An assignment that is refused throws. -/
@[grind ←]
theorem assignOn : L.Holds (m.assignOn id k v) := by
  unfold Machine.assignOn
  grind

/-- Names are assigned to by the machine's other half, and properties by this one. -/
@[grind ←]
theorem writeReference (ha : L.Assigns m) (r : Reference) : L.Holds (m.writeReference r v) := by
  have hwrite := ha.write
  unfold Machine.writeReference
  grind

/-- A function without name gets that of the variable. -/
@[grind ←]
theorem named (name : String) : L.Holds (m.named e name) := by
  unfold Machine.named
  grind

@[grind ←]
theorem namedBy (name : Option String) : L.Holds (m.namedBy e name) := by
  unfold Machine.namedBy
  grind

@[grind ←]
theorem nameKey (n : PropertyName) : L.Holds (m.nameKey n) := by
  unfold Machine.nameKey
  grind

/-- Without a place, binding a name is assigning to it. -/
@[grind ←]
theorem bindName (ha : L.Assigns m) (name : String) : L.Holds (m.bindName name v none) := by
  unfold Machine.bindName
  grind

section Places

/-! The names of a pattern get their values as the parts of the pattern do. -/

variable {place : Option EnvironmentId} (hpart : ∀ p v, L.Holds (m.run (.bind p v place)))

include hpart

omit hm in
/-- The parts of an array's pattern, each with the next value of the walk. -/
theorem bindElements (ps : List (Option Pattern)) : L.Holds (m.bindElements place ps w) := by
  induction ps generalizing w with
  | nil => exact L.pure w
  | cons p ps ih =>
    cases p with
    | none =>
      unfold Machine.bindElements
      grind
    | some p =>
      unfold Machine.bindElements
      refine L.bind (nextOf w) fun x => L.bind (hpart p _) fun _ => ih _

/-- The parts of an object's pattern, each after its key has been evaluated. -/
theorem bindProperties (ps : List PatternProperty) :
    L.Holds (m.bindProperties place v ps keys) := by
  induction ps generalizing keys with
  | nil => exact L.pure keys
  | cons p ps ih =>
    unfold Machine.bindProperties
    refine L.bind (nameKey hm p.name) fun k => L.bind (getOf v k) fun w => ?_
    exact L.bind (hpart p.value w) fun _ => ih _

/-- A pattern is bound part by part, each of which is a task. -/
theorem bindPattern (hname : ∀ name v, L.Holds (m.bindName name v place)) :
    L.Holds (m.bindPattern p v place) := by
  cases p with
  | identifier name => exact hname name v
  | array elements rest =>
    -- Every part of the pattern is a task of its own, for which `hpart` stands.
    unfold Machine.bindPattern
    refine L.bind (startWalk v) fun w => L.bind (bindElements w hpart elements) fun w => ?_
    cases rest with
    | none => exact L.pure ()
    | some p => exact L.bind (restOf w) fun vs => L.bind (arrayOf vs) fun v => hpart p v
  | object properties rest =>
    unfold Machine.bindPattern
    refine L.bind (requireParts v) fun _ => ?_
    refine L.bind (bindProperties hm v [] hpart properties) fun keys => ?_
    cases rest with
    | none => exact L.pure ()
    | some p =>
      refine L.bind emptyObject fun id => L.bind (copyProperties id v keys) fun _ => ?_
      exact hpart p _
  | withDefault target initializer =>
    unfold Machine.bindPattern
    dsimp only
    split
    · exact L.bind (namedBy hm initializer _) fun v => hpart target v
    · exact hpart target v

end Places

/-- The operands of a reference are evaluated, and nothing else is done. -/
@[grind ←]
theorem referenceOf? : L.Holds (m.referenceOf? e) := by
  unfold Machine.referenceOf?
  grind

/-- A callee that is a property has its object as the receiver. -/
@[grind ←]
theorem callee : L.Holds (m.callee e) := by
  unfold Machine.callee
  grind

@[grind ←]
theorem targetReference? : L.Holds (m.targetReference? t) := by
  cases t <;> unfold Machine.targetReference? <;> grind

/-- A target that is no reference is assigned to as a pattern. -/
@[grind ←]
theorem assignAt (ha : L.Assigns m) (r : Option Reference) : L.Holds (m.assignAt t r v) := by
  unfold Machine.assignAt
  grind

/-- A default is evaluated if the value is missing. -/
@[grind ←]
theorem assignPart (ha : L.Assigns m) (part : TargetElement) (r : Option Reference) :
    L.Holds (m.assignPart part r v) := by
  unfold Machine.assignPart
  grind

/-- The parts of an array's target, each with the next value of the walk. -/
@[grind ←]
theorem assignElements (ha : L.Assigns m) (parts : List (Option TargetElement)) :
    L.Holds (m.assignElements parts w) := by
  induction parts generalizing w with
  | nil => exact L.pure w
  | cons p ps ih => cases p <;> unfold Machine.assignElements <;> grind

/-- The parts of an object's target, each after its key has been evaluated. -/
@[grind ←]
theorem assignProperties (ha : L.Assigns m) (parts : List TargetProperty) :
    L.Holds (m.assignProperties v parts keys) := by
  induction parts generalizing keys with
  | nil => exact L.pure keys
  | cons p ps ih => cases p <;> unfold Machine.assignProperties <;> grind

/-- A target is assigned to part by part. -/
@[grind ←]
theorem assignTarget (ha : L.Assigns m) : L.Holds (m.assignTarget t v) := by
  cases t with
  | array elements rest =>
    unfold Machine.assignTarget
    refine L.bind (startWalk v) fun w => L.bind (assignElements hm w ha elements) fun w => ?_
    grind
  | object properties rest =>
    unfold Machine.assignTarget
    refine L.bind (requireParts v) fun _ => ?_
    refine L.bind (assignProperties hm v [] ha properties) fun keys => ?_
    grind
  | _ =>
    unfold Machine.assignTarget
    grind

end Bindings

/-! ### Built-in functions -/

section Builtins

variable (v this : Value) (args : List Value) (t : Text) (id f : ObjectId)

@[grind ←]
theorem integerOr (missing : Float) : L.Holds (m.integerOr v missing) := by
  unfold Machine.integerOr
  grind

@[grind ←]
theorem indexOr (convert : Float → Nat) (missing : Nat) : L.Holds (m.indexOr v convert missing) := by
  unfold Machine.indexOr
  grind

@[grind ←]
theorem textOr (missing : Text) : L.Holds (m.textOr v missing) := by
  unfold Machine.textOr
  grind

/-- A callback gets the element, its index and the array. -/
@[grind ←]
theorem visitor (i : Nat) : L.Holds (m.visitor f this id i v) := by
  unfold Machine.visitor
  grind

/-- As many rounds are made as the array has elements at the beginning. -/
@[grind ←]
theorem find? (length : Nat) : L.Holds (m.find? f this id length) := by
  unfold Machine.find?
  grind

/-- A walk whose state is what the callback has returned. -/
@[grind ←]
theorem reduceFrom (start : Nat) : L.Holds (m.reduceFrom f id start v) := by
  unfold Machine.reduceFrom
  refine walkElements id (fun acc i v => ?_) (fun acc => L.pure acc) _ _
  grind

@[grind ←]
theorem reduce (start : Option Value) : L.Holds (m.reduce f id start) := by
  unfold Machine.reduce
  grind

/-- The values are all read before any of them is mapped. -/
@[grind ←]
theorem sourceValues : L.Holds (m.sourceValues v) := by
  unfold Machine.sourceValues
  grind

/-- The callback is called for one value after the other. -/
@[grind ←]
theorem mapValues (i : Nat) (values : List Value) : L.Holds (m.mapValues f this i values) := by
  induction values generalizing i with
  | nil => exact L.pure []
  | cons v l ih =>
    unfold Machine.mapValues
    grind

@[grind ←]
theorem arrayFunction (g : ArrayFunction) : L.Holds (m.arrayFunction g args) := by
  unfold Machine.arrayFunction
  grind

/-- The methods that call back differ in the states of their walks; only that of `map` is a list,
which is stored in every round. -/
@[grind ←]
theorem arrayVisit (g : ArrayMethod) : L.Holds (m.arrayVisit g id args) := by
  unfold Machine.arrayVisit
  refine L.bind (callable _) fun f => ?_
  cases g with
  | find | findIndex | reduce => grind
  | map =>
    refine L.bind (elementsOf id) fun e => ?_
    refine walkElementsOf id (I := Elements.IsStored) (fun _ i v _ => ?_) (fun e he => ?_)
      (fun e i v a e' b he hnext => ?_) _ (Elements.isStored_ofLength _)
    · grind
    · exact L.bind (allocateArray fun _ => he) fun _ => L.pure _
    · obtain ⟨w, c, -, hset⟩ := bind_eq_ok hnext
      cases hset
      exact he.set i w
  | _ => refine walkElements id (fun _ i v => ?_) (fun _ => ?_) _ _ <;> grind

omit hm in
/-- The list of a new array is stored, and not frozen, whether or not the first array is frozen. -/
theorem concat : L.Holds (do
    let e ← Eval.elementsOf id
    return Value.object (← Eval.allocateArray (← Eval.appendAll e.thawed args))) := by
  refine L.bindOf (Law.elementsOf id) fun a e b ha he => ?_
  cases he
  refine L.bindOf (Law.appendAll _ args) fun c e' d _ he' => ?_
  refine L.bind (allocateArray fun h => isStored_appendAll ?_ he') fun _ => L.pure _
  exact ((ha h).isStored_elements id).withFrozen false

/-- The start of a search is converted after the length is read. -/
@[grind ←]
theorem searchStart (length : Nat) : L.Holds (m.searchStart length v) := by
  unfold Machine.searchStart
  grind

/-- Methods that change an array check its elements when they change them, whatever has been called
before. -/
@[grind ←]
theorem arrayMethod (g : ArrayMethod) : L.Holds (m.arrayMethod g this args) := by
  unfold Machine.arrayMethod
  refine L.bind (thisArray this g) fun id => L.bind (elementsOf id) fun e => ?_
  cases g with
  | concat => exact concat args id
  | pop => exact L.bind (L.changeArray id _ _ fun _ h => h.pop) fun _ => L.pure _
  | shift => exact L.bind (L.changeArray id _ _ fun _ h => h.shift) fun _ => L.pure _
  | push => exact L.bind (L.growArray id _ _ fun _ h hroom => h.isSound_pushAll hroom) fun _ => L.pure _
  | unshift =>
    exact L.bind (L.growArray id _ _ fun _ h hroom => h.isSound_unshift hroom) fun _ => L.pure _
  | reverse => exact L.bind (L.changeArray id _ _ fun _ h => h.reverse) fun _ => L.pure _
  | _ =>
    dsimp only
    grind

@[grind ←]
theorem messageOf : L.Holds (m.messageOf v) := by
  unfold Machine.messageOf
  grind

/-- The message is converted before the cause is looked up. -/
@[grind ←]
theorem makeError (kind : ErrorKind) : L.Holds (m.makeError kind args) := by
  unfold Machine.makeError
  exact L.bind (messageOf hm _) fun _ => L.bind (causeOf _) fun _ => L.causedError kind _ _

/-- A constructor makes what its name says, also if it is called without `new`. -/
@[grind ←]
theorem make (c : Constructor) (isNew : Bool) : L.Holds (m.make c isNew args) := by
  unfold Machine.make
  grind

/-- Arguments are converted to numbers from left to right. -/
@[grind ←]
theorem numbers (values : List Value) : L.Holds (m.numbers values) := by
  induction values with
  | nil => exact L.pure []
  | cons v l ih =>
    unfold Machine.numbers
    grind

@[grind ←]
theorem onNumber (g : Float → Float) : L.Holds (m.onNumber g args) := by
  unfold Machine.onNumber
  grind

@[grind ←]
theorem mathFunction (g : MathFunction) : L.Holds (m.mathFunction g args) := by
  unfold Machine.mathFunction
  grind

@[grind ←]
theorem globalFunction (g : GlobalFunction) : L.Holds (m.globalFunction g args) := by
  unfold Machine.globalFunction
  grind

@[grind ←]
theorem fixedText (x : Float) : L.Holds (m.fixedText x v) := by
  unfold Machine.fixedText
  grind

/-- The radix is converted before the number is written. -/
@[grind ←]
theorem radixText (x : Float) : L.Holds (m.radixText x v) := by
  unfold Machine.radixText
  grind

@[grind ←]
theorem numberMethod (g : NumberMethod) : L.Holds (m.numberMethod g this args) := by
  unfold Machine.numberMethod
  grind

/-- One property after the other is read and assigned, as assigning may call. -/
@[grind ←]
theorem assignKeys (source : ObjectId) (keys : List PropertyKey) :
    L.Holds (m.assignKeys id source keys) := by
  induction keys with
  | nil => exact L.pure ()
  | cons k l ih =>
    unfold Machine.assignKeys
    grind

/-- One entry after the other is assigned. -/
@[grind ←]
theorem assignEntries (entries : List (PropertyKey × Value)) :
    L.Holds (m.assignEntries id entries) := by
  induction entries with
  | nil => exact L.pure ()
  | cons p l ih =>
    unfold Machine.assignEntries
    grind

/-- One source after the other; what has no properties is left out. -/
@[grind ←]
theorem assignSources (values : List Value) : L.Holds (m.assignSources id values) := by
  induction values with
  | nil => exact L.pure ()
  | cons v l ih => cases v <;> unfold Machine.assignSources <;> grind

/-- One entry is read in each round, and defined before the next one is read. -/
@[grind ←]
theorem objectOfEntries : L.Holds (m.objectOfEntries v) := by
  unfold Machine.objectOfEntries
  refine L.bind (startWalk v) fun w => L.bind emptyObject fun o => L.iterate (fun w => ?_) _ _
  refine L.bind (nextOf w) fun p => ?_
  split <;> grind

/-- The functions of the library for objects. -/
@[grind ←]
theorem objectFunction (g : ObjectFunction) : L.Holds (m.objectFunction g args) := by
  unfold Machine.objectFunction
  grind

/-- The methods that objects of all kinds have. -/
@[grind ←]
theorem objectMethod (g : ObjectMethod) : L.Holds (m.objectMethod g this args) := by
  unfold Machine.objectMethod
  grind

/-- The arguments of a call that are given as an array. -/
@[grind ←]
theorem argumentsOf : L.Holds (m.argumentsOf v) := by
  unfold Machine.argumentsOf
  grind

/-- A function's methods call it with another receiver. -/
@[grind ←]
theorem functionMethod (g : FunctionMethod) : L.Holds (m.functionMethod g this args) := by
  unfold Machine.functionMethod
  grind

@[grind ←]
theorem errorToString : L.Holds (m.errorToString this) := by
  unfold Machine.errorToString
  grind

/-- The methods of texts convert what they are called on, unless that is nothing. -/
@[grind ←]
theorem thisText (g : TextMethod) : L.Holds (m.thisText g this) := by
  unfold Machine.thisText
  grind

/-- The length is converted before the text that is filled in. -/
@[grind ←]
theorem padding : L.Holds (m.padding t args) := by
  unfold Machine.padding
  grind

@[grind ←]
theorem repeated : L.Holds (m.repeated t v) := by
  unfold Machine.repeated
  grind

@[grind ←]
theorem limitOf : L.Holds (m.limitOf v) := by
  unfold Machine.limitOf
  grind

/-- The limit is converted before the separator, and nothing is cut if it is zero. -/
@[grind ←]
theorem pieces : L.Holds (m.pieces t args) := by
  unfold Machine.pieces
  grind

@[grind ←]
theorem charAt : L.Holds (m.charAt t v) := by
  unfold Machine.charAt
  grind

/-- What is searched for is converted before the place where the search begins. -/
@[grind ←]
theorem search : L.Holds (m.search t args) := by
  unfold Machine.search
  grind

/-- The methods of a text that is there. -/
@[grind ←]
theorem textMethodOn (g : TextMethod) : L.Holds (m.textMethodOn g t args) := by
  unfold Machine.textMethodOn
  grind

@[grind ←]
theorem textMethod (g : TextMethod) : L.Holds (m.textMethod g this args) := by
  unfold Machine.textMethod
  grind

/-- All built-in functions, sorted by what they belong to. -/
@[grind ←]
theorem callBuiltin (b : Builtin) : L.Holds (m.callBuiltin b this args) := by
  unfold Machine.callBuiltin
  grind

end Builtins

/-! ### Expressions -/

section Expressions

variable (v w : Value) (e left right : Expr) (t : Target)

/-- Arguments are evaluated from left to right, and spread ones are walked over. -/
@[grind ←]
theorem arguments (as : List Argument) : L.Holds (m.arguments as) := by
  induction as with
  | nil => exact L.pure []
  | cons a l ih => cases a <;> unfold Machine.arguments <;> grind

/-- Elements are evaluated from left to right; holes stay holes. -/
@[grind ←]
theorem elements (es : List Element) : L.Holds (m.elements es) := by
  induction es with
  | nil => exact L.pure []
  | cons e l ih => cases e <;> unfold Machine.elements <;> grind

/-- Properties are defined in the order in which they are written. -/
@[grind ←]
theorem properties (o : ObjectId) (ps : List Property) : L.Holds (m.properties o ps) := by
  induction ps with
  | nil => exact L.pure ()
  | cons p l ih => cases p <;> unfold Machine.properties <;> grind

/-- The text of a template, with a value converted between two pieces. -/
@[grind ←]
theorem templateText (qs : List Quasi) (es : List Expr) (text : Text) :
    L.Holds (m.templateText qs es text) := by
  induction qs generalizing es text with
  | nil => exact L.pure text
  | cons q l ih => cases es <;> unfold Machine.templateText <;> grind

/-- The last value of a sequence is its result. -/
@[grind ←]
theorem sequence (es : List Expr) : L.Holds (m.sequence es v) := by
  induction es generalizing v with
  | nil => exact L.pure v
  | cons e l ih =>
    unfold Machine.sequence
    grind

/-- Both sides are converted before it is decided whether texts are put together. -/
@[grind ←]
theorem add : L.Holds (m.add v w) := by
  unfold Machine.add
  grind

@[grind ←]
theorem arithmetic (f : Float → Float → Float) : L.Holds (m.arithmetic f v w) := by
  unfold Machine.arithmetic
  grind

/-- The operators that evaluate both of their operands. -/
@[grind ←]
theorem binary (op : BinaryOp) : L.Holds (m.binary op v w) := by
  unfold Machine.binary
  grind

/-- The operand of `delete` and that of `typeof` may be references. -/
@[grind ←]
theorem unary (op : UnaryOp) : L.Holds (m.unary op e) := by
  unfold Machine.unary
  grind

/-- The left side is the argument of the function on the right. -/
@[grind ←]
theorem pipeline : L.Holds (m.pipeline left right) := by
  unfold Machine.pipeline
  grind

/-- The right side is evaluated if the left one does not decide. -/
@[grind ←]
theorem logical (op : LogicalOp) : L.Holds (m.logical op left right) := by
  unfold Machine.logical
  grind

/-- The operand is read, converted and assigned to. -/
@[grind ←]
theorem update (ha : L.Assigns m) (op : UpdateOp) (before : Bool) : L.Holds (m.update op before t) := by
  unfold Machine.update
  grind

/-- The value of an assignment is the value that is assigned. -/
@[grind ←]
theorem assigning (ha : L.Assigns m) (r : Reference) : L.Holds (m.assigning r v) := by
  unfold Machine.assigning
  grind

/-- The left side is resolved before the right one is evaluated; logical assignments may leave the
right one out. -/
@[grind ←]
theorem assignment (ha : L.Assigns m) (op : AssignOp) : L.Holds (m.assignment op t e) := by
  have ht := targetReference? hm t
  unfold Machine.assignment
  split
  · exact raise _ _
  · split
    · grind
    · refine L.bind ht fun r => ?_
      cases r with
      | none => exact L.pure _
      | some r => cases op <;> grind

/-- The arguments are evaluated before it is asked whether there is a function to call. -/
@[grind ←]
theorem invocation (this : Value) (as : List Argument) (place : Span) :
    L.Holds (m.invocation v this as place) := by
  unfold Machine.invocation
  grind

@[grind ←]
theorem construct (id : ObjectId) (args : List Value) : L.Holds (m.construct id args) := by
  unfold Machine.construct
  grind

/-- What is constructed has to be a constructor, which is asked after the arguments. -/
@[grind ←]
theorem construction (as : List Argument) : L.Holds (m.construction e as) := by
  unfold Machine.construction
  grind

/-- The array of a template is the first argument of its tag. -/
@[grind ←]
theorem taggedTemplate (template : Template) : L.Holds (m.taggedTemplate e template) := by
  unfold Machine.taggedTemplate
  grind

/-- A link of a chain ends the chain if its base is missing. -/
@[grind ←]
theorem evaluateLink : L.Holds (m.evaluateLink e) := by
  cases e <;> unfold Machine.evaluateLink <;> grind

/-- A chain that has ended is undefined. -/
@[grind ←]
theorem chain : L.Holds (m.chain e) := by
  unfold Machine.chain
  grind

/-- The value of an expression; the machine has to assign to names only if it is an assignment. -/
theorem valueOf (ha : e.isAssigning = true → L.Assigns m) : L.Holds (m.value e) := by
  cases e with
  | assign _ op t e =>
    unfold Machine.value
    exact assignment hm e t (ha rfl) op
  | update _ op before t =>
    unfold Machine.value
    exact update hm t (ha rfl) op before
  | _ =>
    unfold Machine.value
    grind

/-- All expressions, for machines that assign to names. -/
@[grind ←]
theorem value (ha : L.Assigns m) : L.Holds (m.value e) := valueOf hm e fun _ => ha

/-- An evaluation is recorded before it begins. -/
@[grind ←]
theorem evaluateExpression (ha : L.Assigns m) : L.Holds (m.evaluateExpression e) := by
  unfold Machine.evaluateExpression
  grind

end Expressions

/-! ### Statements -/

section Statements

variable {s : Stmt} {b : Block} {head : LoopHead} (v : Value) (e : Expr)

/-- The branch that is taken is recorded. -/
theorem conditional (place : Span) {alternate : Option Stmt} (hs : L.Holds (m.run (.statement s)))
    (halternate : ∀ t, alternate = some t → L.Holds (m.run (.statement t))) :
    L.Holds (m.conditional place e s alternate) := by
  unfold Machine.conditional
  grind

omit hm in
/-- A handler is run for what its block throws. -/
theorem guarded {h : Option Handler} (hb : L.Holds (m.block b))
    (hh : ∀ c v, h = some c → L.Holds (m.handle c v)) : L.Holds (m.guarded b h) := by
  cases h <;> unfold Machine.guarded <;> grind

omit hm in
/-- A finalizer is run whatever comes of the block and of its handler. -/
theorem attempt {h : Option Handler} {finalizer : Option Block} (hb : L.Holds (m.block b))
    (hh : ∀ c v, h = some c → L.Holds (m.handle c v))
    (hf : ∀ last, finalizer = some last → L.Holds (m.block last)) :
    L.Holds (m.attempt b h finalizer) := by
  have hguarded := guarded hb hh
  unfold Machine.attempt
  grind

/-- The clauses behind the first one whose test is met. -/
@[grind ←]
theorem select (cases : List Case) : L.Holds (m.select v cases) := by
  induction cases with
  | nil => exact L.pure []
  | cons c l ih =>
    unfold Machine.select
    grind

/-- The default is taken if no clause is met. -/
@[grind ←]
theorem selected (cases : List Case) : L.Holds (m.selected v cases) := by
  unfold Machine.selected
  grind

@[grind ←]
theorem holds (test : Option Expr) : L.Holds (m.holds test) := by
  cases test <;> unfold Machine.holds <;> grind

/-- A part of a loop's head that may be missing. -/
@[grind ←]
theorem effect (update : Option Expr) : L.Holds (m.effect update) := by
  cases update <;> unfold Machine.effect <;> grind

/-- A loop that looks first. -/
theorem whileLoop (hs : L.Holds (m.run (.statement s))) : L.Holds (m.whileLoop e s) := by
  unfold Machine.whileLoop
  grind

/-- A loop that looks afterwards. -/
theorem doLoop (hs : L.Holds (m.run (.statement s))) : L.Holds (m.doLoop s e) := by
  unfold Machine.doLoop
  grind

omit hm in
/-- A round for each value of a walk. -/
theorem forEach (hround : ∀ v, L.Holds (m.round head s v)) (w : Walk) :
    L.Holds (m.forEach head s w) := by
  unfold Machine.forEach
  grind

omit hm in
/-- A loop over the keys of an object. -/
theorem forIn (hround : ∀ v, L.Holds (m.round head s v)) (hsubject : L.Holds (m.subject head e)) :
    L.Holds (m.forIn head e s) := by
  have heach := fun w => forEach hround w
  unfold Machine.forIn
  grind

omit hm in
/-- A loop over what an array or a text consists of. -/
theorem forOf (hround : ∀ v, L.Holds (m.round head s v)) (hsubject : L.Holds (m.subject head e)) :
    L.Holds (m.forOf head e s) := by
  have heach := fun w => forEach hround w
  unfold Machine.forOf
  grind

end Statements

/-- **A machine that does its tasks with one that obeys a law obeys the law**, if its calls and its
assignments do. -/
theorem step (ha : L.Assigns m) (hcall : ∀ f this args, L.Holds (m.callFunction f this args))
    {t : Task α} (ht : t.IsPlain) : L.Holds (m.step t) := by
  cases ht with
  | expression e => exact evaluateExpression hm e ha
  | name _ name => exact resolve name
  | link e => exact evaluateLink hm e
  | call f this args => exact hcall f this args
  | primitive o hint => exact primitiveOf hm o hint

/-- Its assignments do so if those of the other machine do. -/
theorem assigns_step (ha : L.Assigns m) {m' : Machine} (h : ∀ {α : Type} (t : Task α), m'.run t = m.step t) :
    L.Assigns m' where
  write := ha.write
  assign t v := by
    rw [h]
    exact assignTarget hm v t ha
  bind p v := by
    rw [h]
    exact bindPattern hm v p ha.bind fun name v => bindName hm v ha name

end Machines

end Law

end Scriptlet
