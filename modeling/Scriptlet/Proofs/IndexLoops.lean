import Scriptlet.Proofs.KeyHistories

/-!
# Methods that call back, index by index

Methods that call a function for the elements of an array jump from one element to the next one that
is there.  The rule is simpler: the length is read first, and then each index below it is looked at in
its turn, whatever has become of the array in the meantime.

The rule is stated for any machine, so that the calls are arbitrary: they are the same calls with the
same arguments, in the same order and from the same states, whatever they do to the array.

## Main definitions

* `Eval.visitIndices`, `Eval.walkIndices` — a walk that looks at every index.
* `Machine.indexLoop` — the methods as such walks.

## Main results

* `visitIndices_skip` — indices without elements may be left out.
* `walkElements_eq` — **jumping is the same as looking at every index**.
* `arrayMethod_walks` — so it is for the methods.
-/

namespace Scriptlet

open Eval

namespace Eval

variable {σ : Type}

/-- Looks at the given number of indices of an array from one on, each in its turn, and visits the
element if there is one then. -/
def visitIndices (id : ObjectId) (visit : σ → Nat → Value → Eval (Sum σ Value))
    (finish : σ → Eval Value) : Nat → Nat → σ → Eval Value
  | 0, _, s => finish s
  | count + 1, k, s => do
    match (← elementsOf id).get? k with
    | none => visitIndices id visit finish count (k + 1) s
    | some v =>
      match ← visit s k v with
      | .inl s => visitIndices id visit finish count (k + 1) s
      | .inr r => return r

/-- Reads the length of an array, and looks at every index below it. -/
def walkIndices (id : ObjectId) (visit : σ → Nat → Value → Eval (Sum σ Value))
    (finish : σ → Eval Value) (s : σ) : Eval Value := do
  let length := (← elementsOf id).length
  visitIndices id visit finish length 0 s

end Eval

namespace Machine

/-- Combines what has been combined with one more element; the first of all is the element itself. -/
def combine (m : Machine) (g id : ObjectId) (sum : Option Value) (k : Nat) (v : Value) :
    Eval (Sum (Option Value) Value) := do
  match sum with
  | none => return .inl (some v)
  | some w => return .inl (some (← m.call g .undefined [w, v, .ofNat k, .object id]))

/-- What has been combined, if there has been anything to combine. -/
def combined : Option Value → Eval Value
  | some v => return v
  | none => raise .typeError "Reduce of empty array with no initial value"

/-- Calls a function for the elements of an array: it is called with the element, the index and the
array, and what is done with the values of the calls depends on the method. -/
def indexLoop (m : Machine) (f : ArrayMethod) (id : ObjectId) (args : List Value) : Eval Value := do
  let g ← callable (argument args 0)
  let this := argument args 1
  let call := fun (k : Nat) (v : Value) => m.call g this [v, .ofNat k, .object id]
  match f with
  | .every =>
    walkIndices id (fun _ k v => do
      if (← call k v).isTrue then return .inl () else return .inr (.boolean false))
      (fun _ => return .boolean true) ()
  | .some =>
    walkIndices id (fun _ k v => do
      if (← call k v).isTrue then return .inr (.boolean true) else return .inl ())
      (fun _ => return .boolean false) ()
  | .filter =>
    walkIndices id (fun kept k v => do
      if (← call k v).isTrue then return .inl (v :: kept) else return .inl kept)
      (fun kept => arrayOf kept.reverse) []
  | .map =>
    let length := (← elementsOf id).length
    walkIndices id (fun e k v => do return .inl (e.set k (← call k v)))
      (fun e => do return .object (← allocateArray e)) (Elements.ofLength length)
  | .reduce => walkIndices id (m.combine g id) combined (if args.length > 1 then some this else none)
  | _ =>
    walkIndices id (fun _ k v => do
      let _ ← call k v
      return .inl ()) (fun _ => return .undefined) ()

end Machine

/-! ### Walks that look at every index -/

section

variable {σ τ : Type} {id : ObjectId} {visit : σ → Nat → Value → Eval (Sum σ Value)}
  {finish : σ → Eval Value} {a : Agent}

/-- **Indices without elements may be left out.** -/
theorem visitIndices_skip {count k : Nat} (rest : Nat) (s : σ)
    (hnone : ∀ j, k ≤ j → j < k + count → (a.elements id).get? j = none) :
    visitIndices id visit finish (count + rest) k s a
      = visitIndices id visit finish rest (k + count) s a := by
  induction count generalizing k with
  | zero => rw [Nat.zero_add, Nat.add_zero]
  | succ count ih =>
    have hfirst : (a.elements id).get? k = none := hnone k (Nat.le_refl k) (by omega)
    have hstep : visitIndices id visit finish (count + 1 + rest) k s a
        = visitIndices id visit finish (count + rest) (k + 1) s a := by
      rw [Nat.add_right_comm, visitIndices, bind_ok (elementsOf_apply id a), hfirst]
    have hplace : k + (count + 1) = k + 1 + count := by omega
    rw [hstep, hplace]
    exact ih fun j hj hlt => hnone j (by omega) (by omega)

/-- An element that is there is visited. -/
theorem visitIndices_visit {k : Nat} {v : Value} (count : Nat) (s : σ)
    (hv : (a.elements id).get? k = some v) : visitIndices id visit finish (count + 1) k s a
      = (visit s k v >>= Sum.elim (visitIndices id visit finish count (k + 1)) pure) a := by
  rw [visitIndices, bind_ok (elementsOf_apply id a), hv]
  dsimp only
  refine congrFun (congrArg (visit s k v >>= ·) (funext fun x => ?_)) a
  cases x <;> rfl

/-- A walk does the same for states that correspond. -/
theorem visitIndices_map (g : σ → τ) {visit' : τ → Nat → Value → Eval (Sum τ Value)}
    {finish' : τ → Eval Value}
    (hvisit : ∀ s k v, visit' (g s) k v = Sum.map g (fun r => r) <$> visit s k v)
    (hfinish : ∀ s, finish' (g s) = finish s) (count k : Nat) (s : σ) :
    visitIndices id visit' finish' count k (g s) = visitIndices id visit finish count k s := by
  induction count generalizing k s with
  | zero => exact hfinish s
  | succ count ih =>
    rw [visitIndices, visitIndices]
    refine congrArg (elementsOf id >>= ·) (funext fun e => ?_)
    cases e.get? k with
    | none => exact ih (k + 1) s
    | some v =>
      dsimp only
      rw [hvisit, bind_map_left]
      refine congrArg (visit s k v >>= ·) (funext fun x => ?_)
      cases x with
      | inl s' => exact ih (k + 1) s'
      | inr r => rfl

/-! ### Jumping from element to element -/

/-- One round of a walk that jumps to the next element. -/
def Eval.jumpRound (id : ObjectId) (visit : σ → Nat → Value → Eval (Sum σ Value))
    (finish : σ → Eval Value) (length : Nat) : Nat × σ → Eval (Sum (Nat × σ) Value) := fun (k, s) => do
  match (← elementsOf id).nextPresent? k with
  | none => return .inr (← finish s)
  | some (i, v) =>
    if length ≤ i then return .inr (← finish s)
    else
      match ← visit s i v with
      | .inl s => return .inl (i + 1, s)
      | .inr r => return .inr r

/-- Where the next element is, the indices before it have none. -/
theorem Agent.IsKeyed.nextPresent?_cases (ha : a.IsKeyed) (id : ObjectId) (k : Nat) :
    (a.elements id).nextPresent? k = none ∧ (∀ j, k ≤ j → (a.elements id).get? j = none) ∨
      ∃ i v, (a.elements id).nextPresent? k = some (i, v) ∧ k ≤ i ∧
        (a.elements id).get? i = some v ∧ i < (a.elements id).length ∧
        ∀ j, k ≤ j → j < i → (a.elements id).get? j = none := by
  have hstored := ha.isStored_elements id
  cases hnext : (a.elements id).nextPresent? k with
  | none =>
    refine .inl ⟨rfl, fun j hj => Option.eq_none_iff_forall_ne_some.mpr fun v hv => ?_⟩
    have hmem := hstored.mem_presentFrom.mpr ⟨hj, hv⟩
    rw [Elements.IsStored.nextPresent?_eq_head?, List.head?_eq_none_iff] at hnext
    rw [hnext] at hmem
    cases hmem
  | some p =>
    obtain ⟨i, v⟩ := p
    obtain ⟨hki, hv, hbefore⟩ := hstored.nextPresent?_eq_some_iff.mp hnext
    exact .inr ⟨i, v, rfl, hki, hv, hstored.lt_of_get? hv, hbefore⟩

/-- **The rounds of a walk that jumps** are those of a walk that looks at every index, as long as there
are enough of them. -/
theorem iterate_jumpRound (hvisit : ∀ s k v, Leads Agent.Moves (visit s k v)) (length fuel k : Nat)
    (s : σ) (ha : a.IsKeyed) (hfuel : length - k < fuel) :
    iterate (jumpRound id visit finish length) fuel (k, s) a
      = visitIndices id visit finish (length - k) k s a := by
  induction fuel generalizing k s a with
  | zero => exact absurd hfuel (Nat.not_lt_zero _)
  | succ fuel ih =>
    have hend : ∀ (hnone : ∀ j, k ≤ j → j < length → (a.elements id).get? j = none),
        visitIndices id visit finish (length - k) k s a = finish s a := fun hnone =>
      visitIndices_skip 0 s fun j hj hlt => hnone j hj (by grind)
    have hfinished : ((do return .inr (← finish s) : Eval (Sum (Nat × σ) Value)) >>=
        Sum.elim (iterate (jumpRound id visit finish length) fuel) pure) = finish s := by
      rw [bind_assoc]
      exact bind_pure _
    rw [iterate_succ]
    unfold jumpRound
    dsimp only
    rw [bind_assoc, bind_ok (elementsOf_apply id a)]
    obtain ⟨hnext, hnone⟩ | ⟨i, v, hnext, hki, hv, -, hbefore⟩ := ha.nextPresent?_cases id k
    · rw [hnext, hend fun j hj _ => hnone j hj]
      exact congrFun hfinished a
    · rw [hnext]
      dsimp only
      split
      · next hle =>
        rw [hend fun j hj hlt => hbefore j hj (by omega)]
        exact congrFun hfinished a
      · next hlt =>
        -- The indices before the element are passed over, and the others are left for later.
        have hsplit : length - k = i - k + (length - (i + 1) + 1) := by omega
        have hplace : k + (i - k) = i := by omega
        rw [hsplit, visitIndices_skip _ s fun j hj hji => hbefore j hj (by omega), hplace,
          visitIndices_visit _ s hv, bind_assoc]
        have hmoves := hvisit s i v a
        cases hr : visit s i v a with
        | error x b => rw [bind_error hr, bind_error hr]
        | ok x b =>
          rw [after_ok hr] at hmoves
          rw [bind_ok hr, bind_ok hr]
          cases x with
          | inl s' => exact ih (i + 1) s' (hmoves.isKeyed ha) (by omega)
          | inr r => rfl

/-- **Jumping from element to element is the same as looking at every index**, whatever the visits do. -/
theorem walkElements_eq (hvisit : ∀ s k v, Leads Agent.Moves (visit s k v)) (ha : a.IsKeyed)
    (start : Nat) (s : σ) : walkElements id visit finish start s a
      = visitIndices id visit finish ((a.elements id).length - start) start s a := by
  have hrounds : walkElements id visit finish start s a
      = iterate (jumpRound id visit finish (a.elements id).length) ((a.elements id).length + 1)
        (start, s) a := bind_ok (elementsOf_apply id a)
  rw [hrounds]
  exact iterate_jumpRound hvisit _ _ start s ha (by omega)

theorem walkElements_walkIndices (hvisit : ∀ s k v, Leads Agent.Moves (visit s k v)) (ha : a.IsKeyed)
    (s : σ) : walkElements id visit finish 0 s a = walkIndices id visit finish s a :=
  walkElements_eq hvisit ha 0 s

end

/-! ### The methods -/

/-- The methods that leave out indices without element. -/
def ArrayMethod.skipsHoles (f : ArrayMethod) : Prop :=
  f ∈ [.every, .filter, .forEach, .map, .some, .reduce]

/-- Calls leave the keys of objects in order, whatever else they do. -/
def Machine.CallsMove (m : Machine) : Prop := ∀ g this args, Moving (m.call g this args)

/-- What is the same for all agents in order may come after a computation that leaves them so. -/
theorem Moving.bind_congr {α β : Type} {p : Eval α} {f g : α → Eval β} {a : Agent} (hp : Moving p)
    (ha : a.IsKeyed) (h : ∀ x b, b.IsKeyed → f x b = g x b) : (p >>= f) a = (p >>= g) a :=
  bind_congr_ok fun x b hx => by
    have hmoves := hp a
    rw [after_ok hx] at hmoves
    exact h x b (hmoves.isKeyed ha)

section

variable {m : Machine} (hm : m.CallsMove) {a : Agent}

include hm

/-- What is done with the value of a call moves nothing. -/
theorem Machine.CallsMove.visit {α : Type} {f : Value → Eval α} (hf : ∀ v, Moving (f v))
    (g : ObjectId) (this : Value) (args : List Value) : Moving (m.call g this args >>= f) :=
  Leads.seq Agent.Moves.trans (hm g this args) hf

/-- **Combining the elements** of an array goes from the first one, or from the value to start with. -/
theorem reduce_eq (ha : a.IsKeyed) (g id : ObjectId) (start : Option Value) :
    m.reduce g id start a = walkIndices id (m.combine g id) Machine.combined start a := by
  -- With a value to start with, this is the loop of the other methods.
  have hfrom : ∀ k v, m.reduceFrom g id k v a
      = visitIndices id (m.combine g id) Machine.combined ((a.elements id).length - k) k (some v) a := by
    intro k v
    let visit := fun (acc : Value) (i : Nat) (v : Value) => do
      return (.inl (← m.call g .undefined [acc, v, .ofNat i, .object id]) : Sum Value Value)
    have hmap : ∀ s k v, m.combine g id (some s) k v = Sum.map some (fun r => r) <$> visit s k v :=
      fun s k v => by simp [Machine.combine, visit]
    have hvisit : ∀ s k v, Moving (visit s k v) := fun s k v =>
      hm.visit (fun _ => .still fun _ => rfl) g .undefined _
    have hmapped : visitIndices id (m.combine g id) Machine.combined ((a.elements id).length - k) k
        (some v) = visitIndices id visit pure ((a.elements id).length - k) k v :=
      visitIndices_map some hmap (fun _ => rfl) _ k v
    rw [hmapped]
    exact walkElements_eq hvisit ha k v
  unfold Machine.reduce
  cases start with
  | some v => exact hfrom 0 v
  | none =>
    dsimp only
    rw [walkIndices, bind_ok (elementsOf_apply id a), bind_ok (elementsOf_apply id a)]
    -- Without one, nothing is called up to the first element that is there.
    obtain ⟨hnext, hnone⟩ | ⟨i, v, hnext, -, hv, hlt, hbefore⟩ := ha.nextPresent?_cases id 0
    · have hend : visitIndices id (m.combine g id) Machine.combined ((a.elements id).length + 0) 0 none a
          = visitIndices id (m.combine g id) Machine.combined 0 (0 + (a.elements id).length) none a :=
        visitIndices_skip 0 none fun j hj _ => hnone j hj
      rw [hnext]
      exact hend.symm
    · have hsplit : (a.elements id).length = i + ((a.elements id).length - (i + 1) + 1) := by omega
      rw [hnext, hsplit, visitIndices_skip _ none fun j hj hji => hbefore j hj (by omega),
        Nat.zero_add, visitIndices_visit _ none hv]
      exact hfrom (i + 1) v

/-- What is done for the elements of an array is done in the loop over its indices. -/
theorem arrayVisit_eq {f : ArrayMethod} (hf : f.skipsHoles) (ha : a.IsKeyed) (id : ObjectId)
    (args : List Value) : m.arrayVisit f id args a = m.indexLoop f id args a := by
  unfold Machine.arrayVisit Machine.indexLoop
  refine Moving.bind_congr (Law.callable (L := keeping.toLaw) _) ha fun g b hb => ?_
  have hwalk : ∀ {σ : Type} {visit : σ → Nat → Value → Eval (Sum σ Value)} {finish : σ → Eval Value}
      {s : σ}, (∀ s k v, Moving (visit s k v)) →
        walkElements id visit finish 0 s b = walkIndices id visit finish s b :=
    fun h => walkElements_walkIndices h hb _
  have hstill : ∀ {α : Type} (x : α), Moving (pure x : Eval α) := fun x => .still fun _ => rfl
  simp only [ArrayMethod.skipsHoles, List.mem_cons, List.not_mem_nil, or_false] at hf
  obtain rfl | rfl | rfl | rfl | rfl | rfl := hf
  · refine hwalk fun _ k v => hm.visit (fun w => ?_) g _ _
    split <;> exact hstill _
  · refine hwalk fun _ k v => hm.visit (fun w => ?_) g _ _
    split <;> exact hstill _
  · exact hwalk fun _ k v => hm.visit (fun w => hstill _) g _ _
  · refine Moving.bind_congr (Law.elementsOf (L := keeping.toLaw) _) hb fun e c hc => ?_
    exact walkElements_walkIndices (fun _ k v => hm.visit (fun w => hstill _) g _ _) hc _
  · refine hwalk fun _ k v => hm.visit (fun w => ?_) g _ _
    split <;> exact hstill _
  · exact reduce_eq hm hb g id _

end

/-- **Methods that call back do what a loop does** that reads the length of the array first and then
looks at each index below it in its turn, whatever has become of the array: the calls are the same, with
the same arguments, in the same states, and so is the outcome.  All that is assumed of the calls is what
holds of those of programs, that they leave the keys of objects in order; and so they are in whatever
agent there is. -/
theorem arrayMethod_walks (f : ArrayMethod) (hf : f.skipsHoles) (this : Value) (args : List Value) :
    (∀ (m : Machine) (a : Agent), m.CallsMove → a.IsKeyed →
      m.arrayMethod f this args a = (do m.indexLoop f (← thisArray f this) args) a) ∧
    (∀ n, (Machine.ofDepth n).CallsMove) ∧
    ∀ (n : Nat) (isVerbose : Bool) (requests : List (Request × Tidying)),
      (Agent.ofRequests n isVerbose requests).IsKeyed := by
  refine ⟨fun m a hm ha => ?_, fun n g this args => moves_run n _, fun n isVerbose requests =>
    (moves_ofRequests n isVerbose requests).isKeyed fun o ho => absurd ho (Array.not_mem_empty o)⟩
  have hstart : m.arrayMethod f this args a
      = (do m.arrayVisit f (← thisArray f this) args) a := by
    simp only [ArrayMethod.skipsHoles, List.mem_cons, List.not_mem_nil, or_false] at hf
    obtain rfl | rfl | rfl | rfl | rfl | rfl := hf <;> rfl
  rw [hstart]
  exact Moving.bind_congr (Law.thisArray (L := keeping.toLaw) this f) ha fun id b hb =>
    arrayVisit_eq hm hf hb id args

/-- An agent that has an array with an element missing, and a method that adds elements to arrays. -/
def Agent.withHole : Agent :=
  { Agent.new false with
    objects := #[.ofKind (.array ((Elements.ofList [.boolean true, .null, .boolean false]).remove 1)),
      .ofKind (.builtin (.arrayMethod .push))] }

theorem Agent.isKeyed_withHole : Agent.withHole.IsKeyed := by
  have hlist : (Elements.ofList [Value.boolean true, .null, .boolean false]).IsSound :=
    ⟨Elements.isStored_ofList _, by decide⟩
  intro o ho
  rcases List.mem_cons.mp ho.val with rfl | ho
  · exact Object.isKeyed_array (hlist.remove 1)
  · rw [List.mem_singleton.mp ho]
    exact Object.isKeyed_ofKind nofun

/-- The call for each element adds three elements to the array, and the elements added are not visited. -/
theorem arrayMethod_walks_pushing :
    let m := Machine.ofDepth 3
    let args := [.object ⟨1⟩, .object ⟨0⟩]
    ArrayMethod.skipsHoles .forEach ∧
    m.arrayMethod .forEach (.object ⟨0⟩) args .withHole
      = (do m.indexLoop .forEach (← thisArray .forEach (.object ⟨0⟩)) args) .withHole ∧
    (((m.arrayMethod .forEach (.object ⟨0⟩) args).after .withHole).elements ⟨0⟩).length = 9 := by
  have hf : ArrayMethod.skipsHoles .forEach := by simp [ArrayMethod.skipsHoles]
  have hwalks := arrayMethod_walks .forEach hf (.object ⟨0⟩) [.object ⟨1⟩, .object ⟨0⟩]
  exact ⟨hf, hwalks.1 (.ofDepth 3) .withHole (hwalks.2.1 3) Agent.isKeyed_withHole,
    by decide +kernel⟩

end Scriptlet
