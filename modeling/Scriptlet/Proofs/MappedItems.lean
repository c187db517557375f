import Scriptlet.Proofs.CodeUnits
import Scriptlet.Proofs.Keys
import Scriptlet.Proofs.TextSequences

/-!
# Making arrays, item by item

An array is made from items and a function: first all items are read, and then the function is
called for each of them.  The rule is that the function is called for an item before the next one is
read.

That makes no difference as long as each call leaves the items that are still to be read as they
are; what has been read already it may change.  The items of a text are always left as they are.

## Main definitions

* `Course`, `Agent.left` — what is left of the items, and which these are.
* `Machine.mapSteps`, `Machine.fromEach` — calls between the items.
* `Machine.LeavesItems` — calls that leave the items as they are.

## Main results

* `getFrom_ofNat` — a property at an index is one of the object's own.
* `stepOf_apply` — items are read one by one.
* `mapSteps_eq` — **calls between the items are calls after all of them**.
* `from_interleaves` — so it is for arrays that are made.
-/

namespace Scriptlet

open Eval

/-! ### Properties at indices -/

/-- The decimal form of a number starts with a digit. -/
theorem Text.head?_toString_ofNat (n : Nat) :
    (Text.ofNat n).toString.toList.head?.any Char.isDigit = true := by
  have hall : ∀ p < 58, 48 ≤ p → (charOfPoint p).isDigit = true := by decide
  rw [toList_toString, toList_codePoints, units_ofNat]
  cases hunits : digitUnits n with
  | nil => exact absurd hunits (digitUnits_ne_nil n)
  | cons u us =>
    obtain ⟨hle, hge⟩ := isDigitUnit_iff.mp (isDigitUnit_of_mem (hunits ▸ List.mem_cons_self))
    have hsingle : isHighSurrogate u = false := Bool.eq_false_iff.mpr fun hhigh => by
      have hbounds := isHighSurrogate_iff.mp hhigh
      omega
    rw [pointsOf_cons fun h => absurd (hsingle.symm.trans h) Bool.false_ne_true]
    exact hall u.toNat (by omega) hle

/-- No method of an object has a name that starts with a digit. -/
theorem Object.method?_of_digit (o : Object) {name : String}
    (h : name.toList.head?.any Char.isDigit = true) : o.method? name = none := by
  have hne : ∀ s : String, s.toList.head?.any Char.isDigit = false → s ≠ name := by
    rintro s hs rfl
    rw [h] at hs
    cases hs
  have harray : ArrayMethod.ofName? name = none := List.find?_eq_none.mpr fun f _ => by
    have hf : f.name.toList.head?.any Char.isDigit = false := by cases f <;> rfl
    simpa using hne _ hf
  have hfunction : FunctionMethod.ofName? name = none := List.find?_eq_none.mpr fun f _ => by
    have hf : f.name.toList.head?.any Char.isDigit = false := by cases f <;> rfl
    simpa using hne _ hf
  have hobject : ObjectMethod.ofName? name = none := List.find?_eq_none.mpr fun f _ => by
    have hf : f.name.toList.head?.any Char.isDigit = false := by cases f <;> rfl
    simpa using hne _ hf
  have htext : name ≠ "toString" := (hne "toString" rfl).symm
  unfold Object.method?
  cases o.kind <;> simp [harray, hfunction, hobject, htext]

/-- What an object of its own has at an index. -/
def Agent.valueAt (a : Agent) (id : ObjectId) (i : Nat) : Value :=
  ((a.object id).ownValue? (.ofNat i)).getD .undefined

/-- **A property at an index is one of the object's own**, and reading it changes nothing. -/
theorem getFrom_ofNat {i : Nat} (hi : i < maxArrayLength) (id : ObjectId) (a : Agent) :
    getFrom id (.ofNat i) a = .ok (a.valueAt id i) a := by
  have hnamed : ∀ name : String, (name : PropertyKey).arrayIndex? = none →
      (PropertyKey.ofNat i).isNamed name = false := fun name hname =>
    Bool.eq_false_iff.mpr fun h => by
      rw [← Object.isNamed_iff.mp h, PropertyKey.arrayIndex?_ofNat hi] at hname
      cases hname
  have hfeature : (a.object id).feature? (.ofNat i) = none := by
    have hname := hnamed "name" (by decide +kernel)
    have hlength := hnamed "length" (by decide +kernel)
    have hmessage := hnamed "message" (by decide +kernel)
    unfold Object.feature?
    cases (a.object id).kind <;> simp [hname, hlength, hmessage]
  have hmethod := (a.object id).method?_of_digit (Text.head?_toString_ofNat i)
  cases hown : (a.object id).ownValue? (.ofNat i) with
  | some v =>
    unfold getFrom Agent.valueAt
    rw [bind_ok (object_apply id a), hown]
    rfl
  | none =>
    rw [PropertyKey.ofNat, getFrom_common hown hfeature, hmethod, Agent.valueAt, hown]
    rfl

/-! ### Items -/

/-- What is left of the items that an array is made from: a walk, or what an object has at the
indices from one up to another one. -/
inductive Course
  | walk (w : Walk)
  | indices (id : ObjectId) (next stop : Nat) (h : stop ≤ maxArrayLength)

/-- What is left of a walk when one more value has been read. -/
def Walk.next : Walk → Walk
  | .elements id next => .elements id (next + 1)
  | .points ps => .points ps.tail
  | .done => .done

/-- What is left when one more item has been read. -/
def Course.next : Course → Course
  | .walk w => .walk w.next
  | .indices id next stop h => .indices id (next + 1) stop h

/-- The items that are left. -/
def Agent.left (a : Agent) : Course → List Value
  | .walk w => a.remaining w
  | .indices id next stop _ => (List.range' next (stop - next)).map (a.valueAt id)

/-- Reads the next item, if there is one, and tells what is left then. -/
def Eval.stepOf (c : Course) : Eval (Option (Value × Course)) := do
  match c with
  | .walk w =>
    match ← nextOf w with
    | (some v, rest) => return some (v, .walk rest)
    | (none, _) => return none
  | .indices id next stop h =>
    if next < stop then
      return some (← getFrom id (.ofNat next), .indices id (next + 1) stop h)
    else return none

/-- **Items are read one by one**, and reading them changes nothing. -/
theorem stepOf_apply (c : Course) (a : Agent) :
    stepOf c a = .ok ((a.left c).head?.map (·, c.next)) a := by
  cases c with
  | walk w =>
    have hnext : nextOf w a = .ok (a.advance w) a := rfl
    refine (bind_ok hnext).trans ?_
    cases w with
    | elements id next =>
      have hhead : (a.left (.walk (.elements id next))).head?
          = if next < (a.elements id).length then some (((a.elements id).get? next).getD .undefined)
            else none := by
        change (((List.range _).map _).drop next).head? = _
        rw [List.head?_drop, List.getElem?_map]
        split
        · next hlt => rw [List.getElem?_range hlt]; rfl
        · next hge => rw [List.getElem?_eq_none (by rw [List.length_range]; omega)]; rfl
      rw [hhead]
      unfold Agent.advance
      dsimp only
      split <;> rfl
    | points ps => cases ps <;> rfl
    | done => rfl
  | indices id next stop h =>
    unfold stepOf
    dsimp only
    -- The items left are those from here to the end that was read at the start.
    by_cases hlt : next < stop
    · have hcount : stop - next = stop - (next + 1) + 1 := by omega
      rw [if_pos hlt, bind_ok (getFrom_ofNat (Nat.lt_of_lt_of_le hlt h) id a), Agent.left, hcount,
        List.range'_succ]
      rfl
    · have hcount : stop - next = 0 := by omega
      rw [if_neg hlt, Agent.left, hcount]
      rfl

namespace Machine

/-- The items that an array is made from, of which none has been read: those of an array or a text,
or what an object has at the indices below its length, which is read then. -/
def startCourse (m : Machine) (v : Value) : Eval Course := do
  if ((← get).array? v).isSome || v.isText || v.isNullish then return .walk (← startWalk v)
  else
    match v with
    | .object id =>
      let length ← m.toLength (← getFrom id "length")
      if h : maxArrayLength < length then invalidLength
      else return .indices id 0 length (Nat.le_of_not_lt h)
    | _ => return .walk .done

/-- The results of a function for items, which is called for each before the next one is read;
`fuel` bounds the number of steps. -/
def mapSteps (m : Machine) (g : ObjectId) (this : Value) : Nat → Nat → Course → Eval (List Value)
  | 0, _, _ => throw .exhausted
  | fuel + 1, k, c => do
    match ← stepOf c with
    | none => return []
    | some (v, c) =>
      let w ← m.call g this [v, .ofNat k]
      return w :: (← m.mapSteps g this fuel (k + 1) c)

/-- An array of the results of a function for items, step by step. -/
def fromEach (m : Machine) (fuel : Nat) (args : List Value) : Eval Value := do
  let g ← callable (argument args 1)
  let c ← m.startCourse (argument args 0)
  arrayOf (← m.mapSteps g (argument args 2) fuel 0 c)

/-- Each call for one of the given items, as long as there are results, leaves the others as they
are. -/
def Leaves (m : Machine) (g : ObjectId) (this : Value) : Nat → List Value → Course → Agent → Prop
  | _, [], _, _ => True
  | k, v :: rest, c, a =>
    match m.call g this [v, .ofNat k] a with
    | .error _ _ => True
    | .ok _ b => b.left c.next = rest ∧ m.Leaves g this (k + 1) rest c.next b

/-- The calls for the items that an array is made from leave those that are not read yet as they
are. -/
def LeavesItems (m : Machine) (args : List Value) (a : Agent) : Prop :=
  ∀ g b c d, callable (argument args 1) a = .ok g b → m.startCourse (argument args 0) b = .ok c d →
    m.Leaves g (argument args 2) 0 (d.left c) c d

end Machine

variable {m : Machine} {a : Agent}

/-- **Calls between the items are calls after all of them**, if they leave the items as they are. -/
theorem mapSteps_eq {g : ObjectId} {this : Value} {items : List Value} {k fuel : Nat} {c : Course}
    (hitems : a.left c = items) (hleaves : m.Leaves g this k items c a) (hfuel : items.length < fuel) :
    m.mapSteps g this fuel k c a = m.mapValues g this k items a := by
  induction items generalizing k fuel c a with
  | nil =>
    obtain ⟨fuel, rfl⟩ := Nat.exists_eq_succ_of_ne_zero (Nat.ne_of_gt hfuel)
    rw [Machine.mapSteps, bind_ok (stepOf_apply c a), hitems]
    rfl
  | cons v rest ih =>
    obtain ⟨fuel, rfl⟩ := Nat.exists_eq_succ_of_ne_zero (Nat.ne_of_gt (Nat.zero_lt_of_lt hfuel))
    rw [Machine.mapSteps, bind_ok (stepOf_apply c a), hitems, Machine.mapValues]
    refine bind_congr_ok fun w b hw => ?_
    unfold Machine.Leaves at hleaves
    rw [hw] at hleaves
    exact bind_congr_left (ih hleaves.1 hleaves.2 (Nat.lt_of_succ_lt_succ hfuel))

/-- Properties at indices are read without changing anything. -/
theorem mapM_getFrom (id : ObjectId) {indices : List Nat} (h : ∀ i ∈ indices, i < maxArrayLength)
    (a : Agent) : (indices.mapM fun i => getFrom id (.ofNat i)) a = .ok (indices.map (a.valueAt id)) a := by
  induction indices with
  | nil => rfl
  | cons i indices ih =>
    obtain ⟨hi, hrest⟩ := List.forall_mem_cons.mp h
    rw [List.mapM_cons, bind_ok (getFrom_ofNat hi id a), bind_ok (ih hrest)]
    rfl

/-- **All items are read before anything is done with them.** -/
theorem sourceValues_eq (v : Value) (a : Agent) :
    m.sourceValues v a = (do let c ← m.startCourse v; return (← get).left c) a := by
  unfold Machine.sourceValues Machine.startCourse
  rw [bind_assoc, bind_ok (get_apply a), bind_ok (get_apply a)]
  split
  · rw [itemsOf, bind_assoc]
    rfl
  · cases v with
    | object id =>
      dsimp only
      rw [bind_assoc]
      refine bind_congr_ok fun x b _ => ?_
      rw [bind_assoc]
      refine bind_congr_ok fun length c _ => ?_
      split
      · rfl
      · next hfits =>
        have hindices : ∀ i ∈ List.range length, i < maxArrayLength := fun i hi => by
          have hlt := List.mem_range.mp hi
          omega
        rw [mapM_getFrom id hindices c, List.range_eq_range']
        rfl
    | _ => rfl

/-- No call changes what is left of a text. -/
theorem leaves_points (g : ObjectId) (this : Value) (k : Nat) (ps : List Nat) (a : Agent) :
    m.Leaves g this k (a.left (.walk (.points ps))) (.walk (.points ps)) a := by
  induction ps generalizing k a with
  | nil => trivial
  | cons p ps ih =>
    change match m.call g this [.text (Text.empty.pushPoint p), .ofNat k] a with
      | .error _ _ => True
      | .ok _ b => b.left (.walk (.points ps)) = a.left (.walk (.points ps)) ∧ _
    split
    · trivial
    · next b _ => exact ⟨rfl, ih (k + 1) b⟩

/-- **An array is made from items and a function one item at a time**: the function is called for an
item before the next one is read, if none of the calls changes the items that are still to be read.
The items of a text are never changed.  The loop that makes the array so ends, and with however many
steps more than it takes, it does the same. -/
theorem from_interleaves (args : List Value) (hmapper : (argument args 1).isUndefined = false) :
    (∀ (m : Machine) (a : Agent), m.LeavesItems args a →
      ∃ n, ∀ fuel, n ≤ fuel → m.arrayFunction .from args a = m.fromEach fuel args a) ∧
    ∀ (m : Machine) (a : Agent) (t : Text), argument args 0 = .text t → m.LeavesItems args a := by
  refine ⟨fun m a hleaves => ?_, fun m a t ht g b c d _ hstart => ?_⟩
  · have hfrom : m.arrayFunction .from args a = (do
        let g ← callable (argument args 1)
        let values ← m.sourceValues (argument args 0)
        arrayOf (← m.mapValues g (argument args 2) 0 values)) a := by
      change (if (argument args 1).isUndefined then _ else _ : Eval Value) a = _
      rw [hmapper]
      rfl
    rw [hfrom]
    -- Until the course is started both runs are the same, and a failure there ends both.
    unfold Machine.fromEach
    cases hg : callable (argument args 1) a with
    | error i b => exact ⟨0, fun _ _ => by rw [bind_error hg, bind_error hg]⟩
    | ok g b =>
      rw [bind_ok hg]
      cases hc : m.startCourse (argument args 0) b with
      | error i d =>
        refine ⟨0, fun _ _ => ?_⟩
        have hvalues : m.sourceValues (argument args 0) b = .error i d := by
          rw [sourceValues_eq, bind_error hc]
        rw [bind_error hvalues, bind_ok hg, bind_error hc]
      | ok c d =>
        refine ⟨(d.left c).length + 1, fun fuel hfuel => ?_⟩
        have hvalues : m.sourceValues (argument args 0) b = .ok (d.left c) d := by
          rw [sourceValues_eq, bind_ok hc]
          rfl
        rw [bind_ok hvalues, bind_ok hg, bind_ok hc]
        exact bind_congr_left (mapSteps_eq rfl (hleaves g b c d hg hc) hfuel).symm
  · have htext : m.startCourse (argument args 0) b = .ok (.walk (.points t.codePoints.toList)) b := by
      rw [ht]
      rfl
    rw [htext] at hstart
    cases hstart
    exact leaves_points g _ 0 _ b

/-- An agent that has an array of three elements, an empty one, and a method of arrays. -/
def Agent.withMapper (f : ArrayMethod) : Agent :=
  { Agent.new false with
    objects := #[.ofKind (.array (.ofList [.null, .boolean true, .boolean false])),
      .ofKind (.array (.ofList [])), .ofKind (.builtin (.arrayMethod f))] }

/-- The function adds to another array. -/
theorem from_interleaves_pushing :
    let m := Machine.ofDepth 2
    let args := [.object ⟨0⟩, .object ⟨2⟩, .object ⟨1⟩]
    (argument args 1).isUndefined = false ∧ m.LeavesItems args (.withMapper .push) ∧
      ∃ n, ∀ fuel, n ≤ fuel →
        m.arrayFunction .from args (.withMapper .push) = m.fromEach fuel args (.withMapper .push) := by
  have hleaves : (Machine.ofDepth 2).LeavesItems [.object ⟨0⟩, .object ⟨2⟩, .object ⟨1⟩]
      (.withMapper .push) := by
    intro g b c d hg hstart
    cases hg
    cases hstart
    exact ⟨rfl, rfl, rfl, trivial⟩
  exact ⟨rfl, hleaves, (from_interleaves [.object ⟨0⟩, .object ⟨2⟩, .object ⟨1⟩] rfl).1 _ _ hleaves⟩

/-- The function takes elements out of the array that they are from: two are left for it if it is
called between them, but it is called for all three. -/
theorem from_maps_removed :
    let m := Machine.ofDepth 2
    let args := [.object ⟨0⟩, .object ⟨2⟩, .object ⟨0⟩]
    (((m.arrayFunction .from args).after (.withMapper .pop)).elements ⟨3⟩).length = 3 ∧
      ∀ fuel, 3 ≤ fuel → (((m.fromEach fuel args).after (.withMapper .pop)).elements ⟨3⟩).length = 2 := by
  refine ⟨by decide +kernel, fun fuel hfuel => ?_⟩
  obtain ⟨n, rfl⟩ := Nat.exists_eq_add_of_le' hfuel
  rfl

end Scriptlet
