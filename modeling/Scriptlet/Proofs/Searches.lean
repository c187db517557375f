import Scriptlet.Proofs.IndexLoops
import Scriptlet.Proofs.TextSequences

/-!
# Searching and joining, index by index

Searches in arrays, and the texts that arrays are joined to, go over the elements that are there.
The rule is simpler: the length is read first, then an argument is converted, and then each index
below the length is looked at in its turn, also those that have no element.

Between the first and the last there is the conversion, which may do anything to the array.  What
the methods do is the rule with the length that the array has *after* the conversion.  That is no
difference as long as the conversion leaves the length as it is; a search that takes no account of
missing elements does not mind either if the array gets shorter.

## Main definitions

* `Eval.lookIndices` — a walk that looks at every index, also at those without element.
* `Machine.joinIndices` — the texts of elements put together in such a walk.
* `Machine.searchIndices` — the methods as such walks.
* `ArrayMethod.Bounded` — lengths between which a method makes no difference.

## Main results

* `lookIndices_includes`, `visitIndices_indexOf` — searches are walks.
* `iterate_joinNext` — **putting separators in front of elements is the same as putting them in
  front of every index**.
* `arrayMethod_searches` — what the methods do, and when it is the rule.
-/

namespace Scriptlet

open Eval

namespace Eval

variable {σ α : Type}

/-- Looks at the given number of indices of an array from one on, each in its turn. -/
def lookIndices (id : ObjectId) (look : σ → Nat → Option Value → Eval (Sum σ α))
    (finish : σ → Eval α) : Nat → Nat → σ → Eval α
  | 0, _, s => finish s
  | count + 1, k, s => do
    match ← look s k ((← elementsOf id).get? k) with
    | .inl s => lookIndices id look finish count (k + 1) s
    | .inr r => return r

/-- Puts the text of an array together, unless that is being done already: an array inside itself
has no text. -/
def noting (id : ObjectId) (p : Eval Text) : Eval Text := do
  if (← get).joining.contains id then return .empty
  else
    modify fun a => { a with joining := id :: a.joining }
    ending p fun a => { a with joining := a.joining.erase id }

end Eval

/-- Ends a search at an element that is the value; undefined is where no element is. -/
def Value.lookForSame (x : Value) (_ : Unit) (_ : Nat) (v : Option Value) : Eval (Sum Unit Value) :=
  return if x.isSame (v.getD .undefined) then .inr (.boolean true) else .inl ()

/-- Ends a search at an element that equals the value, with its index. -/
def Value.lookForEqual (x : Value) (_ : Unit) (k : Nat) (v : Value) : Eval (Sum Unit Value) :=
  return if x.isStrictly v then .inr (.ofNat k) else .inl ()

namespace Machine

/-- Adds a separator, but not at the first index, and the text of an element, if there is one.  It
is an error if this and the separators that are still to come make the text too long. -/
def joinIndex (m : Machine) (separator : Text) (length : Nat) (t : Text) (k : Nat) (v : Option Value) :
    Eval (Sum Text Text) := do
  let t := if k = 0 then t else t ++ separator
  let v := v.getD .undefined
  if v.isNullish then return .inl t
  else
    let t := t ++ (← m.toText v)
    if maxTextLength < t.length + (length - 1 - k) * separator.length then tooLong else return .inl t

/-- The texts of the elements of an array below a length, with a separator between them. -/
def joinIndices (m : Machine) (id : ObjectId) (separator : Text) (length : Nat) : Eval Text :=
  if maxTextLength < (length - 1) * separator.length then tooLong
  else lookIndices id (m.joinIndex separator length) pure length 0 .empty

/-- Searches an array, or joins it, index by index: its length is read first, then an argument is
converted, and then each index below a bound is looked at.  The bound is the length that was read,
or else the length is read `again`. -/
def searchIndices (m : Machine) (f : ArrayMethod) (again : Bool) (id : ObjectId) (args : List Value) :
    Eval Value := do
  let length := (← elementsOf id).length
  let bound := do if again then return (← elementsOf id).length else return length
  match f with
  | .includes =>
    if length = 0 then return .boolean false
    else
      let start ← m.searchStart length (argument args 1)
      lookIndices id (argument args 0).lookForSame (fun _ => return .boolean false) ((← bound) - start)
        start ()
  | .indexOf =>
    if length = 0 then return .number (-1)
    else
      let start ← m.searchStart length (argument args 1)
      visitIndices id (argument args 0).lookForEqual (fun _ => return .number (-1)) ((← bound) - start)
        start ()
  | _ =>
    let separator ← m.textOr (argument args 0) ","
    let count ← bound
    return .text (← noting id (m.joinIndices id separator count))

end Machine

/-! ### Elements from an index on -/

namespace Elements

variable {e : Elements Value} {x v : Value} {k : Nat}

namespace IsStored

theorem presentFrom_some {α : Type} {e : Elements α} (h : e.IsStored) {k : Nat} {v : α}
    (hv : e.get? k = some v) : e.presentFrom k = (k, v) :: e.presentFrom (k + 1) := by
  have hcons : ((k, v) :: e.presentFrom (k + 1)).Pairwise (·.1 < ·.1) :=
    List.pairwise_cons.mpr ⟨fun p hp => (h.mem_presentFrom.mp hp).1, h.ascending_presentFrom (k + 1)⟩
  refine (h.ascending_presentFrom k).eq_of_mem_iff hcons fun ⟨i, w⟩ => ?_
  rw [List.mem_cons, h.mem_presentFrom, h.mem_presentFrom, Prod.mk.injEq]
  constructor
  · rintro ⟨hi, hw⟩
    rcases Nat.eq_or_lt_of_le hi with rfl | hlt
    · exact .inl ⟨rfl, Option.some.inj (hw.symm.trans hv)⟩
    · exact .inr ⟨hlt, hw⟩
  · rintro (⟨rfl, rfl⟩ | ⟨hi, hw⟩)
    · exact ⟨Nat.le_refl _, hv⟩
    · exact ⟨Nat.le_of_succ_le hi, hw⟩

theorem presentFrom_none {α : Type} {e : Elements α} (h : e.IsStored) {k : Nat}
    (hnone : e.get? k = none) : e.presentFrom k = e.presentFrom (k + 1) := by
  refine (h.ascending_presentFrom k).eq_of_mem_iff (h.ascending_presentFrom (k + 1)) fun ⟨i, w⟩ => ?_
  rw [h.mem_presentFrom, h.mem_presentFrom]
  refine ⟨fun ⟨hi, hw⟩ => ⟨Nat.lt_of_le_of_ne hi ?_, hw⟩, fun ⟨hi, hw⟩ => ⟨Nat.le_of_succ_le hi, hw⟩⟩
  rintro rfl
  rw [hnone] at hw
  cases hw

theorem presentFrom_end {α : Type} {e : Elements α} (h : e.IsStored) {k : Nat} (hk : e.length ≤ k) :
    e.presentFrom k = [] :=
  List.eq_nil_iff_forall_not_mem.mpr fun ⟨i, v⟩ hp => by
    obtain ⟨hi, hv⟩ := h.mem_presentFrom.mp hp
    have hlt := h.lt_of_get? hv
    omega

end IsStored

/-- Undefined is the same only as what is undefined. -/
theorem isSame_undefined (x : Value) : x.isSame .undefined = x.isUndefined := by cases x <;> rfl

theorem includesFrom_end (h : e.IsStored) (x : Value) (hk : e.length ≤ k) : e.includesFrom x k = false := by
  rw [includesFrom, hasHolesFrom, h.presentFrom_end hk, Nat.sub_eq_zero_of_le hk]
  simp

theorem includesFrom_some (h : e.IsStored) (x : Value) (hv : e.get? k = some v) :
    e.includesFrom x k = (x.isSame v || e.includesFrom x (k + 1)) := by
  have hholes : e.hasHolesFrom k = e.hasHolesFrom (k + 1) := by
    rw [hasHolesFrom, hasHolesFrom, h.presentFrom_some hv, List.length_cons]
    exact decide_eq_decide.mpr (by omega)
  rw [includesFrom, includesFrom, hholes, h.presentFrom_some hv, List.any_cons]
  exact Bool.or_left_comm ..

theorem includesFrom_none (h : e.IsStored) (x : Value) (hnone : e.get? k = none) (hk : k < e.length) :
    e.includesFrom x k = (x.isUndefined || e.includesFrom x (k + 1)) := by
  have hholes : e.hasHolesFrom k = true := h.hasHolesFrom_iff.mpr ⟨k, Nat.le_refl k, hk, hnone⟩
  rw [includesFrom, includesFrom, hholes, h.presentFrom_none hnone]
  cases x.isUndefined <;> rfl

theorem indexFrom?_some (h : e.IsStored) (x : Value) (hv : e.get? k = some v) :
    e.indexFrom? x k = if x.isStrictly v then some k else e.indexFrom? x (k + 1) := by
  rw [indexFrom?, indexFrom?, h.presentFrom_some hv]
  split
  · next heq => rw [List.find?_cons_of_pos (p := fun p : Nat × Value => x.isStrictly p.2) heq]; rfl
  · next hne => rw [List.find?_cons_of_neg (p := fun p : Nat × Value => x.isStrictly p.2) hne]

end Elements

/-! ### Searches -/

section

variable {σ α : Type} {id : ObjectId} {a : Agent}

theorem lookIndices_succ (look : σ → Nat → Option Value → Eval (Sum σ α)) (finish : σ → Eval α)
    (count k : Nat) (s : σ) : lookIndices id look finish (count + 1) k s a
      = (look s k ((a.elements id).get? k) >>= Sum.elim (lookIndices id look finish count (k + 1)) pure)
        a := by
  rw [lookIndices, bind_ok (elementsOf_apply id a)]
  refine congrFun (congrArg (look s k _ >>= ·) (funext fun x => ?_)) a
  cases x <;> rfl

/-- **A search for a value, present or missing, looks at every index** up to the length; if it is no
search for what is undefined, it may look further. -/
theorem lookIndices_includes (ha : a.IsKeyed) (x : Value) {count k : Nat}
    (hcount : (a.elements id).length - k ≤ count)
    (hexact : x.isUndefined = true → count = (a.elements id).length - k) :
    lookIndices id x.lookForSame (fun _ => pure (.boolean false)) count k () a
      = .ok (.boolean ((a.elements id).includesFrom x k)) a := by
  have hstored := ha.isStored_elements id
  induction count generalizing k with
  | zero =>
    rw [Elements.includesFrom_end hstored x (by omega)]
    rfl
  | succ count ih =>
    -- A hole is looked at only in a search for `undefined`, which goes on to the very end; otherwise
    -- holes are skipped.
    have hrest := ih (k := k + 1) (by omega) fun hx => by
      have heq := hexact hx
      omega
    rw [lookIndices_succ, Value.lookForSame]
    cases hv : (a.elements id).get? k with
    | some v =>
      rw [Elements.includesFrom_some hstored x hv, Option.getD_some]
      cases x.isSame v with
      | true => rfl
      | false => exact hrest
    | none =>
      rw [Option.getD_none, Elements.isSame_undefined]
      cases hx : x.isUndefined with
      | true =>
        have heq := hexact hx
        rw [Elements.includesFrom_none hstored x hv (by omega), hx]
        rfl
      | false =>
        have hskip : (a.elements id).includesFrom x k = (a.elements id).includesFrom x (k + 1) := by
          rw [Elements.includesFrom, Elements.includesFrom, hx, hstored.presentFrom_none hv]
          rfl
        rw [hskip]
        exact hrest

/-- **A search for an equal element looks at every index** up to the length, or even further. -/
theorem visitIndices_indexOf (ha : a.IsKeyed) (x : Value) {count k : Nat}
    (hcount : (a.elements id).length - k ≤ count) :
    visitIndices id x.lookForEqual (fun _ => pure (.number (-1))) count k () a
      = (match (a.elements id).indexFrom? x k with
        | some i => pure (.ofNat i)
        | none => pure (.number (-1)) : Eval Value) a := by
  have hstored := ha.isStored_elements id
  induction count generalizing k with
  | zero =>
    rw [Elements.indexFrom?, hstored.presentFrom_end (by omega)]
    rfl
  | succ count ih =>
    have hrest := ih (k := k + 1) (by omega)
    cases hv : (a.elements id).get? k with
    | some v =>
      rw [visitIndices_visit count () hv, Value.lookForEqual, Elements.indexFrom?_some hstored x hv]
      cases x.isStrictly v with
      | true => rfl
      | false => exact hrest
    | none =>
      have hskip : visitIndices id x.lookForEqual (fun _ => pure (.number (-1))) (1 + count) k () a
          = visitIndices id x.lookForEqual (fun _ => pure (.number (-1))) count (k + 1) () a :=
        visitIndices_skip count () fun j hj hlt => by
          obtain rfl : j = k := by omega
          exact hv
      rw [Nat.add_comm, hskip, hrest, Elements.indexFrom?, Elements.indexFrom?,
        hstored.presentFrom_none hv]

/-! ### Joining -/

namespace Machine.Joining

variable {j : Machine.Joining} {separator : Text} {k : Nat}

theorem toList_separated (j : Machine.Joining) (separator : Text) (k : Nat) :
    (j.separated separator k).units.toList
      = j.text.units.toList ++ (List.replicate (k - j.separators) separator.units.toList).flatten := by
  rw [← Text.toList_replicate]
  exact Array.toList_append

theorem length_separated (j : Machine.Joining) (separator : Text) (k : Nat) :
    (j.separated separator k).length
      = j.text.length + (k - j.separators) * separator.length := by
  have hlength := congrArg List.length (j.toList_separated separator k)
  rw [List.length_append, List.length_flatten, List.map_replicate, List.sum_replicate_nat] at hlength
  exact hlength

/-- One more separator, but not in front of the first index. -/
theorem separated_next (h : j.separators ≤ k - 1) :
    (if k = 0 then j.separated separator (k - 1) else j.separated separator (k - 1) ++ separator)
      = j.separated separator k := by
  split
  · next hk => rw [hk]
  · next hk =>
    have hcount : k - j.separators = k - 1 - j.separators + 1 := by omega
    refine Text.eq_iff_units.mpr ?_
    have happend : (j.separated separator (k - 1) ++ separator).units.toList
        = (j.separated separator (k - 1)).units.toList ++ separator.units.toList :=
      Array.toList_append
    rw [happend, toList_separated, toList_separated, hcount, List.replicate_succ', List.flatten_append,
      List.flatten_singleton, List.append_assoc]

/-- Nothing is added where the last separator is. -/
theorem separated_self (j : Machine.Joining) (separator : Text) :
    j.separated separator j.separators = j.text := by
  refine Text.eq_iff_units.mpr ?_
  rw [toList_separated, Nat.sub_self]
  exact List.append_nil _

end Machine.Joining

/-- **Indices without elements add separators, and nothing else.** -/
theorem lookIndices_joinIndex_skip (m : Machine) {j : Machine.Joining} {separator : Text} {length count k : Nat}
    (rest : Nat) (hk : j.separators ≤ k - 1)
    (hnone : ∀ i, k ≤ i → i < k + count → (a.elements id).get? i = none) :
    lookIndices id (m.joinIndex separator length) pure (count + rest) k (j.separated separator (k - 1)) a
      = lookIndices id (m.joinIndex separator length) pure rest (k + count)
        (j.separated separator (k + count - 1)) a := by
  induction count generalizing k with
  | zero => rw [Nat.zero_add, Nat.add_zero]
  | succ count ih =>
    have hstep : lookIndices id (m.joinIndex separator length) pure (count + 1 + rest) k
          (j.separated separator (k - 1)) a
        = lookIndices id (m.joinIndex separator length) pure (count + rest) (k + 1)
          (j.separated separator (k + 1 - 1)) a := by
      rw [Nat.add_right_comm, lookIndices_succ, hnone k (Nat.le_refl k) (by omega), Machine.joinIndex,
        Machine.Joining.separated_next hk]
      rfl
    have hplace : k + (count + 1) = k + 1 + count := by omega
    rw [hstep, hplace]
    exact ih (by omega) fun i hi hlt => hnone i (by omega) (by omega)

end

/-- Conversions of objects leave the keys of objects in order, whatever else they do. -/
def Machine.ConversionsMove (m : Machine) : Prop := ∀ o hint, Moving (m.run (.primitive o hint))

section

variable {m : Machine} (hm : m.ConversionsMove) {id : ObjectId} {a : Agent}

include hm

theorem Machine.ConversionsMove.toPrimitive (v : Value) (hint : Hint) : Moving (m.toPrimitive v hint) := by
  cases v with
  | object o => exact hm o hint
  | _ => exact .still fun _ => rfl

theorem Machine.ConversionsMove.toText (v : Value) : Moving (m.toText v) :=
  Leads.seq Agent.Moves.trans (hm.toPrimitive v .text) fun w => Law.textOf (L := keeping.toLaw) w

theorem Machine.ConversionsMove.toInteger (v : Value) : Moving (m.toInteger v) :=
  Leads.seq Agent.Moves.trans
    (Leads.seq Agent.Moves.trans (hm.toPrimitive v .number) fun w =>
      Law.numberOf (L := keeping.toLaw) w)
    fun _ => Moving.still fun _ => rfl

theorem Machine.ConversionsMove.textOr (v : Value) (missing : Text) : Moving (m.textOr v missing) := by
  unfold Machine.textOr
  split
  · exact .still fun _ => rfl
  · exact hm.toText v

/-- **Jumping from element to element, and putting the separators between them all at once**, is the
same as putting one in front of every index. -/
theorem iterate_joinNext {separator : Text} {length : Nat} (fuel : Nat) (j : Machine.Joining) (ha : a.IsKeyed)
    (hfuel : length - j.next < fuel) (hnext : j.next ≤ length) (hseparators : j.separators ≤ j.next - 1)
    (hlength : j.length = j.text.length + (length - 1 - j.separators) * separator.length) :
    iterate (m.joinNext id separator length) fuel j a
      = lookIndices id (m.joinIndex separator length) pure (length - j.next) j.next
        (j.separated separator (j.next - 1)) a := by
  induction fuel generalizing j a with
  | zero => exact absurd hfuel (Nat.not_lt_zero _)
  | succ fuel ih =>
    have hend : ∀ (hnone : ∀ i, j.next ≤ i → i < length → (a.elements id).get? i = none),
        lookIndices id (m.joinIndex separator length) pure (length - j.next) j.next
          (j.separated separator (j.next - 1)) a = .ok (j.separated separator (length - 1)) a := by
      intro hnone
      have hskip : lookIndices id (m.joinIndex separator length) pure (length - j.next + 0) j.next
            (j.separated separator (j.next - 1)) a
          = .ok (j.separated separator (j.next + (length - j.next) - 1)) a :=
        lookIndices_joinIndex_skip m 0 hseparators fun i hi hlt => hnone i hi (by omega)
      rw [Nat.add_sub_cancel' hnext] at hskip
      exact hskip
    rw [iterate_succ]
    unfold Machine.joinNext
    rw [bind_assoc, bind_ok (get_apply a)]
    obtain ⟨hjump, hnone⟩ | ⟨i, v, hjump, hki, hv, -, hbefore⟩ := ha.nextPresent?_cases id j.next
    · rw [hjump, hend fun i hi _ => hnone i hi]
      rfl
    · rw [hjump]
      dsimp only
      split
      · next hle =>
        rw [hend fun i' hi hlt => hbefore i' hi (by omega)]
        rfl
      · next hlt =>
        -- The indices before the element are passed over, and the others are left for later.
        have hsplit : length - j.next = i - j.next + (length - (i + 1) + 1) := by omega
        have hplace : j.next + (i - j.next) = i := by omega
        rw [hsplit, lookIndices_joinIndex_skip m _ hseparators fun i' hi hlt => hbefore i' hi (by omega),
          hplace, lookIndices_succ, hv, Machine.joinIndex, Option.getD_some,
          Machine.Joining.separated_next (by omega)]
        dsimp only
        cases hnullish : v.isNullish with
        | true =>
          exact ih { j with next := i + 1 } ha (by simp only; omega) (by simp only; omega)
            (by simp only; omega) hlength
        | false =>
          have hmoves := hm.toText v a
          rw [if_neg Bool.false_ne_true, if_neg Bool.false_ne_true, bind_assoc, bind_assoc]
          cases ht : m.toText v a with
          | error x b => rw [bind_error ht, bind_error ht]
          | ok t b =>
            rw [after_ok ht] at hmoves
            rw [bind_ok ht, bind_ok ht]
            have hadded : (j.separated separator i ++ t).length
                = j.text.length + (i - j.separators) * separator.length + t.length := by
              rw [← j.length_separated]
              exact Array.size_append
            -- The separators that are still to come are counted already.
            have htotal : j.length + t.length = (j.separated separator i ++ t).length
                + (length - 1 - i) * separator.length := by
              have hall : length - 1 - j.separators = i - j.separators + (length - 1 - i) := by omega
              rw [hlength, hadded, hall, Nat.add_mul]
              omega
            rw [htotal]
            split
            · rfl
            · let j' : Machine.Joining := ⟨j.separated separator i ++ t,
                (j.separated separator i ++ t).length + (length - 1 - i) * separator.length, i, i + 1⟩
              have hself : j'.separated separator (j'.next - 1) = j'.text := j'.separated_self separator
              have hrest := ih j' (hmoves.isKeyed ha) (by simp only [j']; omega)
                (by simp only [j']; omega) (by simp only [j']; omega) rfl
              rw [hself] at hrest
              exact hrest

theorem joinElements_eq (ha : a.IsKeyed) (separator : Text) : m.joinElements id separator a
    = m.joinIndices id separator (a.elements id).length a := by
  unfold Machine.joinElements Machine.joinIndices
  rw [bind_ok (get_apply a)]
  split
  · rfl
  · let j : Machine.Joining := ⟨.empty, ((a.elements id).length - 1) * separator.length, 0, 0⟩
    have hself : j.separated separator (j.next - 1) = .empty := j.separated_self separator
    have hloop : iterate (m.joinNext id separator (a.elements id).length) ((a.elements id).length + 1) j a
        = lookIndices id (m.joinIndex separator (a.elements id).length) pure (a.elements id).length 0
          (j.separated separator (j.next - 1)) a :=
      iterate_joinNext hm _ j ha (Nat.lt_succ_self _) (Nat.zero_le _) (Nat.zero_le _)
        (Nat.zero_add _).symm
    rw [hself] at hloop
    exact hloop

/-- **The text of an array is put together index by index**, with the length that the array has when
that begins. -/
theorem join_eq (ha : a.IsKeyed) (separator : Text) : m.join id separator a
    = noting id (m.joinIndices id separator (a.elements id).length) a := by
  have hjoin : m.join id separator = noting id (m.joinElements id separator) := rfl
  have hnoted : m.joinElements id separator { a with joining := id :: a.joining }
      = m.joinIndices id separator (a.elements id).length { a with joining := id :: a.joining } :=
    joinElements_eq hm (a := { a with joining := id :: a.joining }) ha separator
  rw [hjoin]
  unfold noting
  rw [bind_ok (get_apply a), bind_ok (get_apply a)]
  split
  · rfl
  · change ending (m.joinElements id separator) _ _ = ending (m.joinIndices id separator _) _ _
    unfold ending
    rw [hnoted]

end

/-! ### The methods -/

/-- The methods that search an array or join it. -/
def ArrayMethod.searches (f : ArrayMethod) : Prop := f ∈ [.includes, .indexOf, .join]

/-- Whether an index without element makes a difference to a method. -/
def ArrayMethod.countsMissing (f : ArrayMethod) (args : List Value) : Bool :=
  match f with
  | .join => true
  | .includes => (argument args 0).isUndefined
  | _ => false

/-- The method makes no difference between the length that it reads and the one that the array has
afterwards. -/
structure ArrayMethod.Bounded (f : ArrayMethod) (args : List Value) (old new : Nat) : Prop where
  /-- The array does not get longer. -/
  le : new ≤ old
  /-- If it gets shorter, what is missing does not matter. -/
  eq : f.countsMissing args = true → new = old

/-- What a method converts before it looks at an array. -/
def Machine.convertArgument (m : Machine) (f : ArrayMethod) (args : List Value) : Eval Unit := do
  match f with
  | .join => let _ ← m.textOr (argument args 0) ","
  | _ => let _ ← m.toInteger (argument args 1)

/-- The conversion of the argument leaves the array at a length that makes no difference. -/
def Machine.ConvertsBounded (m : Machine) (f : ArrayMethod) (args : List Value) (id : ObjectId)
    (a : Agent) : Prop :=
  ∀ b, m.convertArgument f args a = .ok () b →
    f.Bounded args (a.elements id).length (b.elements id).length

section

variable {m : Machine} (hm : m.ConversionsMove) {a b : Agent} (ha : a.IsKeyed) (args : List Value)
  {again : Bool} {id : ObjectId}

/-- With a bound that is read again, or is the same, the method makes no difference. -/
theorem bounded_of_converts {f : ArrayMethod} (hconvert : m.convertArgument f args a = .ok () b)
    (hbounded : again = false → m.ConvertsBounded f args id a) :
    f.Bounded args (if again then (b.elements id).length else (a.elements id).length)
      (b.elements id).length := by
  cases again with
  | false => exact hbounded rfl b hconvert
  | true => exact ⟨Nat.le_refl _, fun _ => rfl⟩

theorem bound_apply (length : Nat) (b : Agent) :
    (do if again then return (← elementsOf id).length else return length : Eval Nat) b
      = .ok (if again then (b.elements id).length else length) b := by
  cases again <;> rfl

include hm ha

/-- After the start of a search has been converted, the bound is as it should be. -/
theorem searchStart_bounded {f : ArrayMethod} (hf : f ≠ .join) {length start : Nat}
    (hstart : m.searchStart length (argument args 1) a = .ok start b)
    (hbounded : again = false → m.ConvertsBounded f args id a) : b.IsKeyed ∧
      f.Bounded args (if again then (b.elements id).length else (a.elements id).length)
        (b.elements id).length := by
  obtain ⟨x, c, hx, hc⟩ := bind_eq_ok hstart
  cases hc
  have hmoves := hm.toInteger (argument args 1) a
  rw [after_ok hx] at hmoves
  have hconvert : m.convertArgument f args a = .ok () b := by
    unfold Machine.convertArgument
    split
    · exact absurd rfl hf
    · exact bind_ok hx
  exact ⟨hmoves.isKeyed ha, bounded_of_converts args hconvert hbounded⟩

theorem includes_eq (harray : (a.object id).isArray = true)
    (hbounded : again = false → m.ConvertsBounded .includes args id a) :
    m.arrayMethod .includes (.object id) args a = m.searchIndices .includes again id args a := by
  unfold Machine.arrayMethod Machine.searchIndices
  rw [bind_ok (thisArray_eq harray .includes), bind_ok (elementsOf_apply id a),
    bind_ok (elementsOf_apply id a)]
  dsimp only
  split
  · rfl
  · refine bind_congr_ok fun start b hstart => ?_
    obtain ⟨hb, hle, hmissing⟩ := searchStart_bounded hm ha (f := .includes) args nofun hstart hbounded
    rw [bind_ok (elementsOf_apply id b), bind_ok (bound_apply _ b)]
    exact (lookIndices_includes hb (argument args 0) (by omega) fun hx =>
      congrArg (· - start) (hmissing hx).symm).symm

theorem indexOf_eq (harray : (a.object id).isArray = true)
    (hbounded : again = false → m.ConvertsBounded .indexOf args id a) :
    m.arrayMethod .indexOf (.object id) args a = m.searchIndices .indexOf again id args a := by
  unfold Machine.arrayMethod Machine.searchIndices
  rw [bind_ok (thisArray_eq harray .indexOf), bind_ok (elementsOf_apply id a),
    bind_ok (elementsOf_apply id a)]
  dsimp only
  split
  · rfl
  · refine bind_congr_ok fun start b hstart => ?_
    obtain ⟨hb, hle, -⟩ := searchStart_bounded hm ha (f := .indexOf) args nofun hstart hbounded
    rw [bind_ok (elementsOf_apply id b), bind_ok (bound_apply _ b)]
    exact (visitIndices_indexOf hb (argument args 0) (by omega)).symm

theorem join_method_eq (harray : (a.object id).isArray = true)
    (hbounded : again = false → m.ConvertsBounded .join args id a) :
    m.arrayMethod .join (.object id) args a = m.searchIndices .join again id args a := by
  unfold Machine.arrayMethod Machine.searchIndices
  rw [bind_ok (thisArray_eq harray .join), bind_ok (elementsOf_apply id a),
    bind_ok (elementsOf_apply id a)]
  refine bind_congr_ok fun separator b hseparator => ?_
  have hmoves : a.Moves b := by
    have hafter := hm.textOr (argument args 0) "," a
    rwa [after_ok hseparator] at hafter
  have hconvert : m.convertArgument .join args a = .ok () b := bind_ok hseparator
  obtain ⟨-, hsame⟩ := bounded_of_converts args hconvert hbounded
  rw [bind_ok (bound_apply _ b), ← hsame rfl]
  exact bind_congr_left (join_eq hm (hmoves.isKeyed ha) separator)

/-- The methods search and join index by index: with the length that the array has after the
conversion, or, if the conversion is such that it makes no difference, with the one that it has
before. -/
theorem arrayMethod_searchIndices {f : ArrayMethod} (hf : f.searches) (this : Value)
    (hbounded : again = false → ∀ id, this = .object id → m.ConvertsBounded f args id a) :
    m.arrayMethod f this args a = (do m.searchIndices f again (← thisArray f this) args) a := by
  cases hthis : thisArray f this a with
  | error i b =>
    rw [bind_error hthis]
    exact bind_error hthis
  | ok id b =>
    obtain ⟨rfl, rfl, harray⟩ := thisArray_ok hthis
    rw [bind_ok hthis]
    have hsame : again = false → m.ConvertsBounded f args id b := fun h => hbounded h id rfl
    simp only [ArrayMethod.searches, List.mem_cons, List.not_mem_nil, or_false] at hf
    obtain rfl | rfl | rfl := hf
    · exact includes_eq hm ha args harray hsame
    · exact indexOf_eq hm ha args harray hsame
    · exact join_method_eq hm ha args harray hsame

end

/-- **Searching and joining go index by index.**  The length is read first, then the argument is
converted; then the length is read again, and each index below it is looked at in its turn, whatever
has become of the array.  Unless the conversion makes the array longer, or shorter where missing
elements matter, it is no difference that the length is read again: the array is looked at up to the
length that was read first.  All that is assumed of conversions is that they leave the keys of
objects in order, as those of programs do; and in order the keys are in whatever agent there is. -/
theorem arrayMethod_searches (f : ArrayMethod) (hf : f.searches) (this : Value) (args : List Value) :
    (∀ (m : Machine) (a : Agent), m.ConversionsMove → a.IsKeyed →
      m.arrayMethod f this args a = (do m.searchIndices f true (← thisArray f this) args) a ∧
      ((∀ id, this = .object id → m.ConvertsBounded f args id a) →
        m.arrayMethod f this args a = (do m.searchIndices f false (← thisArray f this) args) a)) ∧
    (∀ n, (Machine.ofDepth n).ConversionsMove) ∧
    ∀ (n : Nat) (isVerbose : Bool) (requests : List (Request × Tidying)),
      (Agent.ofRequests n isVerbose requests).IsKeyed :=
  ⟨fun _ _ hm ha => ⟨arrayMethod_searchIndices hm ha args hf this nofun, fun hbounded =>
      arrayMethod_searchIndices hm ha args hf this fun _ => hbounded⟩,
    fun n o hint => moves_run n (.primitive o hint), isKeyed_ofRequests⟩

/-- An array of two values that is converted by taking the last one out of it. -/
def Object.yielding (v w : Value) : Object :=
  { Object.ofKind (.array (.ofList [v, w])) with
    properties := #[.data "toString" (.object ⟨1⟩), .data "valueOf" (.object ⟨1⟩)] }

/-- An agent that has such an array. -/
def Agent.yielding (v w : Value) : Agent :=
  { Agent.new false with objects := #[.yielding v w, .ofKind (.builtin (.arrayMethod .pop))] }

theorem Agent.isKeyed_yielding (v w : Value) : (Agent.yielding v w).IsKeyed := by
  have hkeys : ∀ k ∈ [("toString" : PropertyKey), ("valueOf" : PropertyKey)],
      k.arrayIndex? = none ∧ k.isNamed "length" = false := by decide +kernel
  intro o ho
  rcases List.mem_cons.mp ho.val with rfl | ho
  · refine ⟨?_, fun _ => hkeys, fun e he => ?_⟩
    · change [("toString" : PropertyKey), ("valueOf" : PropertyKey)].Nodup
      decide +kernel
    · cases he
      exact ⟨Elements.isStored_ofList _, (by decide : 2 ≤ maxArrayLength)⟩
  · rw [List.mem_singleton.mp ho]
    exact Object.isKeyed_ofKind nofun

/-- An array that is inside itself loses its last element while it is joined: where it was there is
an empty text. -/
theorem arrayMethod_searches_yielding :
    let m := Machine.ofDepth 3
    let a := Agent.yielding (.object ⟨0⟩) (.boolean true)
    ArrayMethod.searches .join ∧ m.ConversionsMove ∧ a.IsKeyed ∧
      (∀ id, Value.object ⟨0⟩ = .object id → m.ConvertsBounded .join [] id a) ∧
      m.arrayMethod .join (.object ⟨0⟩) [] a
        = (do m.searchIndices .join false (← thisArray .join (.object ⟨0⟩)) []) a ∧
      ((m.arrayMethod .join (.object ⟨0⟩) []).run' a).any (·.isStrictly (.ofString "true,")) = true := by
  have hf : ArrayMethod.searches .join := by simp [ArrayMethod.searches]
  have hsearches := arrayMethod_searches .join hf (.object ⟨0⟩) []
  have ha := Agent.isKeyed_yielding (.object ⟨0⟩) (.boolean true)
  have hbounded : ∀ id, Value.object ⟨0⟩ = .object id →
      (Machine.ofDepth 3).ConvertsBounded .join [] id (.yielding (.object ⟨0⟩) (.boolean true)) := by
    intro id _ b hb
    cases hb
    exact ⟨Nat.le_refl _, fun _ => rfl⟩
  exact ⟨hf, hsearches.2.1 3, ha, hbounded, (hsearches.1 _ _ (hsearches.2.1 3) ha).2 hbounded,
    by decide +kernel⟩

/-- The array loses its last element when the index is converted at which a search for undefined
starts.  It had two elements, so the rule finds none at the second index; but the search ends at the
first one. -/
theorem includes_overlooks_missing :
    let m := Machine.ofDepth 3
    let a := Agent.yielding (.boolean true) (.boolean false)
    let args := [.undefined, .object ⟨0⟩]
    m.ConversionsMove ∧ a.IsKeyed ∧
      ((m.arrayMethod .includes (.object ⟨0⟩) args).run' a).map Value.isTrue = some false ∧
      ((do m.searchIndices .includes false (← thisArray .includes (.object ⟨0⟩)) args : Eval Value).run'
        a).map Value.isTrue = some true :=
  ⟨fun o hint => moves_run 3 (.primitive o hint), Agent.isKeyed_yielding _ _, by decide +kernel,
    by decide +kernel⟩

end Scriptlet
