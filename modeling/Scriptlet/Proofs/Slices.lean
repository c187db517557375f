import Scriptlet.Proofs.KeyHistories
import Scriptlet.Proofs.WholeNumbers

/-!
# Parts of arrays

An array is cut at an index, and its parts are put together again.  Each part is made anew, element
by element, in storages of its own; what comes of it does not depend on how the elements are stored.
So the parts are looked at as rows, and of these it is plain that they make up the row they were cut
from.

## Main definitions

* `Row.slice`, `Row.append` — a part of a row, and a row behind another.
* `Elements.IsCut` — an array in two parts, and a whole.
* `Agent.withNew`, `Agent.pushArray` — an agent with one more object, or one more array.

## Main results

* `Elements.IsStored.row_slice`, `Elements.IsStored.row_append` — what the parts of arrays are, and
  what they are together.
* `Elements.IsStored.present_slices` — every element is in one of two parts, and only once.
* `Elements.IsStored.isCut` — **two parts of an array are the array**.
* `arrayMethod_slice`, `arrayMethod_concat` — the parts, and what is put together, are new arrays.
* `concat_slices` — so **cutting an array and putting it together again makes a copy**.
-/

namespace Scriptlet

open Eval

namespace Row

variable {α : Type}

/-- The elements from one index up to another one. -/
def slice (r : Row α) (start stop : Nat) : Row α :=
  ⟨stop - start, fun i => if i < stop - start then r.get? (start + i) else none⟩

/-- A row behind another. -/
def append (r s : Row α) : Row α :=
  ⟨r.length + s.length, fun i => if i < r.length then r.get? i else s.get? (i - r.length)⟩

/-- Two parts of a row are the row. -/
theorem append_slice {r : Row α} (hr : ∀ i, r.length ≤ i → r.get? i = none) {k : Nat}
    (hk : k ≤ r.length) : (r.slice 0 k).append (r.slice k r.length) = r := by
  ext i : 2
  · exact Nat.add_sub_cancel' hk
  · change (if i < k - 0 then (if i < k - 0 then r.get? (0 + i) else none)
      else if i - (k - 0) < r.length - k then r.get? (k + (i - (k - 0))) else none) = r.get? i
    rw [Nat.sub_zero, Nat.zero_add]
    by_cases hi : i < k
    · rw [if_pos hi, if_pos hi]
    · rw [if_neg hi, Nat.add_sub_cancel' (Nat.le_of_not_lt hi)]
      split
      · rfl
      · exact (hr i (by omega)).symm

end Row

namespace Elements

variable {α : Type} {e f : Elements α}

theorem row_eq_iff : e.row = f.row ↔ e.length = f.length ∧ ∀ i, e.get? i = f.get? i :=
  (Row.mk.injEq ..).to_iff.trans (and_congr_right fun _ => funext_iff)

/-- In an ascending list, the elements in front of one at an index are those below it. -/
theorem mem_takeWhile {l : List (Nat × α)} (h : l.Pairwise (·.1 < ·.1)) {n : Nat} {p : Nat × α} :
    p ∈ l.takeWhile (·.1 < n) ↔ p ∈ l ∧ p.1 < n := by
  constructor
  · intro hp
    exact ⟨(List.takeWhile_subset _) hp, by simpa using List.mem_takeWhile_imp hp⟩
  · rintro ⟨hp, hlt⟩
    rw [← List.takeWhile_append_dropWhile (p := (·.1 < n)) (l := l), List.mem_append] at hp
    exact hp.resolve_right fun hdrop => by
      have := le_of_mem_dropWhile h hdrop
      omega

/-- What is appended is set behind the other elements, one after the other. -/
theorem append_eq_foldl (e f : Elements α) :
    e.append f = ((moved (e.length + ·) f.present).foldl (fun e (i, v) => e.set i v) e).setLength
      (e.length + f.length) := by
  rw [moved, List.foldl_map]
  rfl

namespace IsStored

/-- There is nothing at the length of an array, or behind it. -/
theorem get?_of_length_le (h : e.IsStored) {i : Nat} (hi : e.length ≤ i) : e.get? i = none :=
  Option.eq_none_iff_forall_ne_some.mpr fun _ hv => Nat.not_lt.mpr hi (h.lt_of_get? hv)

/-- **A part of an array is that part of its row.** -/
theorem row_slice (h : e.IsStored) (start stop : Nat) :
    (e.slice start stop).row = e.row.slice start stop := by
  have hascending := h.ascending_presentFrom start
  -- The entries are those from `start` on, as long as they are below `stop`.
  have hentry : ∀ {i v}, (i, v) ∈ (e.presentFrom start).takeWhile (·.1 < stop) ↔
      (start ≤ i ∧ e.get? i = some v) ∧ i < stop := fun {i v} => by
    rw [mem_takeWhile hascending, h.mem_presentFrom]
  refine row_ofEntries_eq (nodup_moved (f := (· - start)) ?_ ?_) ?_ ?_ false
  · exact hascending.sublist (List.takeWhile_sublist _)
  · rintro ⟨i, v⟩ hp ⟨j, w⟩ - (hij : i < j)
    obtain ⟨⟨hi, -⟩, -⟩ := hentry.mp hp
    change i - start ≠ j - start
    omega
  · rintro ⟨i, v⟩ hp
    obtain ⟨j, hj, rfl⟩ := mem_moved.mp hp
    obtain ⟨⟨hstart, -⟩, hstop⟩ := hentry.mp hj
    change j - start < stop - start
    omega
  · intro i v
    change _ ∈ moved (· - start) _ ↔ (if i < stop - start then e.get? (start + i) else none) = some v
    rw [mem_moved]
    constructor
    · rintro ⟨j, hj, rfl⟩
      obtain ⟨⟨hstart, hv⟩, hstop⟩ := hentry.mp hj
      rw [if_pos (by omega), Nat.add_sub_cancel' hstart]
      exact hv
    · intro hv
      split at hv
      · exact ⟨start + i, hentry.mpr ⟨⟨Nat.le_add_right .., hv⟩, by omega⟩, Nat.add_sub_cancel_left ..⟩
      · cases hv

theorem length_slice (h : e.IsStored) (start stop : Nat) : (e.slice start stop).length = stop - start :=
  congrArg Row.length (h.row_slice start stop)

/-- **An array behind another is the row behind the other.** -/
theorem row_append (h : e.IsStored) (hf : f.IsStored) : (e.append f).row = e.row.append f.row := by
  let entries := moved (e.length + ·) f.present
  -- The second list stands behind the first, so that none of its entries meets one of the first.
  have hentry : ∀ {i v}, (i, v) ∈ entries ↔ e.length ≤ i ∧ f.get? (i - e.length) = some v := by
    intro i v
    rw [mem_moved]
    constructor
    · rintro ⟨j, hj, rfl⟩
      rw [Nat.add_sub_cancel_left]
      exact ⟨Nat.le_add_right .., hf.mem_present.mp hj⟩
    · rintro ⟨hi, hv⟩
      exact ⟨i - e.length, hf.mem_present.mpr hv, Nat.add_sub_cancel' hi⟩
  have hkeys : (entries.map Prod.fst).Nodup :=
    nodup_moved (hf.ascending_presentFrom 0) fun p _ q _ hlt => by omega
  obtain ⟨hstored, hrow⟩ := isStored_foldl_set h entries
  have hsets : e.append f
      = (entries.foldl (fun e (i, v) => e.set i v) e).setLength (e.length + f.length) :=
    append_eq_foldl e f
  rw [hsets, row_setLength hstored, hrow]
  ext i : 2
  · rfl
  · change (if i < e.length + f.length then (entries.foldl (fun r (i, v) => r.set i v) e.row).get? i
      else none) = if i < e.length then e.get? i else f.get? (i - e.length)
    rw [get?_foldl_set hkeys]
    change (if i < e.length + f.length then (find? i entries).or (e.get? i) else none) = _
    by_cases hi : i < e.length
    · have hnone : find? i entries = none := find?_eq_none fun p hp hpi => by
        have hle := (hentry.mp hp).1
        omega
      rw [if_pos (by omega), if_pos hi, hnone, Option.none_or]
    · have hmoved : find? i entries = f.get? (i - e.length) := Option.ext fun v => by
        rw [find?_eq_some_iff hkeys, hentry]
        exact and_iff_right (Nat.le_of_not_lt hi)
      rw [h.get?_of_length_le (Nat.le_of_not_lt hi), Option.or_none, if_neg hi, hmoved]
      split
      · rfl
      · exact (hf.get?_of_length_le (by omega)).symm

theorem ascending_present (h : e.IsStored) : e.present.Pairwise (·.1 < ·.1) :=
  h.ascending_presentFrom 0

/-- **Every element is in one of two parts, and only once.** -/
theorem present_slices (h : e.IsStored) (k : Nat) :
    (e.slice 0 k).present ++ moved (k + ·) (e.slice k e.length).present = e.present := by
  have hpart : ∀ {start stop i v}, (i, v) ∈ (e.slice start stop).present ↔
      i < stop - start ∧ e.get? (start + i) = some v := by
    intro start stop i v
    have hget : (e.slice start stop).get? i
        = if i < stop - start then e.get? (start + i) else none :=
      congrArg (fun r : Row α => r.get? i) (h.row_slice start stop)
    rw [(isStored_slice e start stop).mem_present, hget]
    split
    · next hi => exact (and_iff_right hi).symm
    · next hi => exact ⟨nofun, fun hv => absurd hv.1 hi⟩
  have hfront := (isStored_slice e 0 k).ascending_present
  have hback : (moved (k + ·) (e.slice k e.length).present).Pairwise (·.1 < ·.1) :=
    List.pairwise_map.mpr ((isStored_slice e k e.length).ascending_present.imp fun hlt =>
      Nat.add_lt_add_left hlt k)
  have hboth := List.pairwise_append.mpr ⟨hfront, hback, fun p hp q hq => by
    obtain ⟨j, -, hj⟩ := mem_moved.mp hq
    have hlt : p.1 < k - 0 := (hpart.mp hp).1
    omega⟩
  -- Both are ascending, so that it is enough that they have the same elements.
  refine hboth.eq_of_mem_iff h.ascending_present fun ⟨i, v⟩ => ?_
  rw [List.mem_append, mem_moved, h.mem_present, hpart, Nat.zero_add, Nat.sub_zero]
  constructor
  · rintro (⟨-, hv⟩ | ⟨j, hj, rfl⟩)
    · exact hv
    · exact (hpart.mp hj).2
  · intro hv
    have hlt := h.lt_of_get? hv
    by_cases hi : i < k
    · exact .inl ⟨hi, hv⟩
    · have hplace : k + (i - k) = i := Nat.add_sub_cancel' (Nat.le_of_not_lt hi)
      exact .inr ⟨i - k, hpart.mpr ⟨by omega, by rw [hplace]; exact hv⟩, hplace⟩

end IsStored

/-- What is put behind an array does not matter for whether it may change. -/
theorem isFrozen_append (e f : Elements α) : (e.append f).isFrozen = e.isFrozen := by
  have hall : ∀ (l : List (Nat × α)) (x : Elements α),
      (l.foldl (fun x p => x.set (e.length + p.1) p.2) x).isFrozen = x.isFrozen := by
    intro l
    induction l with
    | nil => exact fun x => rfl
    | cons p l ih => exact fun x => (ih _).trans (isFrozen_set x _ _)
  unfold append
  rw [setLength_eq]
  exact hall f.present e

/-- An array is cut at an index: in front there are the elements before it, and in the back there
are those from it on.  The whole is an array that has the elements and the length of the array. -/
structure IsCut (e : Elements α) (k : Nat) (front back whole : Elements α) : Prop where
  length_front : front.length = k
  length_back : k + back.length = e.length
  /-- Every element is in one of the parts, and only once. -/
  present : front.present ++ moved (k + ·) back.present = e.present
  length_whole : whole.length = e.length
  /-- Where there are elements in the array, these are in the whole, and nothing is elsewhere. -/
  get?_whole : ∀ i, whole.get? i = e.get? i
  thawed : whole.isFrozen = false

/-- **Two parts of an array are the array.** -/
theorem IsStored.isCut (h : e.IsStored) {k : Nat} (hk : k ≤ e.length) :
    e.IsCut k (e.slice 0 k) (e.slice k e.length)
      ((e.slice 0 k).thawed.append (e.slice k e.length)) := by
  have hthawed : (e.slice 0 k).thawed.IsStored := (isStored_slice e 0 k).withFrozen false
  have hwhole : ((e.slice 0 k).thawed.append (e.slice k e.length)).row = e.row := by
    have hrow : (e.slice 0 k).thawed.row = e.row.slice 0 k := h.row_slice 0 k
    rw [hthawed.row_append (isStored_slice e k e.length), hrow, h.row_slice]
    exact Row.append_slice (fun i hi => h.get?_of_length_le hi) hk
  obtain ⟨hlength, hget⟩ := row_eq_iff.mp hwhole
  exact
    { length_front := h.length_slice 0 k
      length_back := by rw [h.length_slice, Nat.add_sub_cancel' hk]
      present := h.present_slices k
      length_whole := hlength
      get?_whole := hget
      thawed := isFrozen_append (e.slice 0 k).thawed _ }

theorem IsSound.slice (h : e.IsSound) (start : Nat) {stop : Nat} (hstop : stop ≤ e.length) :
    (e.slice start stop).IsSound :=
  ⟨isStored_slice e start stop, by
    rw [h.stored.length_slice]
    exact (Nat.sub_le ..).trans (hstop.trans h.fits)⟩

end Elements

/-! ### New objects -/

namespace Agent

/-- The agent with a new object. -/
def withNew (a : Agent) (x : Object) : Agent := { a with objects := a.objects.push x }

/-- The agent with one more object, an array that has the given elements. -/
def pushArray (a : Agent) (e : Elements Value) : Agent :=
  { a with objects := a.objects.push (.ofKind (.array e)) }

variable {a : Agent} {id : ObjectId}

/-- The objects that there were are what they were. -/
theorem object_withNew_of_lt (h : id.index < a.objects.size) (x : Object) :
    (a.withNew x).object id = a.object id := by
  rw [object_eq_getD, object_eq_getD, withNew, Array.getElem?_push_lt h, Array.getElem?_eq_getElem h]

theorem object_withNew (a : Agent) (x : Object) : (a.withNew x).object ⟨a.objects.size⟩ = x := by
  rw [object_eq_getD, withNew, Array.getElem?_push_size]
  rfl

theorem elements_withNew (h : id.index < a.objects.size) (x : Object) :
    (a.withNew x).elements id = a.elements id := by
  rw [elements, elements, object_withNew_of_lt h]

theorem IsKeyed.withNew (h : a.IsKeyed) {x : Object} (hx : x.IsKeyed) : (a.withNew x).IsKeyed :=
  fun o ho => by
    rcases Array.mem_push.mp ho with ho | rfl
    · exact h o ho
    · exact hx

theorem size_pushArray (a : Agent) (e : Elements Value) :
    (a.pushArray e).objects.size = a.objects.size + 1 := Array.size_push _

theorem lt_size_of_isArray (h : (a.object id).isArray = true) : id.index < a.objects.size := by
  by_cases hlt : id.index < a.objects.size
  · exact hlt
  · rw [Agent.object, Array.getD_eq_getD_getElem?, Array.getElem?_eq_none (Nat.le_of_not_lt hlt)] at h
    cases h

theorem object_pushArray (h : id.index < a.objects.size) (e : Elements Value) :
    (a.pushArray e).object id = a.object id := object_withNew_of_lt h _

theorem object_pushArray_new (a : Agent) (e : Elements Value) :
    (a.pushArray e).object ⟨a.objects.size⟩ = .ofKind (.array e) := a.object_withNew _

theorem elements_pushArray (h : id.index < a.objects.size) (e : Elements Value) :
    (a.pushArray e).elements id = a.elements id := elements_withNew h _

/-- Of two new arrays, the first one is the new object of the agent without the second. -/
theorem object_pushArray_first (a : Agent) (front back : Elements Value) :
    ((a.pushArray front).pushArray back).object ⟨a.objects.size⟩ = .ofKind (.array front) := by
  have hlt : a.objects.size < (a.pushArray front).objects.size := by
    rw [size_pushArray]
    exact Nat.lt_succ_self _
  exact (object_pushArray hlt back).trans (a.object_pushArray_new front)

theorem object_pushArray_second (a : Agent) (front back : Elements Value) :
    ((a.pushArray front).pushArray back).object ⟨a.objects.size + 1⟩ = .ofKind (.array back) := by
  rw [← a.size_pushArray front]
  exact object_pushArray_new _ back

theorem IsKeyed.pushArray (h : a.IsKeyed) {e : Elements Value} (he : e.IsSound) :
    (a.pushArray e).IsKeyed := h.withNew (Object.isKeyed_array he)

theorem IsKeyed.isSound_elements (h : a.IsKeyed) (id : ObjectId) : (a.elements id).IsSound := by
  rw [Agent.elements]
  cases he : (a.object id).elements? with
  | none => exact ⟨Elements.isStored_empty 0 false, Nat.zero_le _⟩
  | some e => exact (h.object id).sound e he

end Agent

theorem allocateArray_apply {e : Elements Value} (h : e.length ≤ maxArrayLength) (a : Agent) :
    allocateArray e a = .ok ⟨a.objects.size⟩ (a.pushArray e) := by
  rw [allocateArray_eq (Nat.not_lt.mpr h)]
  rfl

section

variable {a : Agent} {id : ObjectId} (harray : (a.object id).isArray = true) (ha : a.IsKeyed)

include harray ha

/-- **A part of an array is a new array.** -/
theorem arrayMethod_slice (m : Machine) {start stop : Nat} (hstart : start ≤ stop)
    (hstop : stop ≤ (a.elements id).length) {args : List Value}
    (hfirst : argument args 0 = .ofNat start)
    (hsecond : argument args 1 = .ofNat stop ∨
      argument args 1 = .undefined ∧ stop = (a.elements id).length) :
    m.arrayMethod .slice (.object id) args a
      = .ok (.object ⟨a.objects.size⟩) (a.pushArray ((a.elements id).slice start stop)) := by
  -- All lengths are below 2 ^ 53, so that as numbers they are exact.
  have hfits := (ha.isSound_elements id).fits
  have hsmall : maxArrayLength < 2 ^ 53 := by decide
  have hbegin : m.searchStart (a.elements id).length (argument args 0) a = .ok start a := by
    rw [Machine.searchStart, hfirst, bind_ok (m.toInteger_ofNat (by omega) a),
      relativeIndex_ofNat (by omega), Nat.min_eq_left (by omega)]
    rfl
  have hend : m.indexOr (argument args 1) (relativeIndex · (a.elements id).length)
      (a.elements id).length a = .ok stop a := by
    rcases hsecond with hsecond | ⟨hsecond, rfl⟩
    · have hnumber : m.indexOr (.ofNat stop) (relativeIndex · (a.elements id).length)
          (a.elements id).length a
          = (do return relativeIndex (← m.toInteger (.ofNat stop)) (a.elements id).length) a := rfl
      rw [hsecond, hnumber, bind_ok (m.toInteger_ofNat (by omega) a), relativeIndex_ofNat (by omega),
        Nat.min_eq_left hstop]
      rfl
    · rw [hsecond]
      rfl
  have hlength : ((a.elements id).slice start stop).length ≤ maxArrayLength :=
    ((ha.isSound_elements id).slice start hstop).fits
  unfold Machine.arrayMethod
  rw [bind_ok (thisArray_eq harray .slice), bind_ok (elementsOf_apply id a)]
  dsimp only
  rw [bind_ok hbegin, bind_ok hend, bind_ok (elementsOf_apply id a), bind_ok (allocateArray_apply hlength a)]
  rfl

/-- An array behind another is a new array, if it may be so long. -/
theorem arrayMethod_concat (m : Machine) {back : ObjectId} (hback : (a.object back).isArray = true)
    (hroom : (a.elements id).length + (a.elements back).length ≤ maxArrayLength) :
    m.arrayMethod .concat (.object id) [.object back] a
      = .ok (.object ⟨a.objects.size⟩)
        (a.pushArray ((a.elements id).thawed.append (a.elements back))) := by
  have hstored := ha.isStored_elements id
  have hparts : appendAll (a.elements id).thawed [.object back] a
      = .ok ((a.elements id).thawed.append (a.elements back)) a := by
    have hvalue : appendValue (a.elements id).thawed (.object back) a
        = .ok ((a.elements id).thawed.append (a.elements back)) a := by
      unfold appendValue
      rw [bind_ok (get_apply a)]
      simp only [Agent.array?, hback, if_true]
      rw [bind_ok (elementsOf_apply back a)]
      exact congrFun (if_neg (Nat.not_lt.mpr hroom)) a
    rw [appendAll, bind_ok hvalue]
    rfl
  unfold Machine.arrayMethod
  rw [bind_ok (thisArray_eq harray .concat), bind_ok (elementsOf_apply id a)]
  dsimp only
  rw [bind_ok (elementsOf_apply id a), bind_ok hparts, bind_ok (allocateArray_apply hroom a)]
  rfl

/-- **A copy is made of two parts**, which are new arrays as well. -/
theorem concat_slices_apply (m : Machine) {k : Nat} (hk : k ≤ (a.elements id).length)
    {front back : Elements Value} (hfront : (a.elements id).slice 0 k = front)
    (hback : (a.elements id).slice k (a.elements id).length = back) :
    (do let front ← m.arrayMethod .slice (.object id) [.ofNat 0, .ofNat k]
        let back ← m.arrayMethod .slice (.object id) [.ofNat k]
        m.arrayMethod .concat front [back]) a
      = .ok (.object ⟨a.objects.size + 2⟩)
        (((a.pushArray front).pushArray back).pushArray (front.thawed.append back)) := by
  have hsound := ha.isSound_elements id
  have hlt := Agent.lt_size_of_isArray harray
  have hkeyed : (a.pushArray front).IsKeyed := ha.pushArray (hfront ▸ hsound.slice 0 hk)
  have hobject : (a.pushArray front).object id = a.object id := Agent.object_pushArray hlt front
  have helements : (a.pushArray front).elements id = a.elements id := a.elements_pushArray hlt front
  have hcutFront : m.arrayMethod .slice (.object id) [.ofNat 0, .ofNat k] a
      = .ok (.object ⟨a.objects.size⟩) (a.pushArray front) := by
    rw [← hfront]
    exact arrayMethod_slice harray ha m (Nat.zero_le k) hk rfl (.inl rfl)
  have hcutBack : m.arrayMethod .slice (.object id) [.ofNat k] (a.pushArray front)
      = .ok (.object ⟨a.objects.size + 1⟩) ((a.pushArray front).pushArray back) := by
    rw [← hback, ← helements, ← a.size_pushArray front]
    exact arrayMethod_slice (by rw [hobject, harray]) hkeyed m (by rw [helements]; exact hk) le_rfl
      rfl (.inr ⟨rfl, rfl⟩)
  -- Both parts are arrays that fit into one, as they did before.
  generalize hc : (a.pushArray front).pushArray back = c at hcutBack
  have hkeyedBoth : c.IsKeyed := hc ▸ hkeyed.pushArray (hback ▸ hsound.slice k le_rfl)
  have hsize : c.objects.size = a.objects.size + 2 := by
    rw [← hc, Agent.size_pushArray, Agent.size_pushArray]
  have hfirst : c.object ⟨a.objects.size⟩ = .ofKind (.array front) := by
    rw [← hc, Agent.object_pushArray_first]
  have hsecond : c.object ⟨a.objects.size + 1⟩ = .ofKind (.array back) := by
    rw [← hc, Agent.object_pushArray_second]
  have helementsFirst : c.elements ⟨a.objects.size⟩ = front := by
    rw [Agent.elements, hfirst]
    rfl
  have helementsSecond : c.elements ⟨a.objects.size + 1⟩ = back := by
    rw [Agent.elements, hsecond]
    rfl
  have hroom : (c.elements ⟨a.objects.size⟩).length + (c.elements ⟨a.objects.size + 1⟩).length
      ≤ maxArrayLength := by
    have hcut := hsound.stored.isCut hk
    have hfits := hsound.fits
    rw [helementsFirst, helementsSecond, ← hfront, ← hback, hcut.length_front, hcut.length_back]
    exact hfits
  have hjoin := arrayMethod_concat (by rw [hfirst]; rfl) hkeyedBoth m (by rw [hsecond]; rfl) hroom
  rw [helementsFirst, helementsSecond, hsize] at hjoin
  rw [bind_ok hcutFront, bind_ok hcutBack, hjoin]

end

/-- **Cutting an array and putting it together again makes a copy.**  Wherever an array is cut, its
parts are two new arrays, and the whole is a third one; all else is as it was, the array as well.
All that is assumed of the state is that the storages of arrays are in order, and so they are in
whatever agent there is. -/
theorem concat_slices :
    (∀ (m : Machine) (a : Agent) (id : ObjectId) (k : Nat), a.IsKeyed →
      (a.object id).isArray = true → k ≤ (a.elements id).length →
      ∃ front back whole : Elements Value, (a.elements id).IsCut k front back whole ∧
        ∃ b, b = ((a.pushArray front).pushArray back).pushArray whole ∧ b.IsKeyed ∧
          b.object id = a.object id ∧ b.object ⟨a.objects.size + 2⟩ = .ofKind (.array whole) ∧
          (do let front ← m.arrayMethod .slice (.object id) [.ofNat 0, .ofNat k]
              let back ← m.arrayMethod .slice (.object id) [.ofNat k]
              m.arrayMethod .concat front [back]) a = .ok (.object ⟨a.objects.size + 2⟩) b) ∧
    ∀ (n : Nat) (isVerbose : Bool) (requests : List (Request × Tidying)),
      (Agent.ofRequests n isVerbose requests).IsKeyed := by
  refine ⟨fun m a id k ha harray hk => ?_, isKeyed_ofRequests⟩
  -- The pieces are new objects behind all others; the array that was cut stays as it was.
  have hsound := ha.isSound_elements id
  have hcut := hsound.stored.isCut hk
  have hwhole : (((a.elements id).slice 0 k).thawed.append
      ((a.elements id).slice k (a.elements id).length)).IsSound :=
    ⟨((Elements.isStored_slice _ 0 k).withFrozen false).append _, by
      rw [hcut.length_whole]
      exact hsound.fits⟩
  generalize hfront : (a.elements id).slice 0 k = front at hcut hwhole
  generalize hback : (a.elements id).slice k (a.elements id).length = back at hcut hwhole
  have hkeyed := (ha.pushArray (hfront ▸ hsound.slice 0 hk)).pushArray (hback ▸ hsound.slice k le_rfl)
  have hsize : ((a.pushArray front).pushArray back).objects.size = a.objects.size + 2 := by
    rw [Agent.size_pushArray, Agent.size_pushArray]
  refine ⟨front, back, _, hcut, _, rfl, hkeyed.pushArray hwhole, ?_, ?_,
    concat_slices_apply harray ha m hk hfront hback⟩
  · have hlt := Agent.lt_size_of_isArray harray
    have hltFront : id.index < (a.pushArray front).objects.size := by
      rw [Agent.size_pushArray]
      exact Nat.lt_succ_of_lt hlt
    rw [Agent.object_pushArray (by omega), Agent.object_pushArray hltFront, Agent.object_pushArray hlt]
  · rw [← hsize]
    exact Agent.object_pushArray_new _ _

/-- An agent that has an array with an element at the start, another one far behind it, and none up
to its length. -/
def Agent.withGap : Agent :=
  { Agent.new false with
    objects := #[.ofKind (.array (((Elements.ofList [.null]).set 5000 (.boolean true)).setLength 6000))] }

theorem Agent.isKeyed_withGap : Agent.withGap.IsKeyed := by
  have hlist : (Elements.ofList [Value.null]).IsSound := ⟨Elements.isStored_ofList _, by decide⟩
  intro o ho
  rw [List.mem_singleton.mp ho.val]
  exact Object.isKeyed_array ((hlist.set (by decide) _).setLength (by decide))

/-- The array is cut in its gap: the back starts with two thousand places that are empty. -/
theorem concat_slices_gap :
    let e := Agent.withGap.elements ⟨0⟩
    let m := Machine.ofDepth 0
    Agent.withGap.IsKeyed ∧ (Agent.withGap.object ⟨0⟩).isArray = true ∧ 3000 ≤ e.length ∧
      e.present = [(0, .null), (5000, .boolean true)] ∧
    ∃ front back whole : Elements Value, e.IsCut 3000 front back whole ∧
      ∃ b, b = ((Agent.withGap.pushArray front).pushArray back).pushArray whole ∧
        (do let front ← m.arrayMethod .slice (.object ⟨0⟩) [.ofNat 0, .ofNat 3000]
            let back ← m.arrayMethod .slice (.object ⟨0⟩) [.ofNat 3000]
            m.arrayMethod .concat front [back]) .withGap = .ok (.object ⟨3⟩) b := by
  have hlength : 3000 ≤ (Agent.withGap.elements ⟨0⟩).length := by decide +kernel
  obtain ⟨front, back, whole, hcut, b, hb, -, -, -, hrun⟩ :=
    concat_slices.1 (.ofDepth 0) .withGap ⟨0⟩ 3000 Agent.isKeyed_withGap rfl hlength
  exact ⟨Agent.isKeyed_withGap, rfl, hlength, rfl, front, back, whole, hcut, b, hb, hrun⟩

end Scriptlet
