import Mathlib.Data.List.Sort
import Scriptlet.Globals
import Scriptlet.Proofs.Indices
import Scriptlet.Proofs.Outcomes
import Scriptlet.Proofs.Storage

/-!
# Keys of objects

An object has properties in two places: the elements and the length of an array are not in its list.
The keys of an object are those of its properties, each of them once, as long as the list has no key
twice and that of an array none that belongs to the other place.

## Main definitions

* `Object.created` — the keys of the list of properties.
* `Object.IsKeyed` — no key twice, and every key where it belongs.
* `Object.indices`, `Object.nameKeys`, `Object.symbolKeys` — the three groups of keys.
* `Agent.IsKeyed` — all objects are keyed.

## Main results

* `Object.IsKeyed.ownKeys_eq`, `Object.IsKeyed.ascending_indices` — the groups come one after the
  other, the indices ascending.
* `Object.IsKeyed.mem_ownKeys`, `Object.IsKeyed.nodup_ownKeys` — **the keys of an object are those of
  its properties, each of them once**.
-/

namespace Scriptlet

namespace Elements

variable {α : Type} {e f : Elements α}

/-- Elements behind others are in order. -/
theorem IsStored.append (h : e.IsStored) (f : Elements α) : (e.append f).IsStored := by
  have hall : ∀ (l : List (Nat × α)) {e : Elements α} (n : Nat), e.IsStored →
      (l.foldl (fun e p => e.set (n + p.1) p.2) e).IsStored := by
    intro l
    induction l with
    | nil => exact fun _ he => he
    | cons p l ih => exact fun n he => ih n (he.set _ _)
  exact (hall _ _ h).setLength _

theorem IsStored.pushAll (h : e.IsStored) (values : List α) : (e.pushAll values).IsStored := by
  unfold Elements.pushAll
  induction values generalizing e with
  | nil => exact h
  | cons v values ih => exact ih (h.push v)

/-- Whether nothing may change is not a matter of storage. -/
theorem IsStored.withFrozen (h : e.IsStored) (isFrozen : Bool) :
    ({ e with isFrozen := isFrozen } : Elements α).IsStored :=
  ⟨h.ascending, h.behind, h.below, h.size_le⟩

theorem isStored_ofList (values : List α) : (ofList values).IsStored := isStored_ofPlaces _

theorem isStored_ofLength (n : Nat) : (ofLength n : Elements α).IsStored := isStored_empty n false

theorem isStored_slice (e : Elements α) (start stop : Nat) : (e.slice start stop).IsStored :=
  isStored_ofEntries _ _ _

/-- The storages are in order, and there are not more elements than arrays can have. -/
structure IsSound (e : Elements α) : Prop where
  stored : e.IsStored
  fits : e.length ≤ maxArrayLength

theorem IsSound.set (h : e.IsSound) {i : Nat} (hi : i < maxArrayLength) (v : α) :
    (e.set i v).IsSound where
  stored := h.stored.set i v
  fits := by
    have hlength : (e.set i v).length = max e.length (i + 1) :=
      congrArg Row.length (row_set h.stored i v)
    rw [hlength]
    exact Nat.max_le.mpr ⟨h.fits, hi⟩

theorem IsSound.remove (h : e.IsSound) (i : Nat) : (e.remove i).IsSound where
  stored := h.stored.remove i
  fits := by
    rw [length_remove]
    exact h.fits

theorem IsSound.setLength (h : e.IsSound) {n : Nat} (hn : n ≤ maxArrayLength) :
    (e.setLength n).IsSound := ⟨h.stored.setLength n, hn⟩

theorem IsSound.pop (h : e.IsSound) : e.pop.2.IsSound := by
  unfold Elements.pop
  split
  · exact h
  · exact (h.remove _).setLength (Nat.le_trans (Nat.sub_le _ _) h.fits)

theorem IsSound.shift (h : e.IsSound) : e.shift.2.IsSound where
  stored := h.stored.shift
  fits := by
    have hlength : e.shift.2.length = e.length - 1 := congrArg Row.length (row_shift h.stored)
    rw [hlength]
    exact Nat.le_trans (Nat.sub_le _ _) h.fits

theorem IsSound.reverse (h : e.IsSound) : e.reverse.IsSound where
  stored := h.stored.reverse
  fits := by
    have hlength : e.reverse.length = e.length := congrArg Row.length (row_reverse h.stored)
    rw [hlength]
    exact h.fits

/-- Whether nothing may change is not a matter of storage, nor of length. -/
theorem IsSound.withFrozen (h : e.IsSound) (isFrozen : Bool) :
    ({ e with isFrozen := isFrozen } : Elements α).IsSound := ⟨h.stored.withFrozen isFrozen, h.fits⟩

theorem length_pushAll (h : e.IsStored) (values : List α) :
    (e.pushAll values).length = e.length + values.length := by
  unfold Elements.pushAll
  induction values generalizing e with
  | nil => rfl
  | cons v values ih =>
    have hlength : (e.push v).length = max e.length (e.length + 1) :=
      congrArg Row.length (row_push h v)
    rw [List.foldl_cons, ih (h.push v), hlength, List.length_cons]
    omega

/-- There is room for more elements at the end. -/
theorem IsStored.isSound_pushAll (h : e.IsStored) {values : List α}
    (hroom : e.length + values.length ≤ maxArrayLength) : (e.pushAll values).IsSound :=
  ⟨h.pushAll values, (length_pushAll h values).trans_le hroom⟩

/-- There is room for more elements in front. -/
theorem IsStored.isSound_unshift (h : e.IsStored) {values : List α}
    (hroom : e.length + values.length ≤ maxArrayLength) : (e.unshift values).IsSound where
  stored := h.unshift values
  fits := by
    have hlength : (e.unshift values).length = e.length + values.length :=
      congrArg Row.length (row_unshift h values)
    exact hlength.trans_le hroom

/-- An index has an element if and only if it is among those that have one. -/
theorem IsStored.mem_present_map (h : e.IsStored) {i : Nat} :
    i ∈ e.present.map (·.1) ↔ e.has i = true := by
  rw [List.mem_map, Elements.has, Option.isSome_iff_exists]
  constructor
  · rintro ⟨⟨j, v⟩, hp, rfl⟩
    exact ⟨v, h.mem_present.mp hp⟩
  · rintro ⟨v, hv⟩
    exact ⟨(i, v), h.mem_present.mpr hv, rfl⟩

theorem IsStored.has_set (h : e.IsStored) (i : Nat) (v : α) (j : Nat) :
    (e.set i v).has j = (decide (j = i) || e.has j) := by
  have hget : (e.set i v).get? j = if j = i then some v else e.get? j :=
    congrArg (fun r : Row α => r.get? j) (row_set h i v)
  rw [Elements.has, hget]
  by_cases hj : j = i
  · simp [hj]
  · simp [hj, Elements.has]

theorem has_remove (e : Elements α) (i j : Nat) :
    (e.remove i).has j = (!decide (j = i) && e.has j) := by
  rw [Elements.has, get?_remove]
  by_cases hj : j = i
  · simp [hj]
  · simp [hj, Elements.has]

end Elements

namespace Object

variable {o x : Object} {k : PropertyKey}

/-! ### Keys in order -/

/-- The keys of the list of properties, in the order in which they were created. -/
def created (o : Object) : List PropertyKey := o.properties.toList.map (·.key)

/-- No key is in the list twice, the list of an array has no key that belongs to its elements or is
its length, and the elements are where they can be. -/
structure IsKeyed (o : Object) : Prop where
  distinct : o.created.Nodup
  listed : o.isArray = true → ∀ k ∈ o.created, k.arrayIndex? = none ∧ k.isNamed "length" = false
  sound : ∀ e, o.elements? = some e → e.IsSound

theorem IsKeyed.stored (h : o.IsKeyed) (e : Elements Value) (he : o.elements? = some e) :
    e.IsStored := (h.sound e he).stored

/-- The indices that the object has properties for. -/
def indices (o : Object) : List Nat :=
  match o.elements? with
  | some e => e.present.map (·.1)
  | none => sortIndices (o.created.filterMap (·.arrayIndex?))

/-- Whether the key is a text that stands for no index. -/
def isNameKey (k : PropertyKey) : Bool := !k.isSymbol && k.arrayIndex?.isNone

/-- The texts that the object has properties for, but the indices: the length of an array first. -/
def nameKeys (o : Object) : List PropertyKey :=
  (if o.isArray then [("length" : PropertyKey)] else []) ++ o.created.filter isNameKey

/-- The symbols that the object has properties for. -/
def symbolKeys (o : Object) : List PropertyKey := o.created.filter (·.isSymbol)

theorem isNamed_iff {name : String} : k.isNamed name = true ↔ k = (name : PropertyKey) := by
  cases k with
  | text t => exact beq_iff_eq.trans ⟨fun h => h ▸ rfl, fun h => PropertyKey.text.inj h⟩
  | symbol s => exact ⟨nofun, nofun⟩

theorem isArray_iff : o.isArray = true ↔ ∃ e, o.elements? = some e := by
  obtain ⟨kind, isExtensible, properties⟩ := o
  cases kind with
  | array e => exact ⟨fun _ => ⟨e, rfl⟩, fun _ => rfl⟩
  | _ => exact ⟨nofun, nofun⟩

theorem isNameKey_length : isNameKey ("length" : PropertyKey) = true := by decide +kernel

theorem sortIndices_eq (l : List Nat) : sortIndices l = l.insertionSort (· ≤ ·) := by
  have hinsert : ∀ i l, insertIndex i l = l.orderedInsert (· ≤ ·) i := by
    intro i l
    induction l with
    | nil => rfl
    | cons j l ih => rw [insertIndex, List.orderedInsert_cons, ih]
  induction l with
  | nil => rfl
  | cons i l ih =>
    rw [List.insertionSort_cons, ← ih, ← hinsert]
    rfl

theorem mem_created : k ∈ o.created ↔ (o.listed? k).isSome = true := by
  rw [created, List.mem_map, listed?, Array.find?_isSome]
  constructor
  · rintro ⟨p, hp, rfl⟩
    exact ⟨p, Array.mem_toList_iff.mp hp, beq_self_eq_true _⟩
  · rintro ⟨p, hp, hk⟩
    exact ⟨p, Array.mem_toList_iff.mpr hp, beq_iff_eq.mp hk⟩

theorem isKeyed_ofKind {kind : ObjectKind} (h : ∀ e, kind ≠ .array e) : (ofKind kind).IsKeyed where
  distinct := List.nodup_nil
  listed := fun _ _ hk => absurd hk List.not_mem_nil
  sound := fun e he => by
    cases kind with
    | array e' => exact absurd rfl (h e')
    | _ => cases he

theorem isKeyed_array {e : Elements Value} (h : e.IsSound) : (ofKind (.array e)).IsKeyed where
  distinct := List.nodup_nil
  listed := fun _ _ hk => absurd hk List.not_mem_nil
  sound := fun e' he => by
    cases he
    exact h

/-- An object that is no array, with properties that have different keys. -/
theorem isKeyed_of_distinct (h : o.elements? = none) (hdistinct : o.created.Nodup) : o.IsKeyed where
  distinct := hdistinct
  listed := fun harray => by
    obtain ⟨e, he⟩ := isArray_iff.mp harray
    rw [h] at he
    cases he
  sound := fun e he => by
    rw [h] at he
    cases he

/-! ### The keys of an object -/

namespace IsKeyed

/-- The keys of an object are its indices, its other texts and its symbols. -/
theorem ownKeys_eq (h : o.IsKeyed) :
    o.ownKeys = o.indices.map .ofNat ++ o.nameKeys ++ o.symbolKeys := by
  obtain ⟨kind, isExtensible, properties⟩ := o
  cases kind with
  | array e =>
    have hindices : (created ⟨.array e, isExtensible, properties⟩).filterMap (·.arrayIndex?) = [] :=
      List.filterMap_eq_nil_iff.mpr fun k hk => (h.listed rfl k hk).1
    unfold created at hindices
    simp only [ownKeys, indices, nameKeys, symbolKeys, elements?, isArray, created, Array.toList_map,
      hindices, if_true]
    rw [List.map_map, List.append_assoc, List.append_assoc, List.append_assoc, List.append_assoc]
    rfl
  | _ =>
    simp only [ownKeys, indices, nameKeys, symbolKeys, elements?, isArray, created, Array.toList_map,
      List.nil_append]
    rfl

/-- **The indices ascend.** -/
theorem ascending_indices (h : o.IsKeyed) : o.indices.Pairwise (· < ·) := by
  unfold indices
  cases he : o.elements? with
  | some e => exact List.pairwise_map.mpr ((h.stored e he).ascending_presentFrom 0)
  | none =>
    dsimp only
    rw [sortIndices_eq]
    have hdistinct : (o.created.filterMap (·.arrayIndex?)).Nodup :=
      h.distinct.filterMap fun k k' i hi hi' => by
        rw [← PropertyKey.ofNat_of_arrayIndex? hi, ← PropertyKey.ofNat_of_arrayIndex? hi']
    have hsorted := List.pairwise_insertionSort (· ≤ ·) (o.created.filterMap (·.arrayIndex?))
    have hnodup := (List.perm_insertionSort (· ≤ ·) _).nodup_iff.mpr hdistinct
    exact hsorted.imp₂ (fun _ _ hle hne => Nat.lt_of_le_of_ne hle hne) hnodup

theorem mem_indices (h : o.IsKeyed) {i : Nat} :
    i ∈ o.indices ↔ i < maxArrayLength ∧ o.hasOwn (.ofNat i) = true := by
  have hlisted := fun k => @mem_created o k
  obtain ⟨kind, isExtensible, properties⟩ := o
  cases kind with
  | array e =>
    have hstored := h.stored e rfl
    -- What an array has at an index is what is stored there; for other objects the list tells.
    have hown : ∀ {i}, i < maxArrayLength →
        hasOwn ⟨.array e, isExtensible, properties⟩ (.ofNat i) = (e.get? i).isSome := by
      intro i hi
      simp only [hasOwn, ownProperty?, PropertyKey.arrayIndex?_ofNat hi, Option.isSome_map]
    simp only [indices, elements?, List.mem_map]
    constructor
    · rintro ⟨⟨j, v⟩, hv, rfl⟩
      have hget := hstored.mem_present.mp hv
      have hlt : j < maxArrayLength :=
        Nat.lt_of_lt_of_le (hstored.lt_of_get? hget) (h.sound e rfl).fits
      exact ⟨hlt, by rw [hown hlt, hget, Option.isSome_some]⟩
    · rintro ⟨hlt, hi⟩
      rw [hown hlt, Option.isSome_iff_exists] at hi
      obtain ⟨v, hv⟩ := hi
      exact ⟨(i, v), hstored.mem_present.mpr hv, rfl⟩
  | _ =>
    simp only [indices, elements?, sortIndices_eq, List.mem_insertionSort, List.mem_filterMap, hlisted,
      PropertyKey.arrayIndex?_eq_some_iff]
    exact ⟨fun ⟨k, hk, hlt, heq⟩ => ⟨hlt, heq ▸ hk⟩, fun ⟨hlt, hi⟩ => ⟨_, hi, hlt, rfl⟩⟩

/-- A key that stands for no index is in the list, or it is the length of an array. -/
theorem hasOwn_of_not_index (hk : k.arrayIndex? = none) :
    o.hasOwn k = true ↔ (o.isArray = true ∧ k = ("length" : PropertyKey)) ∨ k ∈ o.created ∧
      (o.isArray = true → k ≠ ("length" : PropertyKey)) := by
  have hlisted := @mem_created o k
  obtain ⟨kind, isExtensible, properties⟩ := o
  cases kind with
  | array e =>
    simp only [hasOwn, ownProperty?, hk, isArray, true_and, forall_const]
    split
    · next hlength => simp [isNamed_iff.mp hlength]
    · next hlength =>
      rw [isNamed_iff] at hlength
      simp [hlength, hlisted]
  | _ =>
    simp only [hasOwn, ownProperty?, isArray, Bool.false_eq_true, false_and, false_or, IsEmpty.forall_iff,
      and_true]
    exact hlisted.symm

theorem mem_nameKeys (h : o.IsKeyed) :
    k ∈ o.nameKeys ↔ k.isSymbol = false ∧ k.arrayIndex? = none ∧ o.hasOwn k = true := by
  have hname : isNameKey k = true ↔ k.isSymbol = false ∧ k.arrayIndex? = none := by
    rw [isNameKey, Bool.and_eq_true, Bool.not_eq_true', Option.isNone_iff_eq_none]
  unfold nameKeys
  rw [List.mem_append, List.mem_filter, ← and_assoc, ← hname]
  -- On names, being listed and being owned differ by the length of an array alone.
  have hlist : ∀ hk : isNameKey k = true, o.hasOwn k = true ↔ _ := fun hk =>
    hasOwn_of_not_index (o := o) (hname.mp hk).2
  cases harray : o.isArray with
  | false =>
    rw [harray] at hlist
    simp only [Bool.false_eq_true, if_false, List.not_mem_nil, false_or, false_and,
      IsEmpty.forall_iff, and_true] at hlist ⊢
    exact ⟨fun ⟨hk, hn⟩ => ⟨hn, (hlist hn).mpr hk⟩, fun ⟨hn, hk⟩ => ⟨(hlist hn).mp hk, hn⟩⟩
  | true =>
    rw [harray] at hlist
    simp only [if_true, List.mem_singleton, true_and, forall_const] at hlist ⊢
    constructor
    · rintro (rfl | ⟨hk, hn⟩)
      · exact ⟨isNameKey_length, (hlist isNameKey_length).mpr (.inl rfl)⟩
      · refine ⟨hn, (hlist hn).mpr (.inr ⟨hk, fun heq => ?_⟩)⟩
        have hlength := (h.listed harray k hk).2
        rw [isNamed_iff.mpr heq] at hlength
        cases hlength
    · rintro ⟨hn, hk⟩
      exact ((hlist hn).mp hk).imp id fun hk => ⟨hk.1, hn⟩

theorem mem_symbolKeys : k ∈ o.symbolKeys ↔ k.isSymbol = true ∧ o.hasOwn k = true := by
  unfold symbolKeys
  rw [List.mem_filter, and_comm]
  refine and_congr_right fun hk => ?_
  have hnot : k.arrayIndex? = none ∧ k ≠ ("length" : PropertyKey) := by
    cases k with
    | symbol s => exact ⟨rfl, nofun⟩
    | text t => cases hk
  rw [hasOwn_of_not_index hnot.1]
  simp [hnot.2]

/-- **The keys of an object are those of its properties.** -/
theorem mem_ownKeys (h : o.IsKeyed) : k ∈ o.ownKeys ↔ o.hasOwn k = true := by
  rw [h.ownKeys_eq, List.mem_append, List.mem_append, List.mem_map, h.mem_nameKeys, mem_symbolKeys]
  constructor
  · rintro ((⟨i, hi, rfl⟩ | ⟨-, -, hk⟩) | ⟨-, hk⟩)
    · exact (h.mem_indices.mp hi).2
    · exact hk
    · exact hk
  · intro hk
    cases hs : k.isSymbol with
    | true => exact .inr ⟨rfl, hk⟩
    | false =>
      cases hi : k.arrayIndex? with
      | none => exact .inl (.inr ⟨rfl, rfl, hk⟩)
      | some i =>
        obtain ⟨hlt, rfl⟩ := PropertyKey.arrayIndex?_eq_some_iff.mp hi
        exact .inl (.inl ⟨i, h.mem_indices.mpr ⟨hlt, hk⟩, rfl⟩)

/-- **No key of an object comes twice.** -/
theorem nodup_ownKeys (h : o.IsKeyed) : o.ownKeys.Nodup := by
  have hlt : ∀ i ∈ o.indices, (PropertyKey.ofNat i).arrayIndex? = some i := fun i hi =>
    PropertyKey.arrayIndex?_ofNat (h.mem_indices.mp hi).1
  have hnames : o.nameKeys.Nodup := by
    unfold nameKeys
    cases harray : o.isArray with
    | false => exact h.distinct.filter _
    | true =>
      refine List.nodup_cons.mpr ⟨fun hmem => ?_, h.distinct.filter _⟩
      have hlength := (h.listed harray _ (List.mem_filter.mp hmem).1).2
      rw [isNamed_iff.mpr rfl] at hlength
      cases hlength
  rw [h.ownKeys_eq]
  -- The three groups are told apart by their keys: indices, texts that are none, symbols.
  refine List.nodup_append.mpr ⟨List.nodup_append.mpr ⟨?_, hnames, ?_⟩, h.distinct.filter _, ?_⟩
  · refine List.Nodup.map_on (fun i hi j hj heq => ?_) h.ascending_indices.nodup
    exact Option.some.inj ((hlt i hi).symm.trans ((congrArg _ heq).trans (hlt j hj)))
  · rintro k hk k' hk' rfl
    obtain ⟨i, hi, rfl⟩ := List.mem_map.mp hk
    exact absurd (hlt i hi) (by rw [(h.mem_nameKeys.mp hk').2.1]; nofun)
  · rintro k hk k' hk' rfl
    have hsymbol := (mem_symbolKeys.mp hk').1
    rcases List.mem_append.mp hk with hk | hk
    · obtain ⟨i, -, rfl⟩ := List.mem_map.mp hk
      cases hsymbol
    · rw [(h.mem_nameKeys.mp hk).1] at hsymbol
      cases hsymbol

end IsKeyed

end Object

/-! ### Agents -/

namespace Agent

variable {a : Agent}

/-- All objects are keyed. -/
def IsKeyed (a : Agent) : Prop := ∀ o ∈ a.objects, o.IsKeyed

theorem IsKeyed.object (h : a.IsKeyed) (id : ObjectId) : (a.object id).IsKeyed := by
  rw [Agent.object, Array.getD_eq_getD_getElem?]
  cases ho : a.objects[id.index]? with
  | none => exact Object.isKeyed_ofKind nofun
  | some o => exact h o (Array.mem_of_getElem? ho)

/-- The elements of all arrays are in order. -/
theorem IsKeyed.isStored_elements (h : a.IsKeyed) (id : ObjectId) : (a.elements id).IsStored := by
  rw [Agent.elements]
  cases he : (a.object id).elements? with
  | none => exact Elements.isStored_empty 0 false
  | some e => exact (h.object id).stored e he

theorem isKeyed_new (isVerbose : Bool) : (Agent.new isVerbose).IsKeyed := fun o ho =>
  absurd ho (Array.not_mem_empty o)

end Agent

/-! ### Results of computations -/

namespace Eval

variable {a b : Agent}

/-- What is put behind elements that are in order is in order. -/
theorem isStored_appendAll {e e' : Elements Value} {values : List Value} (he : e.IsStored)
    (h : appendAll e values a = .ok e' b) : e'.IsStored := by
  induction values generalizing e a with
  | nil =>
    cases h
    exact he
  | cons v values ih =>
    obtain ⟨x, c, hx, hrest⟩ := bind_eq_ok h
    refine ih ?_ hrest
    obtain ⟨a', c', -, hx⟩ := bind_eq_ok hx
    cases harray : a'.array? v with
    -- An array is appended as a whole, any other value as one element.
    | some id =>
      rw [harray] at hx
      obtain ⟨f, c', -, hx⟩ := bind_eq_ok hx
      split at hx
      · obtain ⟨o, c', -, hthrow⟩ := bind_eq_ok hx
        cases hthrow
      · cases hx
        exact he.append f
    | none =>
      rw [harray] at hx
      dsimp only at hx
      split at hx
      · obtain ⟨o, c', -, hthrow⟩ := bind_eq_ok hx
        cases hthrow
      · cases hx
        exact he.push v

/-- The properties for built-in functions have the names of these as keys. -/
theorem keys_builtinSlots {α : Type} {f : α → Builtin} {l : List α} {slots : List Slot}
    (h : (l.mapM fun x => builtinSlot (f x)) a = .ok slots b) :
    slots.map (·.key) = l.map fun x => ((f x).name : PropertyKey) := by
  induction l generalizing a slots with
  | nil =>
    cases h
    rfl
  | cons x l ih =>
    rw [List.mapM_cons] at h
    obtain ⟨s, c, hs, h⟩ := bind_eq_ok h
    obtain ⟨slots', d, hslots, h⟩ := bind_eq_ok h
    obtain ⟨v, e, -, hs⟩ := bind_eq_ok hs
    cases hs
    cases h
    rw [List.map_cons, List.map_cons, ih hslots]
    rfl

end Eval

end Scriptlet
