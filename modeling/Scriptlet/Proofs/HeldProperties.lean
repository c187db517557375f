import Scriptlet.Proofs.Primitives
import Scriptlet.Proofs.Slices

/-!
# Properties that are put into new objects

A value offers the properties of it that are listed: an object its own ones, a text its code units.  Put
into an object without properties one after the other, in the order of the value's keys, they have the
same order there: all indices come first and ascend, then come the other texts, then the symbols, so that
nothing has to be moved.  Definition and assignment do the same to such an object, and neither fails.

## Main definitions

* `PropertyKey.Grouped` — keys in the order in which objects have theirs.
* `Object.holding` — an object that properties have been put into.
* `Agent.sourceKeys`, `Agent.offered?` — the keys of a value, and what it has under those that are listed.
* `Object.Copies` — an object that has exactly what a value offers under some of its keys.
* `Eval.Adds` — computations that put a property into an object.

## Main results

* `PropertyKey.Grouped.regroup` — **keys in that order are put into the same order again**.
* `Agent.copies_holding` — **an object that properties of a value are put into has exactly these**.
* `Eval.adds_defineOn`, `Eval.adds_assignOn`, `Eval.Adds.forM` — properties are put into an object one
  after the other.
* `Eval.copyProperties_apply` — **copying into an object without properties never fails**.
-/

namespace Scriptlet

open Eval

/-! ### Keys in groups -/

namespace PropertyKey

/-- Different numbers have different keys. -/
theorem ofNat_injective : Function.Injective ofNat := by
  intro i j h
  have hdigits : digitUnits i = digitUnits j := by
    rw [← Text.units_ofNat, ← Text.units_ofNat, text.inj h]
  rw [← unitsValue_digitUnits i, hdigits, unitsValue_digitUnits]

/-- A key of a number is found by looking at the keys of all numbers below another one. -/
theorem find?_ofNat {i n : Nat} (h : i < n) :
    (List.range n).find? (fun j => ofNat i == ofNat j) = some i := by
  cases hj : (List.range n).find? fun j => ofNat i == ofNat j with
  | none => exact absurd (beq_self_eq_true _) (List.find?_eq_none.mp hj i (List.mem_range.mpr h))
  | some j =>
    have heq := List.find?_some hj
    rw [ofNat_injective (eq_of_beq heq)]

/-- The key of a number that is no index is a name. -/
theorem isNameKey_ofNat {i : Nat} (h : maxArrayLength ≤ i) : Object.isNameKey (ofNat i) = true := by
  cases hi : (ofNat i).arrayIndex? with
  | none =>
    rw [Object.isNameKey, hi]
    rfl
  | some j =>
    obtain ⟨hlt, heq⟩ := arrayIndex?_eq_some_iff.mp hi
    exact absurd (ofNat_injective heq ▸ h) (Nat.not_le_of_lt hlt)

/-- Keys in the order in which objects have theirs: first those of indices, ascending, then the other
texts, then the symbols. -/
inductive Grouped : List PropertyKey → Prop
  | intro {is : List Nat} {names symbols : List PropertyKey} (ascending : is.Pairwise (· < ·))
    (below : ∀ i ∈ is, i < maxArrayLength) (isName : ∀ k ∈ names, Object.isNameKey k = true)
    (isSymbol : ∀ k ∈ symbols, k.isSymbol = true) : Grouped (is.map ofNat ++ names ++ symbols)

variable {ks : List PropertyKey}

/-- Keys that are left out do not change the groups. -/
theorem Grouped.filter (h : Grouped ks) (p : PropertyKey → Bool) : Grouped (ks.filter p) := by
  obtain ⟨ascending, below, isName, isSymbol⟩ := h
  rw [List.filter_append, List.filter_append, List.filter_map]
  exact .intro (ascending.filter _) (fun i hi => below i (List.mem_of_mem_filter hi))
    (fun k hk => isName k (List.mem_of_mem_filter hk)) fun k hk => isSymbol k (List.mem_of_mem_filter hk)

/-- **Keys that are in groups are put into the same order again.** -/
theorem Grouped.regroup (h : Grouped ks) :
    (Object.sortIndices (ks.filterMap (·.arrayIndex?))).map ofNat ++ ks.filter Object.isNameKey
      ++ ks.filter (·.isSymbol) = ks := by
  obtain @⟨is, names, symbols, ascending, below, isName, isSymbol⟩ := h
  -- Each of the three filters keeps one group as it is and nothing of the other two.
  have hindex : ∀ i ∈ is, (ofNat i).arrayIndex? = some i := fun i hi => arrayIndex?_ofNat (below i hi)
  have hname : ∀ k ∈ names, k.isSymbol = false ∧ k.arrayIndex? = none := fun k hk => by
    simpa [Object.isNameKey] using isName k hk
  have hsymbol : ∀ k ∈ symbols, k.arrayIndex? = none := fun k hk => by
    cases k with
    | symbol s => rfl
    | text t => exact absurd (isSymbol _ hk) Bool.false_ne_true
  have hindices : (is.map ofNat ++ names ++ symbols).filterMap (·.arrayIndex?) = is := by
    have hread : (is.map ofNat).filterMap (·.arrayIndex?) = is := by
      rw [List.filterMap_map]
      exact (List.filterMap_congr hindex).trans List.filterMap_some
    rw [List.filterMap_append, List.filterMap_append, hread,
      List.filterMap_eq_nil_iff.mpr fun k hk => (hname k hk).2, List.filterMap_eq_nil_iff.mpr hsymbol,
      List.append_nil, List.append_nil]
  have hsorted : Object.sortIndices is = is := by
    rw [Object.sortIndices_eq]
    exact (ascending.imp Nat.le_of_lt).insertionSort_eq
  have hnames : (is.map ofNat ++ names ++ symbols).filter Object.isNameKey = names := by
    rw [List.filter_append, List.filter_append, List.filter_eq_self.mpr isName,
      List.filter_eq_nil_iff.mpr fun k hk => ?_, List.filter_eq_nil_iff.mpr fun k hk => ?_,
      List.nil_append, List.append_nil]
    · rw [Object.isNameKey, isSymbol k hk]
      exact Bool.false_ne_true
    · obtain ⟨i, hi, rfl⟩ := List.mem_map.mp hk
      rw [Object.isNameKey, hindex i hi]
      exact Bool.false_ne_true
  have hsymbols : (is.map ofNat ++ names ++ symbols).filter (·.isSymbol) = symbols := by
    rw [List.filter_append, List.filter_append, List.filter_eq_self.mpr isSymbol,
      List.filter_eq_nil_iff.mpr fun k hk => ?_, List.filter_eq_nil_iff.mpr fun k hk => ?_,
      List.nil_append, List.nil_append]
    · rw [(hname k hk).1]
      exact Bool.false_ne_true
    · obtain ⟨i, -, rfl⟩ := List.mem_map.mp hk
      exact Bool.false_ne_true
  rw [hindices, hsorted, hnames, hsymbols]

/-- The keys of the first numbers are in groups, also if there are more than indices. -/
theorem grouped_range (n : Nat) : Grouped ((List.range n).map ofNat) := by
  rcases Nat.le_total n maxArrayLength with hle | hge
  · have hgrouped : Grouped ((List.range n).map ofNat ++ [] ++ []) :=
      .intro List.pairwise_lt_range (fun i hi => Nat.lt_of_lt_of_le (List.mem_range.mp hi) hle) nofun nofun
    rwa [List.append_nil, List.append_nil] at hgrouped
  · obtain ⟨k, rfl⟩ := Nat.exists_eq_add_of_le hge
    have hgrouped : Grouped ((List.range maxArrayLength).map ofNat
        ++ ((List.range k).map (maxArrayLength + ·)).map ofNat ++ []) := by
      refine .intro List.pairwise_lt_range (fun i => List.mem_range.mp) (fun key hkey => ?_) nofun
      obtain ⟨i, hi, rfl⟩ := List.mem_map.mp hkey
      obtain ⟨j, -, rfl⟩ := List.mem_map.mp hi
      exact isNameKey_ofNat (Nat.le_add_right _ _)
    rwa [List.append_nil, ← List.map_append, ← List.range_add] at hgrouped

end PropertyKey

namespace Object

variable {o : Object} {k : PropertyKey} {es : List (PropertyKey × Value)}

theorem IsKeyed.grouped_ownKeys (h : o.IsKeyed) : PropertyKey.Grouped o.ownKeys := by
  rw [h.ownKeys_eq]
  refine .intro h.ascending_indices (fun i hi => (h.mem_indices.mp hi).1) (fun k hk => ?_) fun k hk => ?_
  · obtain ⟨hsymbol, hindex, -⟩ := h.mem_nameKeys.mp hk
    rw [isNameKey, hsymbol, hindex]
    rfl
  · exact (mem_symbolKeys.mp hk).1

/-! ### Objects that hold properties -/

/-- An object that the given properties have been assigned to, one after the other. -/
def holding (es : List (PropertyKey × Value)) : Object :=
  ⟨.ordinary, true, (es.map fun p => Slot.data p.1 p.2).toArray⟩

theorem created_holding (es : List (PropertyKey × Value)) : (holding es).created = es.map Prod.fst := by
  rw [created, holding, List.map_map]
  rfl

theorem isKeyed_holding (h : (es.map Prod.fst).Nodup) : (holding es).IsKeyed :=
  isKeyed_of_distinct rfl ((created_holding es).symm ▸ h)

theorem isKeyed_empty : empty.IsKeyed := @isKeyed_holding [] List.nodup_nil

/-- **Properties that are assigned in the order of their keys stay in that order.** -/
theorem ownKeys_holding (hnodup : (es.map Prod.fst).Nodup) (h : PropertyKey.Grouped (es.map Prod.fst)) :
    (holding es).ownKeys = es.map Prod.fst := by
  have hindices : (holding es).indices = sortIndices ((holding es).created.filterMap (·.arrayIndex?)) := rfl
  have hnames : (holding es).nameKeys = (holding es).created.filter isNameKey := rfl
  have hsymbols : (holding es).symbolKeys = (holding es).created.filter (·.isSymbol) := rfl
  rw [(isKeyed_holding hnodup).ownKeys_eq, hindices, hnames, hsymbols, created_holding]
  exact h.regroup

/-- An object holds what it is found to hold. -/
theorem ownProperty?_holding (es : List (PropertyKey × Value)) (k : PropertyKey) :
    (holding es).ownProperty? k = (es.find? (·.1 == k)).map fun p => Slot.data p.1 p.2 := by
  change (es.map fun p => Slot.data p.1 p.2).toArray.find? (·.key == k) = _
  rw [List.find?_toArray, List.find?_map]
  rfl

variable {v : Value} (hk : k ∉ es.map Prod.fst)

include hk

theorem findIdx?_holding : (holding es).properties.findIdx? (·.key == k) = none :=
  Option.eq_none_iff_forall_ne_some.mpr fun _ hn =>
    hk (created_holding es ▸ mem_created_of_findIdx? hn)

theorem write_holding : (holding es).write k v = (true, holding (es ++ [(k, v)])) := by
  have hadd : (holding es).write k v = (holding es).add (.data k v) := by
    unfold write
    rw [findIdx?_holding hk]
    rfl
  rw [hadd, holding, holding, List.map_append, ← List.append_toArray]
  rfl

theorem define_holding : (holding es).define k v = (true, holding (es ++ [(k, v)])) := by
  rw [← write_holding hk]
  unfold define write
  rw [findIdx?_holding hk]
  rfl

end Object

/-! ### What values offer -/

namespace Agent

variable {a : Agent} {v w : Value} {k : PropertyKey}

/-- The keys of a value: those of an object, and of a text one for each code unit. -/
def sourceKeys (a : Agent) (v : Value) : List PropertyKey :=
  match v with
  | .object id => (a.object id).ownKeys
  | .text t => (List.range t.length).map .ofNat
  | _ => []

/-- What a value has under a key that is listed: a property of an object, or a code unit of a text. -/
def offered? (a : Agent) (v : Value) (k : PropertyKey) : Option Value :=
  match v with
  | .object id => ((a.object id).ownProperty? k).bind fun p => if p.isEnumerable then some p.value else none
  | .text t => ((List.range t.length).find? fun i => k == .ofNat i).bind fun i => (t.charAt? i).map .text
  | _ => none

/-- What a value has under its keys that are listed. -/
def offered (a : Agent) (v : Value) : List (PropertyKey × Value) :=
  (a.sourceKeys v).filterMap fun k => (a.offered? v k).map (k, ·)

theorem grouped_sourceKeys (ha : a.IsKeyed) (v : Value) : PropertyKey.Grouped (a.sourceKeys v) := by
  have hnil : PropertyKey.Grouped [] := PropertyKey.grouped_range 0
  cases v with
  | object id => exact (ha.object id).grouped_ownKeys
  | text t => exact PropertyKey.grouped_range t.length
  | _ => exact hnil

theorem nodup_sourceKeys (ha : a.IsKeyed) (v : Value) : (a.sourceKeys v).Nodup := by
  cases v with
  | object id => exact (ha.object id).nodup_ownKeys
  | text t => exact List.nodup_range.map PropertyKey.ofNat_injective
  | _ => exact List.nodup_nil

/-- A code unit of a text is found under its number. -/
theorem offered?_ofNat (a : Agent) {t : Text} {i : Nat} {u : UInt16} (h : t.units[i]? = some u) :
    a.offered? (.text t) (.ofNat i) = some (.text ⟨#[u]⟩) := by
  have hlt : i < t.length := (Array.getElem?_eq_some_iff.mp h).1
  rw [offered?, PropertyKey.find?_ofNat hlt]
  change (t.units[i]?.map fun u => (⟨#[u]⟩ : Text)).map Value.text = _
  rw [h]
  rfl

/-- What is offered is found under a key of the value. -/
theorem mem_sourceKeys (ha : a.IsKeyed) (h : (a.offered? v k).isSome = true) : k ∈ a.sourceKeys v := by
  cases v with
  | object id =>
    refine (ha.object id).mem_ownKeys.mpr ?_
    rw [Object.hasOwn]
    cases hp : (a.object id).ownProperty? k with
    | some p => rfl
    | none =>
      rw [offered?, hp] at h
      cases h
  | text t =>
    cases hi : (List.range t.length).find? fun i => k == .ofNat i with
    | some i =>
      have heq := List.find?_some hi
      exact List.mem_map.mpr ⟨i, List.mem_of_find?_eq_some hi, (eq_of_beq heq).symm⟩
    | none =>
      rw [offered?, hi] at h
      cases h
  | _ => cases h

/-- The properties of a text that are listed are its code units. -/
theorem offered_text (a : Agent) (t : Text) :
    a.offered (.text t) = t.units.toList.zipIdx.map fun p => (.ofNat p.2, .text ⟨#[p.1]⟩) := by
  have hkeys : a.sourceKeys (.text t) = t.units.toList.zipIdx.map fun p => PropertyKey.ofNat p.2 := by
    have hnumbers : t.units.toList.zipIdx.map Prod.snd = List.range t.length := by
      rw [List.zipIdx_map_snd, List.range_eq_range', Array.length_toList]
      rfl
    rw [sourceKeys, ← hnumbers, List.map_map]
    rfl
  have hoffered : ∀ p ∈ t.units.toList.zipIdx,
      (a.offered? (.text t) (.ofNat p.2)).map (PropertyKey.ofNat p.2, ·)
        = some (.ofNat p.2, .text ⟨#[p.1]⟩) := by
    intro p hp
    have hunit : t.units[p.2]? = some p.1 :=
      (Array.getElem?_toList ..).symm.trans (List.mk_mem_zipIdx_iff_getElem?.mp hp)
    rw [a.offered?_ofNat hunit]
    rfl
  rw [offered, hkeys, List.filterMap_map]
  exact (List.filterMap_congr hoffered).trans (congrFun List.filterMap_eq_map _)

/-- **What is copied is what a value offers.** -/
theorem copied_apply (v : Value) (a : Agent) : copied v a = .ok (a.offered v) a := by
  cases v with
  | object id =>
    unfold copied
    dsimp only
    rw [bind_ok (object_apply id a)]
    refine congrArg (EStateM.Result.ok · a) (List.filterMap_congr fun k _ => ?_)
    rw [offered?]
    cases (a.object id).ownProperty? k with
    | none => rfl
    | some p => cases hp : p.isEnumerable <;> simp [hp]
  | text t => exact congrArg (EStateM.Result.ok · a) (a.offered_text t).symm
  | _ => rfl

end Agent

/-- An object has exactly those properties that a value offers under keys of the given kind: the keys in
the order of the value's, and the same values. -/
structure Object.Copies (x : Object) (a : Agent) (v : Value) (p : PropertyKey → Bool) : Prop where
  kind : x.kind = .ordinary
  isExtensible : x.isExtensible = true
  keys : x.ownKeys = (a.sourceKeys v).filter fun k => p k && (a.offered? v k).isSome
  property : ∀ k, x.ownProperty? k = if p k then (a.offered? v k).map (Slot.data k) else none

section

variable {ks : List PropertyKey} {f : PropertyKey → Option Value} {p : PropertyKey → Bool}

theorem keys_filterMap (ks : List PropertyKey) (f : PropertyKey → Option Value) (p : PropertyKey → Bool) :
    ((ks.filterMap fun k => (f k).map (k, ·)).filter fun q => p q.1).map Prod.fst
      = ks.filter fun k => p k && (f k).isSome := by
  induction ks with
  | nil => rfl
  | cons k ks ih =>
    cases hf : f k with
    | none => simpa [hf] using ih
    | some v => cases hp : p k <;> simpa [hf, hp] using ih

theorem find?_filterMap (hf : ∀ k, (f k).isSome = true → k ∈ ks) (k : PropertyKey) :
    ((ks.filterMap fun k => (f k).map (k, ·)).filter fun q => p q.1).find? (·.1 == k)
      = if p k then (f k).map (k, ·) else none := by
  have hall : ∀ ks : List PropertyKey,
      ((ks.filterMap fun k => (f k).map (k, ·)).filter fun q => p q.1).find? (·.1 == k)
        = if k ∈ ks ∧ p k = true then (f k).map (k, ·) else none := by
    intro ks
    induction ks with
    | nil => rfl
    | cons j ks ih =>
      by_cases hj : j = k
      · subst hj
        cases hv : f j with
        | none => simpa [hv] using ih
        | some v => cases hp : p j <;> simp [hv, hp, ih]
      · cases hv : f j with
        | none => simpa [hv, Ne.symm hj] using ih
        | some v => cases hp : p j <;> simp [hv, hp, hj, Ne.symm hj, ih]
  rw [hall]
  by_cases hk : k ∈ ks
  · simp only [hk, true_and]
  · have hnone : f k = none := Option.not_isSome_iff_eq_none.mp fun hsome => hk (hf k hsome)
    simp only [hk, hnone, false_and, Option.map_none, ite_self]

end

section

variable {a : Agent} (ha : a.IsKeyed) (v : Value) (p : PropertyKey → Bool)

include ha

theorem Agent.nodup_offered : (((a.offered v).filter fun q => p q.1).map Prod.fst).Nodup := by
  rw [offered, keys_filterMap]
  exact (nodup_sourceKeys ha v).filter _

theorem Agent.ownKeys_offered : (Object.holding ((a.offered v).filter fun q => p q.1)).ownKeys
    = ((a.offered v).filter fun q => p q.1).map Prod.fst := by
  refine Object.ownKeys_holding (nodup_offered ha v p) ?_
  rw [offered, keys_filterMap]
  exact (grouped_sourceKeys ha v).filter _

/-- **An object that properties of a value are put into has exactly these.** -/
theorem Agent.copies_holding : (Object.holding ((a.offered v).filter fun q => p q.1)).Copies a v p where
  kind := rfl
  isExtensible := rfl
  keys := (ownKeys_offered ha v p).trans (keys_filterMap _ _ p)
  property := fun k => by
    rw [Object.ownProperty?_holding, offered, find?_filterMap fun k => mem_sourceKeys ha]
    split
    · rw [Option.map_map]
      rfl
    · rfl

/-- An object that all properties of a value are put into has all of them. -/
theorem Agent.copies_offered : (Object.holding (a.offered v)).Copies a v fun _ => true := by
  have hcopies := copies_holding ha v fun _ => true
  rwa [List.filter_true] at hcopies

end

/-- Objects with the properties of a value under keys of two kinds, one of which is part of the other. -/
theorem Object.Copies.restrict {x y : Object} {a : Agent} {v : Value} {p : PropertyKey → Bool}
    (hx : x.Copies a v fun _ => true) (hy : y.Copies a v p) :
    y.ownKeys = x.ownKeys.filter p ∧ ∀ k, p k = true → y.ownProperty? k = x.ownProperty? k := by
  refine ⟨?_, fun k hk => ?_⟩
  · rw [hx.keys, hy.keys, List.filter_filter]
    rfl
  · rw [hx.property, hy.property, if_pos hk, if_pos rfl]

/-! ### Objects that are filled -/

namespace Agent

variable {a : Agent} {t i : ObjectId}

/-- The agent with another object at a place. -/
def put (a : Agent) (t : ObjectId) (x : Object) : Agent :=
  { a with objects := a.objects.setIfInBounds t.index x }

theorem size_put (a : Agent) (t : ObjectId) (x : Object) : (a.put t x).objects.size = a.objects.size :=
  Array.size_setIfInBounds ..

theorem object_put (h : t.index < a.objects.size) (x : Object) : (a.put t x).object t = x := by
  rw [object_eq_getD, put, Array.getElem?_setIfInBounds_self_of_lt h]
  rfl

theorem object_put_of_ne (h : i ≠ t) (x : Object) : (a.put t x).object i = a.object i := by
  have hne : t.index ≠ i.index := fun heq => h (congrArg ObjectId.mk heq.symm)
  rw [object_eq_getD, object_eq_getD, put, Array.getElem?_setIfInBounds_ne hne]

theorem put_put (a : Agent) (t : ObjectId) (x y : Object) : (a.put t x).put t y = a.put t y := by
  rw [put, put, put, Array.setIfInBounds_setIfInBounds]

/-- A new object without properties makes no difference to what values offer. -/
theorem offered_withNew (a : Agent) (v : Value) : (a.withNew .empty).offered v = a.offered v := by
  have hobject : ∀ i, (a.withNew .empty).object i = a.object i := fun i => by
    rw [object_eq_getD, object_eq_getD, withNew, Array.getElem?_push]
    split
    · next hi =>
      rw [hi, Array.getElem?_eq_none (Nat.le_refl _)]
      rfl
    · rfl
  have hkeys : (a.withNew .empty).sourceKeys v = a.sourceKeys v := by
    cases v with
    | object i => exact congrArg Object.ownKeys (hobject i)
    | _ => rfl
  have hoffered : (a.withNew .empty).offered? v = a.offered? v := by
    funext k
    cases v with
    | object i =>
      rw [offered?, offered?, hobject]
    | _ => rfl
  rw [offered, offered, hkeys, hoffered]

/-- The new object is replaced. -/
theorem put_withNew (a : Agent) (x y : Object) : (a.withNew x).put ⟨a.objects.size⟩ y = a.withNew y := by
  have hset : (a.objects.push x).setIfInBounds a.objects.size y = a.objects.push y :=
    Array.ext_getElem? fun i => by
      rw [Array.getElem?_setIfInBounds, Array.getElem?_push, Array.getElem?_push, Array.size_push]
      by_cases hi : i = a.objects.size
      · simp [hi]
      · simp [hi, Ne.symm hi]
  rw [put, withNew, hset, withNew]

theorem put_self (h : t.index < a.objects.size) : a.put t (a.object t) = a := by
  have hset : a.objects.setIfInBounds t.index (a.object t) = a.objects := by
    rw [object_eq_getD, Array.getElem?_eq_getElem h, Option.getD_some]
    exact Array.ext_getElem? fun i => by
      rw [Array.getElem?_setIfInBounds]
      split
      · next heq => rw [← heq, Array.getElem?_eq_getElem h]
      · rfl
  rw [put, hset]

end Agent

namespace Eval

variable {a : Agent} {t : ObjectId} {f : PropertyKey → Value → Eval Unit} {es fs : List (PropertyKey × Value)}

/-- The computation adds a property to an object that properties have been assigned to. -/
def Adds (t : ObjectId) (f : PropertyKey → Value → Eval Unit) : Prop :=
  ∀ a es k v, t.index < a.objects.size → a.object t = .holding es → k ∉ es.map Prod.fst →
    f k v a = .ok () (a.put t (.holding (es ++ [(k, v)])))

theorem adds_defineOn (t : ObjectId) : Adds t (defineOn t) := by
  intro a es k v ht hobject hk
  have hchange := changeObject_apply ht (·.define k v) false
  rw [hobject, Object.define_holding hk] at hchange
  unfold defineOn
  rw [bind_ok hchange]
  rfl

theorem adds_assignOn (m : Machine) (t : ObjectId) : Adds t (m.assignOn t) := by
  intro a es k v ht hobject hk
  have hset : m.setOn t k v a = changeObject t (·.write k v) false a := by
    change (if k.isNamed "length" && (a.object t).isArray then _ else _ : Eval Bool) a = _
    rw [hobject]
    change (if k.isNamed "length" && false then _ else _ : Eval Bool) a = _
    rw [Bool.and_false]
    rfl
  have hchange := changeObject_apply ht (·.write k v) false
  rw [hobject, Object.write_holding hk] at hchange
  unfold Machine.assignOn
  rw [bind_ok (hset.trans hchange)]
  rfl

/-- A key that comes next is not there yet. -/
theorem not_mem_of_nodup {p : PropertyKey × Value} (h : ((es ++ [p] ++ fs).map Prod.fst).Nodup) :
    p.1 ∉ es.map Prod.fst := by
  rw [List.map_append, List.map_append] at h
  exact fun hmem => (List.nodup_append.mp (List.nodup_append.mp h).1).2.2 p.1 hmem p.1 List.mem_cons_self rfl

/-- **Properties with different keys are added one after the other.** -/
theorem Adds.forM (h : Adds t f) (ht : t.index < a.objects.size) (hobject : a.object t = .holding es)
    (hnodup : ((es ++ fs).map Prod.fst).Nodup) :
    (fs.forM fun p => f p.1 p.2) a = .ok () (a.put t (.holding (es ++ fs))) := by
  induction fs generalizing a es with
  | nil =>
    rw [List.append_nil, ← hobject, Agent.put_self ht]
    rfl
  | cons p fs ih =>
    rw [List.append_cons] at hnodup ⊢
    have hk : p.1 ∉ es.map Prod.fst := not_mem_of_nodup hnodup
    have hnext := ih (a := a.put t (.holding (es ++ [p]))) ((a.size_put t _).symm ▸ ht) (Agent.object_put ht _)
      hnodup
    change (f p.1 p.2 >>= fun _ => fs.forM fun p => f p.1 p.2) a = _
    rw [bind_ok (h a es p.1 p.2 ht hobject hk), hnext, Agent.put_put]

theorem defineAll_eq (t : ObjectId) (es : List (PropertyKey × Value)) :
    defineAll t es = es.forM fun p => defineOn t p.1 p.2 := by
  induction es with
  | nil => rfl
  | cons p es ih =>
    rw [defineAll, ih]
    rfl

/-- **Copying into an object without properties never fails.** -/
theorem copyProperties_apply (ha : a.IsKeyed) (ht : t.index < a.objects.size) (hempty : a.object t = .empty)
    (v : Value) (excluded : List PropertyKey) : copyProperties t v excluded a
      = .ok () (a.put t (.holding ((a.offered v).filter fun p => !excluded.contains p.1))) := by
  have hnone : a.object t = .holding [] := hempty
  unfold copyProperties
  rw [bind_ok (Agent.copied_apply v a), defineAll_eq]
  exact (adds_defineOn t).forM ht hnone (Agent.nodup_offered ha v fun k => !excluded.contains k)

end Eval

end Scriptlet
