import Scriptlet.Proofs.Keys

/-!
# Changes of keys

The list of properties is in the order in which its keys were created.  A change leaves it as it is,
adds a key at the end or takes one out, so that a key keeps its place until it is deleted; and as every
change looks before it adds, no change gives an object a key twice or in the wrong place.

## Main definitions

* `Object.Turn` — what a change may do to the keys of an object.
* `Object.Recreated` — a key has been taken out and added again.

## Main results

* `Object.created_write`, `Object.created_define`, `Object.created_deleteListed` — what single changes
  do to the list.
* `Object.turn_write`, `Object.turn_define`, `Object.turn_delete` and their like — none of them does
  anything else.
* `Object.Turn.isKeyed` — **no change breaks what is required of keys**.
* `Object.ownKeys_write`, `Object.ownKeys_define` — **what is overwritten keeps its place**.
* `Object.recreated_of_delete` — **what is deleted and created again is the last of its group**.
-/

namespace Scriptlet

namespace Object

variable {o x : Object} {k : PropertyKey}

/-! ### The list of properties -/

/-- The keys are those of the properties, whatever else these are. -/
theorem created_congr {ps : Array Slot}
    (h : ∀ i : Nat, ps[i]?.map Slot.key = o.properties[i]?.map Slot.key) :
    created { o with properties := ps } = o.created := by
  refine List.ext_getElem? fun i => ?_
  rw [created, created, List.getElem?_map, List.getElem?_map, Array.getElem?_toList,
    Array.getElem?_toList]
  exact h i

/-- A property is found where its key is. -/
theorem findIdx?_eq_some {n : Nat} (h : o.properties.findIdx? (·.key == k) = some n) :
    ∃ p, o.properties[n]? = some p ∧ p.key = k := by
  obtain ⟨hlt, hkey, -⟩ := Array.findIdx?_eq_some_iff_getElem.mp h
  exact ⟨_, Array.getElem?_eq_getElem hlt, beq_iff_eq.mp hkey⟩

theorem mem_created_of_findIdx? {n : Nat} (h : o.properties.findIdx? (·.key == k) = some n) :
    k ∈ o.created := by
  obtain ⟨p, hp, rfl⟩ := findIdx?_eq_some h
  exact List.mem_map_of_mem (Array.mem_toList_iff.mpr (Array.mem_of_getElem? hp))

theorem not_mem_created (h : o.properties.findIdx? (·.key == k) = none) : k ∉ o.created := by
  intro hk
  obtain ⟨p, hp, rfl⟩ := List.mem_map.mp hk
  have hne := Array.findIdx?_eq_none_iff.mp h p (Array.mem_toList_iff.mp hp)
  rw [beq_self_eq_true] at hne
  cases hne

theorem created_add (p : Slot) (h : (o.add p).1 = true) : (o.add p).2.created = o.created ++ [p.key] := by
  obtain ⟨kind, isExtensible, properties⟩ := o
  cases isExtensible with
  | false => cases h
  | true =>
    change created ⟨kind, true, properties.push p⟩ = _
    rw [created, Array.toList_push, List.map_append]
    rfl

theorem add_of_false {p : Slot} (h : (o.add p).1 = false) : (o.add p).2 = o := by
  obtain ⟨kind, isExtensible, properties⟩ := o
  cases isExtensible with
  | false => rfl
  | true => cases h

theorem kind_add (o : Object) (p : Slot) : (o.add p).2.kind = o.kind := by
  obtain ⟨kind, isExtensible, properties⟩ := o
  cases isExtensible <;> rfl

/-- A key that stands for no element of an array belongs to its list, but the length. -/
theorem arrayIndex?_of_elementIndex? (h : o.elementIndex? k = none) (harray : o.isArray = true) :
    k.arrayIndex? = none := by
  rwa [elementIndex?, if_pos harray] at h

/-! ### What changes do to the list -/

section List

variable {v : Value} (hi : o.elementIndex? k = none)

include hi

theorem kind_write : (o.write k v).2.kind = o.kind := by
  unfold write
  rw [hi]
  dsimp only
  split
  · split <;> rfl
  · exact kind_add o _

theorem kind_define : (o.define k v).2.kind = o.kind := by
  unfold define
  rw [hi]
  dsimp only
  split
  · rfl
  · split
    · split <;> rfl
    · exact kind_add o _

/-- **What is overwritten keeps its place**, and what is new comes last. -/
theorem created_write (h : (o.write k v).1 = true) :
    (o.write k v).2.created = if k ∈ o.created then o.created else o.created ++ [k] := by
  revert h
  unfold write
  rw [hi]
  dsimp only
  split
  · next n hn =>
    rw [if_pos (mem_created_of_findIdx? hn)]
    split
    · refine fun _ => created_congr fun i => ?_
      rw [Array.getElem?_modify]
      split
      · rw [Option.map_map]
        rfl
      · rfl
    · exact fun _ => rfl
  · next hn =>
    rw [if_neg (not_mem_created hn)]
    exact created_add _

theorem created_define (h : (o.define k v).1 = true) :
    (o.define k v).2.created = if k ∈ o.created then o.created else o.created ++ [k] := by
  revert h
  unfold define
  rw [hi]
  dsimp only
  split
  · exact nofun
  · split
    · next n hn =>
      rw [if_pos (mem_created_of_findIdx? hn)]
      obtain ⟨p, hp, hkey⟩ := findIdx?_eq_some hn
      split
      · refine fun _ => created_congr fun i => ?_
        rw [Array.getElem?_setIfInBounds]
        split
        · next hni =>
          subst hni
          rw [hp, if_pos (Array.getElem?_eq_some_iff.mp hp).1, Option.map_some, Option.map_some, hkey]
          rfl
        · rfl
      · exact fun _ => rfl
    · next hn =>
      rw [if_neg (not_mem_created hn)]
      exact created_add _

theorem write_of_false (h : (o.write k v).1 = false) : (o.write k v).2 = o := by
  revert h
  unfold write
  rw [hi]
  dsimp only
  split
  · split
    · exact nofun
    · exact fun _ => rfl
  · exact add_of_false

theorem define_of_false (h : (o.define k v).1 = false) : (o.define k v).2 = o := by
  revert h
  unfold define
  rw [hi]
  dsimp only
  split
  · exact fun _ => rfl
  · split
    · split
      · exact nofun
      · exact fun _ => rfl
    · exact add_of_false

end List

theorem deleteListed_of_false (h : (o.deleteListed k).1 = false) : (o.deleteListed k).2 = o := by
  revert h
  unfold deleteListed
  split
  · exact nofun
  · split
    · exact nofun
    · exact fun _ => rfl

/-- What is deleted is not in the list any more. -/
theorem created_deleteListed (h : (o.deleteListed k).1 = true) :
    (o.deleteListed k).2.created = o.created.filter fun k' => !(k' == k) := by
  revert h
  unfold deleteListed
  split
  · next hnone =>
    intro _
    refine (List.filter_eq_self.mpr fun k' hk' => ?_).symm
    rw [Bool.not_eq_true', beq_eq_false_iff_ne]
    rintro rfl
    have hmem := mem_created.mp hk'
    rw [listed?, hnone] at hmem
    cases hmem
  · split
    · intro _
      change List.map _ (Array.toList (Array.filter _ _)) = _
      rw [Array.toList_filter, created, List.filter_map]
      rfl
    · intro h
      cases h

theorem kind_deleteListed (o : Object) (k : PropertyKey) : (o.deleteListed k).2.kind = o.kind := by
  unfold deleteListed
  split
  · rfl
  · split <;> rfl

/-! ### What changes do to keys -/

/-- What a change may do to the keys of an object: none is added but at the end, to the list that it
belongs to. -/
structure Turn (o x : Object) : Prop where
  created : x.created = o.created ∨
    (∃ k, k ∉ o.created ∧ (o.isArray = true → k.arrayIndex? = none ∧ k.isNamed "length" = false) ∧
      x.created = o.created ++ [k]) ∨
    ∃ k, x.created = o.created.filter fun k' => !(k' == k)
  isArray : x.isArray = o.isArray
  sound : (∀ e, o.elements? = some e → e.IsSound) → ∀ e, x.elements? = some e → e.IsSound

/-- **No change of keys breaks what is required of them.** -/
theorem Turn.isKeyed (h : o.Turn x) (ho : o.IsKeyed) : x.IsKeyed where
  distinct := by
    obtain heq | ⟨k, hk, -, heq⟩ | ⟨k, heq⟩ := h.created
    · exact heq ▸ ho.distinct
    · rw [heq]
      refine List.nodup_append.mpr ⟨ho.distinct, List.nodup_singleton k, ?_⟩
      rintro k' hk' _ hkk rfl
      exact hk (List.mem_singleton.mp hkk ▸ hk')
    · exact heq ▸ ho.distinct.filter _
  listed := fun harray k hk => by
    have hold := ho.listed (h.isArray ▸ harray)
    obtain heq | ⟨k', -, hlisted, heq⟩ | ⟨k', heq⟩ := h.created
    · exact hold k (heq ▸ hk)
    · rcases List.mem_append.mp (heq ▸ hk) with hk | hk
      · exact hold k hk
      · exact List.mem_singleton.mp hk ▸ hlisted (h.isArray ▸ harray)
    · exact hold k (List.mem_filter.mp (heq ▸ hk)).1
  sound := h.sound ho.sound

theorem Turn.refl (o : Object) : o.Turn o := ⟨.inl rfl, rfl, id⟩

theorem Turn.of_eq (h : x = o) : o.Turn x := h ▸ .refl o

/-- A change of the list alone. -/
theorem Turn.of_kind (hkind : x.kind = o.kind)
    (hcreated : x.created = o.created ∨
      (∃ k, k ∉ o.created ∧ (o.isArray = true → k.arrayIndex? = none ∧ k.isNamed "length" = false) ∧
        x.created = o.created ++ [k]) ∨
      ∃ k, x.created = o.created.filter fun k' => !(k' == k)) : o.Turn x where
  created := hcreated
  isArray := by rw [Object.isArray, Object.isArray, hkind]
  sound := fun h e he => h e (by rwa [elements?, ← hkind])

/-- A change of the elements of an array alone. -/
theorem Turn.of_elements {e e' : Elements Value} (h : e.IsSound → e'.IsSound) (isExtensible : Bool)
    (properties : Array Slot) :
    Turn ⟨.array e, isExtensible, properties⟩ ⟨.array e', isExtensible, properties⟩ where
  created := .inl rfl
  isArray := rfl
  sound := fun hsound x hx => by
    cases hx
    exact h (hsound e rfl)

/-- An element of an array is what its index stands for. -/
theorem elementIndex?_eq_some {i : Nat} (hi : o.elementIndex? k = some i) :
    k.arrayIndex? = some i ∧ ∃ e isExtensible properties, o = ⟨.array e, isExtensible, properties⟩ := by
  obtain ⟨kind, isExtensible, properties⟩ := o
  cases kind with
  | array e => exact ⟨hi, e, isExtensible, properties, rfl⟩
  | _ => cases hi

theorem lt_of_elementIndex? {i : Nat} (hi : o.elementIndex? k = some i) : i < maxArrayLength :=
  (PropertyKey.arrayIndex?_eq_some_iff.mp (elementIndex?_eq_some hi).1).1

theorem turn_writeElement (o : Object) {i : Nat} (hi : i < maxArrayLength) (v : Value) :
    o.Turn (o.writeElement i v).2 := by
  obtain ⟨kind, isExtensible, properties⟩ := o
  cases kind with
  | array e =>
    unfold writeElement
    dsimp only
    split
    · exact .refl _
    · exact .of_elements (fun h => h.set hi v) _ _
  | _ => exact .refl _

/-- **An assignment**, but to the length of an array. -/
theorem turn_write (v : Value) (hlength : ¬(k.isNamed "length" = true ∧ o.isArray = true)) :
    o.Turn (o.write k v).2 := by
  cases hi : o.elementIndex? k with
  | some i =>
    unfold write
    rw [hi]
    exact turn_writeElement o (lt_of_elementIndex? hi) v
  | none =>
    cases hw : (o.write k v).1 with
    | false => exact .of_eq (write_of_false hi hw)
    | true =>
      refine .of_kind (kind_write hi) ?_
      rw [created_write hi hw]
      split
      · exact .inl rfl
      · next hk =>
        refine .inr (.inl ⟨k, hk, fun harray => ⟨arrayIndex?_of_elementIndex? hi harray, ?_⟩, rfl⟩)
        exact Bool.eq_false_iff.mpr fun hnamed => hlength ⟨hnamed, harray⟩

/-- **A definition.** -/
theorem turn_define (o : Object) (k : PropertyKey) (v : Value) : o.Turn (o.define k v).2 := by
  cases hi : o.elementIndex? k with
  | some i =>
    unfold define
    rw [hi]
    exact turn_writeElement o (lt_of_elementIndex? hi) v
  | none =>
    cases hw : (o.define k v).1 with
    | false => exact .of_eq (define_of_false hi hw)
    | true =>
      refine .of_kind (kind_define hi) ?_
      rw [created_define hi hw]
      split
      · exact .inl rfl
      · next hk =>
        refine .inr (.inl ⟨k, hk, fun harray => ⟨arrayIndex?_of_elementIndex? hi harray, ?_⟩, rfl⟩)
        -- The length of an array is not defined.
        rw [define, hi] at hw
        dsimp only at hw
        refine Bool.eq_false_iff.mpr fun hnamed => ?_
        rw [harray, hnamed] at hw
        cases hw

theorem turn_deleteListed (o : Object) (k : PropertyKey) : o.Turn (o.deleteListed k).2 := by
  cases hd : (o.deleteListed k).1 with
  | false => exact .of_eq (deleteListed_of_false hd)
  | true => exact .of_kind (kind_deleteListed o k) (.inr (.inr ⟨k, created_deleteListed hd⟩))

/-- **A deletion.** -/
theorem turn_delete (o : Object) (k : PropertyKey) : o.Turn (o.delete k).2 := by
  have hlisted := turn_deleteListed o k
  obtain ⟨kind, isExtensible, properties⟩ := o
  cases kind with
  | array e =>
    unfold delete
    dsimp only
    split
    · split
      · exact .refl _
      · exact .of_elements (fun h => h.remove _) _ _
    · split
      · exact .refl _
      · exact hlisted
  | _ => exact hlisted

theorem turn_setLength (o : Object) {n : Nat} (hn : n ≤ maxArrayLength) :
    o.Turn (o.setLength n).2 := by
  obtain ⟨kind, isExtensible, properties⟩ := o
  cases kind with
  | array e =>
    unfold setLength
    dsimp only
    split
    · exact .refl _
    · exact .of_elements (fun h => h.setLength hn) _ _
  | _ => exact .refl _

/-- A change of all elements leaves them sound. -/
theorem turn_changeElements {α : Type} (o : Object) {f : Elements Value → α × Elements Value}
    (hf : ∀ e, o.elements? = some e → e.IsSound → (f e).2.IsSound) (missing : α) :
    o.Turn (o.changeElements f missing).2 := by
  obtain ⟨kind, isExtensible, properties⟩ := o
  cases kind with
  | array e => exact .of_elements (hf e rfl) _ _
  | _ => exact .refl _

theorem turn_freeze (o : Object) : o.Turn o.freeze where
  created := .inl (by
    rw [freeze, Object.created, Object.created, Array.toList_map, List.map_map]
    rfl)
  isArray := by
    obtain ⟨kind, isExtensible, properties⟩ := o
    cases kind <;> rfl
  sound := fun h e he => by
    obtain ⟨kind, isExtensible, properties⟩ := o
    cases kind with
    | array e' =>
      cases he
      exact (h e' rfl).withFrozen true
    | _ => cases he

theorem turn_withName (o : Object) (name : String) : o.Turn (o.withName name) := by
  obtain ⟨kind, isExtensible, properties⟩ := o
  cases kind with
  | closure c => exact ⟨.inl rfl, rfl, fun _ _ he => by cases he⟩
  | _ => exact .refl _

/-! ### Overwriting -/

/-- Ascending lists of the same numbers are the same. -/
theorem eq_of_ascending {l m : List Nat} (hl : l.Pairwise (· < ·)) (hm : m.Pairwise (· < ·))
    (h : ∀ i, i ∈ l ↔ i ∈ m) : l = m :=
  List.Perm.eq_of_pairwise (fun _ _ _ _ hij hji => absurd hij (Nat.lt_asymm hji)) hl hm
    ((List.perm_ext_iff_of_nodup hl.nodup hm.nodup).mpr h)

/-- Arrays with elements at the same indices have the same indices. -/
theorem indices_array {e e' : Elements Value} (he : e.IsStored) (he' : e'.IsStored)
    (h : ∀ i, e'.has i = e.has i) : e'.present.map (·.1) = e.present.map (·.1) := by
  refine eq_of_ascending (List.pairwise_map.mpr (he'.ascending_presentFrom 0))
    (List.pairwise_map.mpr (he.ascending_presentFrom 0)) fun i => ?_
  rw [he'.mem_present_map, he.mem_present_map, h]

theorem mem_indices_list (h : o.elements? = none) {i : Nat} :
    i ∈ o.indices ↔ ∃ k ∈ o.created, k.arrayIndex? = some i := by
  rw [indices, h]
  dsimp only
  rw [sortIndices_eq, List.mem_insertionSort, List.mem_filterMap]

/-- The keys are those of the elements and of the list. -/
theorem ownKeys_congr (hkind : x.kind = o.kind) (hcreated : x.created = o.created) :
    x.ownKeys = o.ownKeys := by
  have hlist : ∀ o : Object, (o.properties.map (·.key)).toList = o.created := fun o =>
    Array.toList_map
  unfold ownKeys
  rw [hlist, hlist, hcreated, hkind]

theorem hasOwn_element {e : Elements Value} {i : Nat} (hi : k.arrayIndex? = some i)
    (isExtensible : Bool) (properties : Array Slot) :
    hasOwn ⟨.array e, isExtensible, properties⟩ k = e.has i := by
  simp only [hasOwn, ownProperty?, hi, Option.isSome_map, Elements.has]

/-- What is neither an element nor the length of an array is in the list. -/
theorem mem_created_of_hasOwn (hi : o.elementIndex? k = none) (hk : o.hasOwn k = true)
    (hlength : ¬(k.isNamed "length" = true ∧ o.isArray = true)) : k ∈ o.created := by
  cases harray : o.isArray with
  | true =>
    rw [harray, isNamed_iff] at hlength
    have hnot := arrayIndex?_of_elementIndex? hi harray
    rcases (IsKeyed.hasOwn_of_not_index hnot).mp hk with ⟨-, heq⟩ | ⟨hmem, -⟩
    · exact absurd ⟨heq, rfl⟩ hlength
    · exact hmem
  | false =>
    rw [mem_created]
    obtain ⟨kind, isExtensible, properties⟩ := o
    cases kind with
    | array e => cases harray
    | _ => exact hk

/-- An element that is overwritten keeps its place. -/
theorem ownKeys_writeElement (h : o.IsKeyed) {i : Nat} (hi : o.elementIndex? k = some i) (v : Value)
    (hk : o.hasOwn k = true) : (o.writeElement i v).2.ownKeys = o.ownKeys := by
  obtain ⟨hindex, e, isExtensible, properties, rfl⟩ := elementIndex?_eq_some hi
  rw [hasOwn_element hindex] at hk
  have hkeyed := (turn_writeElement ⟨.array e, isExtensible, properties⟩
    (PropertyKey.arrayIndex?_eq_some_iff.mp hindex).1 v).isKeyed h
  rw [hkeyed.ownKeys_eq, h.ownKeys_eq]
  revert hkeyed
  unfold writeElement
  dsimp only
  split
  · exact fun _ => rfl
  · intro hkeyed
    have hsame : (e.set i v).present.map (·.1) = e.present.map (·.1) := by
      refine indices_array (h.stored e rfl) (hkeyed.stored _ rfl) fun j => ?_
      rw [(h.stored e rfl).has_set]
      by_cases hj : j = i
      · simp [hj, hk]
      · simp [hj]
    unfold indices
    simp only [elements?]
    rw [hsame]
    rfl

/-- **What is assigned to keeps its place.** -/
theorem ownKeys_write (h : o.IsKeyed) (v : Value) (hk : o.hasOwn k = true)
    (hlength : ¬(k.isNamed "length" = true ∧ o.isArray = true)) :
    (o.write k v).2.ownKeys = o.ownKeys := by
  cases hi : o.elementIndex? k with
  | some i =>
    have hwrite : o.write k v = o.writeElement i v := by rw [write, hi]
    rw [hwrite]
    exact ownKeys_writeElement h hi v hk
  | none =>
    cases hw : (o.write k v).1 with
    | false => rw [write_of_false hi hw]
    | true =>
      refine ownKeys_congr (kind_write hi) ?_
      rw [created_write hi hw, if_pos (mem_created_of_hasOwn hi hk hlength)]

/-- **What is defined again keeps its place.** -/
theorem ownKeys_define (h : o.IsKeyed) (v : Value) (hk : o.hasOwn k = true) :
    (o.define k v).2.ownKeys = o.ownKeys := by
  cases hi : o.elementIndex? k with
  | some i =>
    have hdefine : o.define k v = o.writeElement i v := by rw [define, hi]
    rw [hdefine]
    exact ownKeys_writeElement h hi v hk
  | none =>
    cases hw : (o.define k v).1 with
    | false => rw [define_of_false hi hw]
    | true =>
      refine ownKeys_congr (kind_define hi) ?_
      have hlength : ¬(k.isNamed "length" = true ∧ o.isArray = true) := by
        rintro ⟨hnamed, harray⟩
        rw [define, hi] at hw
        dsimp only at hw
        rw [harray, hnamed] at hw
        cases hw
      rw [created_define hi hw, if_pos (mem_created_of_hasOwn hi hk hlength)]

/-! ### Creating again -/

theorem delete_eq_deleteListed (hi : o.elementIndex? k = none) (hd : (o.delete k).1 = true) :
    o.delete k = o.deleteListed k := by
  obtain ⟨kind, isExtensible, properties⟩ := o
  cases kind with
  | array e =>
    have hnot : k.arrayIndex? = none := hi
    unfold delete at hd ⊢
    dsimp only at hd ⊢
    rw [hnot] at hd ⊢
    dsimp only at hd ⊢
    split at hd
    · cases hd
    · next hlength => rw [if_neg hlength]
  | _ => rfl

/-- The length of an array is not deleted. -/
theorem not_length_of_delete (hd : (o.delete k).1 = true) :
    ¬(k.isNamed "length" = true ∧ o.isArray = true) := by
  rintro ⟨hnamed, harray⟩
  obtain ⟨kind, isExtensible, properties⟩ := o
  cases kind with
  | array e =>
    rw [isNamed_iff] at hnamed
    subst hnamed
    have hnot : ("length" : PropertyKey).arrayIndex? = none := by decide +kernel
    unfold delete at hd
    dsimp only at hd
    rw [hnot, isNamed_iff.mpr rfl] at hd
    cases hd
  | _ => cases harray

/-- What is required of keys holds of the second object, and its keys are those of the first one: the
given one is the last of its group, unless it stands for an index. -/
structure Recreated (o x : Object) (k : PropertyKey) : Prop where
  isKeyed : x.IsKeyed
  indices_eq : x.indices = o.indices
  nameKeys_eq : x.nameKeys = o.nameKeys.filter (fun k' => !(k' == k)) ++ [k].filter isNameKey
  symbolKeys_eq :
    x.symbolKeys = o.symbolKeys.filter (fun k' => !(k' == k)) ++ [k].filter (·.isSymbol)

/-- A key that does not belong to a group is not missed in it. -/
theorem filter_of_not {p : PropertyKey → Bool} (hp : p k = false) (l : List PropertyKey) :
    (l.filter p).filter (fun k' => !(k' == k)) ++ [k].filter p = l.filter p := by
  rw [List.filter_singleton, hp, List.filter_eq_self.mpr fun k' hk' => ?_]
  · exact List.append_nil _
  · rw [Bool.not_eq_true', beq_eq_false_iff_ne]
    rintro rfl
    rw [(List.mem_filter.mp hk').2] at hp
    cases hp

section Elements

variable {e : Elements Value} {isExtensible : Bool} {properties : Array Slot} {i : Nat} {v : Value}

/-- An element that was taken out is put back where it was. -/
theorem recreate_element (hi : k.arrayIndex? = some i) (hk : e.has i = true)
    (hd : (delete ⟨.array e, isExtensible, properties⟩ k).1 = true)
    (hx : (delete ⟨.array e, isExtensible, properties⟩ k).2.write k v = (true, x) ∨
      (delete ⟨.array e, isExtensible, properties⟩ k).2.define k v = (true, x)) :
    x = ⟨.array ((e.remove i).set i v), isExtensible, properties⟩ := by
  have hthawed : e.isFrozen = false := by
    cases hfrozen : e.isFrozen with
    | false => rfl
    | true => simp [delete, hi, hfrozen, hk] at hd
  have hdeleted : (delete ⟨.array e, isExtensible, properties⟩ k).2
      = ⟨.array (e.remove i), isExtensible, properties⟩ := by
    simp [delete, hi, hthawed]
  have hwrite : writeElement ⟨.array (e.remove i), isExtensible, properties⟩ i v = (true, x) := by
    rcases hx with hx | hx <;>
      simpa only [hdeleted, write, define, elementIndex?, isArray, if_true, hi] using hx
  unfold writeElement at hwrite
  dsimp only at hwrite
  split at hwrite
  · cases hwrite
  · cases hwrite
    rfl

theorem recreated_element (h : IsKeyed ⟨.array e, isExtensible, properties⟩)
    (hi : k.arrayIndex? = some i) (hk : e.has i = true) :
    Recreated ⟨.array e, isExtensible, properties⟩
      ⟨.array ((e.remove i).set i v), isExtensible, properties⟩ k := by
  have hstored := h.stored e rfl
  have hname : isNameKey k = false := by rw [isNameKey, hi, Option.isNone_some, Bool.and_false]
  have hsymbol : k.isSymbol = false := by
    cases k with
    | text t => rfl
    | symbol s => cases hi
  have hturn : Turn ⟨.array e, isExtensible, properties⟩
      ⟨.array ((e.remove i).set i v), isExtensible, properties⟩ :=
    .of_elements (fun h => (h.remove i).set (PropertyKey.arrayIndex?_eq_some_iff.mp hi).1 v) _ _
  refine ⟨hturn.isKeyed h, ?_, ?_, (filter_of_not hsymbol _).symm⟩
  · refine indices_array hstored ((hstored.remove i).set i v) fun j => ?_
    rw [(hstored.remove i).has_set, Elements.has_remove]
    by_cases hj : j = i
    · simp [hj, hk]
    · simp [hj]
  · have hne : ("length" : PropertyKey) ≠ k := fun heq => by
      rw [← heq, isNameKey_length] at hname
      cases hname
    simp only [nameKeys, isArray, if_true, List.filter_append, List.append_assoc]
    rw [filter_of_not hname, List.filter_singleton, beq_false_of_ne hne]
    rfl

end Elements

/-- A key that was taken out of a list is put behind it. -/
theorem recreate_listed {v : Value} (hi : o.elementIndex? k = none)
    (hd : (o.deleteListed k).1 = true)
    (hx : (o.deleteListed k).2.write k v = (true, x) ∨
      (o.deleteListed k).2.define k v = (true, x)) :
    x.kind = o.kind ∧ x.created = o.created.filter (fun k' => !(k' == k)) ++ [k] := by
  have hkind := kind_deleteListed o k
  have hi' : (o.deleteListed k).2.elementIndex? k = none := by
    rwa [elementIndex?, isArray, hkind]
  have hgone : k ∉ (o.deleteListed k).2.created := by
    rw [created_deleteListed hd, List.mem_filter]
    simp
  rw [← created_deleteListed hd, ← hkind]
  rcases hx with hx | hx
  · have hcreated := created_write hi' (congrArg Prod.fst hx)
    rw [if_neg hgone, hx] at hcreated
    exact ⟨by rw [← kind_write hi', hx], hcreated⟩
  · have hcreated := created_define hi' (congrArg Prod.fst hx)
    rw [if_neg hgone, hx] at hcreated
    exact ⟨by rw [← kind_define hi', hx], hcreated⟩

/-- A list from which a key has been taken and to which it has been added again. -/
theorem recreated_listed (h : o.IsKeyed) (hkind : x.kind = o.kind) (hk : k ∈ o.created)
    (hcreated : x.created = o.created.filter (fun k' => !(k' == k)) ++ [k]) : Recreated o x k := by
  have hmem : ∀ k', k' ∈ x.created ↔ k' ∈ o.created := by
    intro k'
    rw [hcreated, List.mem_append, List.mem_filter, List.mem_singleton]
    by_cases heq : k' = k
    · simp [heq, hk]
    · simp [heq]
  have hgroup : ∀ p : PropertyKey → Bool, x.created.filter p =
      (o.created.filter p).filter (fun k' => !(k' == k)) ++ [k].filter p := fun p => by
    rw [hcreated, List.filter_append, List.filter_comm]
  have helements : x.elements? = o.elements? := by rw [elements?, elements?, hkind]
  have harray : x.isArray = o.isArray := by rw [isArray, isArray, hkind]
  have hkeyed : x.IsKeyed :=
    { distinct := by
        rw [hcreated]
        refine List.nodup_append.mpr ⟨h.distinct.filter _, List.nodup_singleton k, ?_⟩
        rintro k' hk' _ hkk rfl
        rw [List.mem_singleton.mp hkk] at hk'
        simpa using (List.mem_filter.mp hk').2
      listed := fun hisArray k' hk' => h.listed (harray ▸ hisArray) k' ((hmem k').mp hk')
      sound := fun e he => h.sound e (helements ▸ he) }
  refine ⟨hkeyed, ?_, ?_, hgroup _⟩
  · refine eq_of_ascending hkeyed.ascending_indices h.ascending_indices fun i => ?_
    cases he : o.elements? with
    | some e => rw [indices, indices, helements, he]
    | none =>
      rw [mem_indices_list (helements.trans he), mem_indices_list he]
      exact exists_congr fun k' => and_congr_left fun _ => hmem k'
  · unfold nameKeys
    rw [harray, hgroup, List.filter_append, ← List.append_assoc]
    congr 2
    -- The length of an array is never taken out.
    split
    · next hisArray =>
      have hne : ("length" : PropertyKey) ≠ k := by
        rintro rfl
        have hlength := (h.listed hisArray _ hk).2
        rw [isNamed_iff.mpr rfl] at hlength
        cases hlength
      rw [List.filter_singleton, beq_false_of_ne hne]
      rfl
    · rfl

/-- **What is deleted and created again** is the last of its group, unless it stands for an index. -/
theorem recreated_of_delete (h : o.IsKeyed) {v : Value} (hk : o.hasOwn k = true)
    (hd : (o.delete k).1 = true)
    (hx : (o.delete k).2.write k v = (true, x) ∨ (o.delete k).2.define k v = (true, x)) :
    Recreated o x k := by
  cases hi : o.elementIndex? k with
  | some i =>
    obtain ⟨hindex, e, isExtensible, properties, rfl⟩ := elementIndex?_eq_some hi
    rw [hasOwn_element hindex] at hk
    rw [recreate_element hindex hk hd hx]
    exact recreated_element h hindex hk
  | none =>
    have hmem := mem_created_of_hasOwn hi hk (not_length_of_delete hd)
    have hdelete := delete_eq_deleteListed hi hd
    rw [hdelete] at hd hx
    obtain ⟨hkind, hcreated⟩ := recreate_listed hi hd hx
    exact recreated_listed h hkind hmem hcreated

end Object

end Scriptlet
