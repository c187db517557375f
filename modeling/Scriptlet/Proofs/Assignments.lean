import Scriptlet.Proofs.Deletion

/-!
# Assignments to properties

An assignment gives an object a property or another value for one, in the list of properties, in the
block or in the list of elements; it may make an array longer.  The length of an array is assigned to
in another way: elements at and behind it are lost.  Either way nothing else changes, and an assignment
that fails changes nothing.

## Main definitions

* `Object.Takes` — an object has taken a value for a key.
* `Object.Resized` — an array has been given a length.

## Main results

* `Object.takes_write`, `Object.write_of_not` — what an assignment does to an object.
* `Object.resized_setLength`, `Object.setLength_of_not` — what an assignment to the length does.
-/

namespace Scriptlet

open Eval

namespace Object

variable {o x : Object} {k : PropertyKey} {v : Value}

/-- The length of an array of the given length after an assignment to the key. -/
def grown (k : PropertyKey) (length : Nat) : Nat :=
  match k.arrayIndex? with
  | some i => max length (i + 1)
  | none => length

/-- Whether a key stands for no index at or behind the given one. -/
def isBefore (n : Nat) (k : PropertyKey) : Bool := k.arrayIndex?.all (· < n)

/-- The second object is the first one after it has taken a value for a key: a property that there was
has the value and is as it was else, and one that is new comes last of its kind; an array is longer
than the index. -/
structure Takes (o : Object) (k : PropertyKey) (v : Value) (x : Object) : Prop where
  property : x.ownProperty? k = some { (o.ownProperty? k).getD (.data k v) with value := v }
  others : ∀ j, j ≠ k → (o.isArray = true → j ≠ ("length" : PropertyKey)) →
    x.ownProperty? j = o.ownProperty? j
  length : ∀ e, o.elements? = some e → x.ownProperty? "length" =
    (o.ownProperty? "length").map fun p => { p with value := .ofNat (grown k e.length) }
  order : x.ownKeys.filter (· != k) = o.ownKeys.filter (· != k)
  isExtensible : x.isExtensible = o.isExtensible

/-- The second object is the first one, an array, with another length: the elements at and behind it
are lost. -/
structure Resized (o : Object) (n : Nat) (x : Object) : Prop where
  length : x.ownProperty? "length" =
    (o.ownProperty? "length").map fun p => { p with value := .ofNat n }
  removed : ∀ j, isBefore n j = false → x.ownProperty? j = none
  others : ∀ j, isBefore n j = true → j ≠ ("length" : PropertyKey) →
    x.ownProperty? j = o.ownProperty? j
  order : x.ownKeys = o.ownKeys.filter (isBefore n)
  isExtensible : x.isExtensible = o.isExtensible

/-! ### Keys in order -/

theorem arrayIndex?_length : ("length" : PropertyKey).arrayIndex? = none := by decide +kernel

/-- Keys are in the same order if the list of properties and the indices are. -/
theorem filter_ownKeys (ho : o.IsKeyed) (hx : x.IsKeyed) (harray : x.isArray = o.isArray)
    {p : PropertyKey → Bool} (hcreated : x.created.filter p = o.created.filter p)
    (hindices : ∀ j, p j = true → j.arrayIndex?.isSome = true → x.hasOwn j = o.hasOwn j) :
    x.ownKeys.filter p = o.ownKeys.filter p := by
  have hgroup : ∀ q : PropertyKey → Bool,
      (x.created.filter q).filter p = (o.created.filter q).filter p := by
    intro q
    rw [List.filter_comm, hcreated, List.filter_comm]
  have hascending : ∀ i, i ∈ x.indices.filter (p ∘ .ofNat) ↔ i ∈ o.indices.filter (p ∘ .ofNat) := by
    intro i
    rw [List.mem_filter, List.mem_filter, hx.mem_indices, ho.mem_indices]
    refine and_congr_left fun hp => and_congr_right fun hi => ?_
    rw [hindices _ hp (by rw [PropertyKey.arrayIndex?_ofNat hi]; rfl)]
  have hsame : x.indices.filter (p ∘ .ofNat) = o.indices.filter (p ∘ .ofNat) :=
    eq_of_ascending (hx.ascending_indices.filter _) (ho.ascending_indices.filter _) hascending
  rw [hx.ownKeys_eq, ho.ownKeys_eq]
  simp only [List.filter_append, List.filter_map, hsame, nameKeys, symbolKeys, harray, hgroup]

/-! ### Elements -/

section Elements

variable {e : Elements Value} {isExtensible : Bool} {properties : Array Slot} {i : Nat}

theorem ownProperty?_array (e : Elements Value) (isExtensible : Bool) (properties : Array Slot)
    (k : PropertyKey) : ownProperty? ⟨.array e, isExtensible, properties⟩ k =
      match k.arrayIndex? with
      | some i => (e.get? i).map (elementProperty e k)
      | none =>
        if k.isNamed "length" then some (lengthProperty e k)
        else listed? ⟨.array e, isExtensible, properties⟩ k := rfl

theorem ownProperty?_length (e : Elements Value) (isExtensible : Bool) (properties : Array Slot) :
    ownProperty? ⟨.array e, isExtensible, properties⟩ "length" = some (lengthProperty e "length") := by
  rw [ownProperty?_array, arrayIndex?_length]
  rfl

theorem ownProperty?_length_of (h : o.elements? = some e) :
    o.ownProperty? "length" = some (lengthProperty e "length") := by
  obtain ⟨kind, isExtensible, properties⟩ := o
  cases kind with
  | array e' =>
    cases h
    exact ownProperty?_length e isExtensible properties
  | _ => cases h

/-- An element is written to an array that is not frozen, if there is room. -/
theorem writeElement_cases (o : Object) (i : Nat) (v : Value) :
    o.writeElement i v = (false, o) ∨ ∃ e isExtensible properties,
      o = ⟨.array e, isExtensible, properties⟩ ∧ e.isFrozen = false ∧
      o.writeElement i v = (true, ⟨.array (e.set i v), isExtensible, properties⟩) := by
  obtain ⟨kind, isExtensible, properties⟩ := o
  cases kind with
  | array e =>
    unfold writeElement
    dsimp only
    split
    · exact .inl rfl
    · next h =>
      rw [Bool.or_eq_true, not_or, Bool.not_eq_true] at h
      exact .inr ⟨e, isExtensible, properties, rfl, h.1, rfl⟩
  | _ => exact .inl rfl

/-- **An element is written.** -/
theorem takes_set (h : IsKeyed ⟨.array e, isExtensible, properties⟩) (hi : k.arrayIndex? = some i)
    (hfrozen : e.isFrozen = false) (v : Value) :
    Takes ⟨.array e, isExtensible, properties⟩ k v
      ⟨.array (e.set i v), isExtensible, properties⟩ := by
  have hstored := h.stored e rfl
  have hlt : i < maxArrayLength := (PropertyKey.arrayIndex?_eq_some_iff.mp hi).1
  have hfrozen' : (e.set i v).isFrozen = false := (Elements.isFrozen_set e i v).trans hfrozen
  have hget : ∀ j, (e.set i v).get? j = if j = i then some v else e.get? j := fun j =>
    congrArg (fun r : Row Value => r.get? j) (Elements.row_set hstored i v)
  have hlength : (e.set i v).length = max e.length (i + 1) :=
    congrArg Row.length (Elements.row_set hstored i v)
  -- Other indices have their elements, and other names are in the list, which is the same.
  have hothers : ∀ j, j ≠ k → j ≠ ("length" : PropertyKey) →
      ownProperty? ⟨.array (e.set i v), isExtensible, properties⟩ j
        = ownProperty? ⟨.array e, isExtensible, properties⟩ j := by
    intro j hjk hj
    rw [ownProperty?_array, ownProperty?_array]
    cases hl : j.arrayIndex? with
    | some l =>
      have hne : l ≠ i := by
        rintro rfl
        exact hjk ((PropertyKey.ofNat_of_arrayIndex? hl).symm.trans (PropertyKey.ofNat_of_arrayIndex? hi))
      dsimp only
      rw [hget, if_neg hne]
      unfold elementProperty
      rw [hfrozen, hfrozen']
    | none =>
      have hnamed : ¬j.isNamed "length" = true := fun hnamed => hj (isNamed_iff.mp hnamed)
      dsimp only
      rw [if_neg hnamed, if_neg hnamed]
      rfl
  refine ⟨?_, fun j hjk hj => hothers j hjk (hj rfl), ?_, ?_, rfl⟩
  · rw [ownProperty?_array, ownProperty?_array, hi]
    dsimp only
    rw [hget, if_pos rfl, Option.map_some]
    unfold elementProperty
    rw [hfrozen, hfrozen']
    cases e.get? i <;> rfl
  · rintro _ ⟨⟩
    rw [ownProperty?_length, ownProperty?_length, Option.map_some, grown, hi]
    unfold lengthProperty
    rw [hlength, hfrozen, hfrozen']
  · have hkeyed : IsKeyed ⟨.array (e.set i v), isExtensible, properties⟩ :=
      (Turn.of_elements (fun h => h.set hlt v) isExtensible properties).isKeyed h
    refine filter_ownKeys h hkeyed rfl rfl fun j hj hindex => ?_
    have hjk : j ≠ k := by simpa using hj
    have hjl : j ≠ ("length" : PropertyKey) := by
      rintro rfl
      rw [arrayIndex?_length] at hindex
      cases hindex
    rw [hasOwn, hasOwn, hothers j hjk hjl]

/-- **An array is given a length.** -/
theorem resized_elements (h : IsKeyed ⟨.array e, isExtensible, properties⟩) {n : Nat}
    (hn : n ≤ maxArrayLength) :
    Resized ⟨.array e, isExtensible, properties⟩ n
      ⟨.array (e.setLength n), isExtensible, properties⟩ := by
  have hstored := h.stored e rfl
  -- What lies before the new length is in its place, and names are in the list.
  have hget : ∀ j, (e.setLength n).get? j = if j < n then e.get? j else none := fun j =>
    congrArg (fun r : Row Value => r.get? j) (Elements.row_setLength hstored n)
  have hothers : ∀ j, isBefore n j = true → j ≠ ("length" : PropertyKey) →
      ownProperty? ⟨.array (e.setLength n), isExtensible, properties⟩ j
        = ownProperty? ⟨.array e, isExtensible, properties⟩ j := by
    intro j hj hjl
    rw [ownProperty?_array, ownProperty?_array]
    cases hl : j.arrayIndex? with
    | some l =>
      have hlt : l < n := by simpa [isBefore, hl] using hj
      dsimp only
      rw [hget, if_pos hlt]
      rfl
    | none =>
      have hnamed : ¬j.isNamed "length" = true := fun hnamed => hjl (isNamed_iff.mp hnamed)
      dsimp only
      rw [if_neg hnamed, if_neg hnamed]
      rfl
  -- Only indices can lie behind the new length.
  have hremoved : ∀ j, isBefore n j = false →
      ownProperty? ⟨.array (e.setLength n), isExtensible, properties⟩ j = none := by
    intro j hj
    rw [ownProperty?_array]
    cases hl : j.arrayIndex? with
    | some l =>
      have hle : ¬l < n := by simpa [isBefore, hl] using hj
      dsimp only
      rw [hget, if_neg hle, Option.map_none]
    | none =>
      rw [isBefore, hl] at hj
      cases hj
  refine ⟨?_, hremoved, hothers, ?_, rfl⟩
  · rw [ownProperty?_length, ownProperty?_length]
    rfl
  -- All keys that are left lie before the new length, so that filtering the old keys gives them.
  · have hkeyed : IsKeyed ⟨.array (e.setLength n), isExtensible, properties⟩ :=
      (Turn.of_elements (fun h => h.setLength hn) isExtensible properties).isKeyed h
    have hall : ∀ j ∈ ownKeys ⟨.array (e.setLength n), isExtensible, properties⟩,
        isBefore n j = true := by
      intro j hj
      rw [hkeyed.mem_ownKeys, hasOwn] at hj
      by_contra hbefore
      rw [hremoved j (Bool.not_eq_true _ ▸ hbefore)] at hj
      cases hj
    rw [← List.filter_eq_self.mpr hall]
    refine filter_ownKeys h hkeyed rfl rfl fun j hj hindex => ?_
    have hjl : j ≠ ("length" : PropertyKey) := by
      rintro rfl
      rw [arrayIndex?_length] at hindex
      cases hindex
    rw [hasOwn, hasOwn, hothers j hj hjl]

end Elements

/-! ### The list of properties -/

/-- The first key that is given decides which property of the list is found. -/
theorem listed?_eq (o : Object) (k : PropertyKey) :
    o.listed? k = (o.created.findIdx? (· == k)).bind (o.properties[·]?) := by
  rw [listed?, ← Array.find?_toList, List.find?_eq_bind_findIdx?_getElem?, created, List.findIdx?_map]
  simp only [Array.getElem?_toList]
  rfl

theorem findIdx?_created (o : Object) (k : PropertyKey) :
    o.created.findIdx? (· == k) = o.properties.findIdx? (·.key == k) := by
  obtain ⟨kind, isExtensible, ⟨properties⟩⟩ := o
  rw [created, List.findIdx?_map, List.findIdx?_toArray]
  rfl

theorem listed?_add {p : Slot} (h : (o.add p).1 = true) (j : PropertyKey) :
    (o.add p).2.listed? j = (o.listed? j).or (if p.key == j then some p else none) := by
  obtain ⟨kind, isExtensible, properties⟩ := o
  cases isExtensible with
  | false => cases h
  | true => exact Array.find?_push

/-- What is neither an element nor the length of an array is looked for in the list. -/
theorem ownProperty?_listed (hi : o.elementIndex? k = none)
    (hlength : ¬(k.isNamed "length" = true ∧ o.isArray = true)) : o.ownProperty? k = o.listed? k := by
  obtain ⟨kind, isExtensible, properties⟩ := o
  cases kind with
  | array e =>
    have hindex : k.arrayIndex? = none := arrayIndex?_of_elementIndex? hi rfl
    have hnamed : ¬k.isNamed "length" = true := fun hnamed => hlength ⟨hnamed, rfl⟩
    rw [ownProperty?_array, hindex]
    dsimp only
    rw [if_neg hnamed]
  | _ => rfl

theorem ownProperty?_congr (hkind : x.kind = o.kind) (hlisted : x.listed? k = o.listed? k) :
    x.ownProperty? k = o.ownProperty? k := by
  unfold ownProperty?
  rw [hkind, hlisted]

/-- **A property of the list is given a value**, whether it has been there or not. -/
theorem takes_listed (h : o.IsKeyed) (hx : x.IsKeyed) (hkind : x.kind = o.kind)
    (hextensible : x.isExtensible = o.isExtensible) (hi : o.elementIndex? k = none)
    (hlength : ¬(k.isNamed "length" = true ∧ o.isArray = true))
    (hself : x.listed? k = some { (o.listed? k).getD (.data k v) with value := v })
    (hothers : ∀ j, j ≠ k → x.listed? j = o.listed? j)
    (hcreated : x.created.filter (· != k) = o.created.filter (· != k)) : o.Takes k v x := by
  have harray : x.isArray = o.isArray := by rw [isArray, isArray, hkind]
  have hi' : x.elementIndex? k = none := by rwa [elementIndex?, harray]
  have hown : ∀ j, j ≠ k → x.ownProperty? j = o.ownProperty? j := fun j hj =>
    ownProperty?_congr hkind (hothers j hj)
  refine ⟨?_, fun j hj _ => hown j hj, fun e he => ?_, ?_, hextensible⟩
  · rw [ownProperty?_listed hi hlength, ownProperty?_listed hi' (harray ▸ hlength)]
    exact hself
  · have hisArray : o.isArray = true := isArray_iff.mpr ⟨e, he⟩
    have hne : ("length" : PropertyKey) ≠ k := by
      rintro rfl
      exact hlength ⟨isNamed_iff.mpr rfl, hisArray⟩
    rw [hown _ hne, grown, arrayIndex?_of_elementIndex? hi hisArray, ownProperty?_length_of he]
    rfl
  · refine filter_ownKeys h hx harray hcreated fun j hj _ => ?_
    have hjk : j ≠ k := by simpa using hj
    rw [hasOwn, hasOwn, hown j hjk]

/-- The first property with a key has another value. -/
theorem listed?_modify {n : Nat} (hn : o.properties.findIdx? (·.key == k) = some n) (v : Value)
    (j : PropertyKey) :
    listed? { o with properties := o.properties.modify n fun p => { p with value := v } } j
      = if j = k then (o.listed? k).map ({ · with value := v }) else o.listed? j := by
  -- A value is put into a slot, and the keys of the list stay as they are.
  have hcreated : created { o with properties := o.properties.modify n fun p => { p with value := v } }
      = o.created := created_congr fun i => by
    rw [Array.getElem?_modify]
    split
    · rw [Option.map_map]
      rfl
    · rfl
  rw [listed?_eq, hcreated]
  dsimp only
  split
  · next hj =>
    subst hj
    rw [listed?_eq, findIdx?_created, hn, Option.bind_some, Option.bind_some, Array.getElem?_modify,
      if_pos rfl]
  · next hj =>
    rw [listed?_eq]
    cases hl : o.created.findIdx? (· == j) with
    | none => rfl
    | some l =>
      -- Another key is found in another place of the list.
      have hne : n ≠ l := by
        rintro rfl
        obtain ⟨p, hp, hpk⟩ := findIdx?_eq_some hn
        obtain ⟨q, hq, hqj⟩ := findIdx?_eq_some ((findIdx?_created o j).symm.trans hl)
        rw [hp] at hq
        cases hq
        exact hj (hqj.symm.trans hpk)
      rw [Option.bind_some, Option.bind_some, Array.getElem?_modify, if_neg hne]

/-! ### Assignments -/

/-- What is assigned is found in the list and gets another value, or is added to it. -/
theorem write_cases (hi : o.elementIndex? k = none) (hw : (o.write k v).1 = true) :
    (∃ n, o.properties.findIdx? (·.key == k) = some n ∧ (o.write k v).2
        = { o with properties := o.properties.modify n fun p => { p with value := v } }) ∨
      o.properties.findIdx? (·.key == k) = none ∧ (o.add (.data k v)).1 = true ∧
        (o.write k v).2 = (o.add (.data k v)).2 := by
  revert hw
  unfold write
  rw [hi]
  dsimp only
  split
  · next n hn =>
    split
    · exact fun _ => .inl ⟨n, hn, rfl⟩
    · exact nofun
  · next hn => exact fun hw => .inr ⟨hn, hw, rfl⟩

/-- **An object takes what it is assigned**, if the assignment is possible. -/
theorem takes_write (h : o.IsKeyed) (hlength : ¬(k.isNamed "length" = true ∧ o.isArray = true))
    (hw : (o.write k v).1 = true) : o.Takes k v (o.write k v).2 := by
  have hx := (turn_write v hlength).isKeyed h
  -- An index of an array has its element there, whatever the list is.
  cases hi : o.elementIndex? k with
  | some i =>
    obtain ⟨hindex, -⟩ := elementIndex?_eq_some hi
    have hwrite : o.write k v = o.writeElement i v := by rw [write, hi]
    rw [hwrite] at hw ⊢
    rcases writeElement_cases o i v with heq | ⟨e, isExtensible, properties, rfl, hfrozen, heq⟩
    · rw [heq] at hw
      cases hw
    · rw [heq]
      exact takes_set h hindex hfrozen v
  | none =>
    -- The key is in the list, or is added at its end.
    have hcreated : (o.write k v).2.created.filter (· != k) = o.created.filter (· != k) := by
      rw [created_write hi hw]
      split
      · rfl
      · simp
    have hkind := kind_write (v := v) hi
    rcases write_cases hi hw with ⟨n, hn, heq⟩ | ⟨hn, hadd, heq⟩
    · rw [heq] at hx hkind hcreated ⊢
      obtain ⟨p, hp, hpk⟩ := findIdx?_eq_some hn
      have hlisted : o.listed? k = some p := by
        rw [listed?_eq, findIdx?_created, hn, Option.bind_some, hp]
      have hmodify := listed?_modify hn v
      refine takes_listed h hx hkind rfl hi hlength ?_ (fun j hj => ?_) hcreated
      · rw [hmodify, if_pos rfl, hlisted]
        rfl
      · rw [hmodify, if_neg hj]
    · rw [heq] at hx hkind hcreated ⊢
      have hnone : o.listed? k = none := by rw [listed?_eq, findIdx?_created, hn, Option.bind_none]
      refine takes_listed h hx hkind ?_ hi hlength ?_ (fun j hj => ?_) hcreated
      · obtain ⟨kind, isExtensible, properties⟩ := o
        cases isExtensible <;> rfl
      · rw [listed?_add hadd, hnone, Option.none_or]
        exact if_pos (beq_self_eq_true k)
      · have hne : ¬((Slot.data k v).key == j) = true := by
          rw [beq_iff_eq]
          exact fun heq => hj heq.symm
        rw [listed?_add hadd, if_neg hne, Option.or_none]

/-- An assignment that is not possible changes nothing. -/
theorem write_of_not (hw : (o.write k v).1 = false) : (o.write k v).2 = o := by
  cases hi : o.elementIndex? k with
  | none => exact write_of_false hi hw
  | some i =>
    have hwrite : o.write k v = o.writeElement i v := by rw [write, hi]
    rw [hwrite] at hw ⊢
    rcases writeElement_cases o i v with heq | ⟨e, isExtensible, properties, -, -, heq⟩
    · rw [heq]
    · rw [heq] at hw
      cases hw

/-- **An array gets the length that it is assigned**, if it is not frozen. -/
theorem resized_setLength (h : o.IsKeyed) {n : Nat} (hn : n ≤ maxArrayLength)
    (hw : (o.setLength n).1 = true) : o.Resized n (o.setLength n).2 := by
  obtain ⟨kind, isExtensible, properties⟩ := o
  cases kind with
  | array e =>
    unfold setLength at hw ⊢
    dsimp only at hw ⊢
    split at hw
    · cases hw
    · next hfrozen =>
      rw [if_neg hfrozen]
      exact resized_elements h hn
  | _ => cases hw

theorem setLength_of_not {n : Nat} (hw : (o.setLength n).1 = false) : (o.setLength n).2 = o := by
  obtain ⟨kind, isExtensible, properties⟩ := o
  cases kind with
  | array e =>
    unfold setLength at hw ⊢
    dsimp only at hw ⊢
    split at hw
    · next hfrozen => rw [if_pos hfrozen]
    · cases hw
  | _ => rfl

end Object

end Scriptlet
