import Scriptlet.Proofs.Evolution

/-!
# Frozen objects

An object without any room for change has three places that say so: it cannot be extended, its
properties can neither be written nor removed, and the elements of an array are frozen as a whole.
Every operation asks the place that is its concern before it changes anything, and no operation clears
any of the three.  What is left is the name that a function without one may get; it is no property.

## Main definitions

* `Object.IsSealed` — without any room for change.
* `Object.Shows` — the same properties and elements.

## Main results

* `Object.isSealed_freeze` — freezing leaves no room for change.
* `Object.Change.shows` — **no operation changes what a sealed object shows**.
-/

namespace Scriptlet

open Eval Relation

namespace Object

variable {o x y : Object}

/-- There is no room for change. -/
structure IsSealed (o : Object) : Prop where
  isExtensible : o.isExtensible = false
  properties : ∀ p ∈ o.properties, p.isWritable = false ∧ p.isConfigurable = false
  elements : ∀ e, o.elements? = some e → e.isFrozen = true

/-- Whether there is no room for change can be told. -/
instance (o : Object) : Decidable o.IsSealed :=
  decidable_of_iff (o.isExtensible = false ∧
      (∀ p ∈ o.properties, p.isWritable = false ∧ p.isConfigurable = false) ∧
      ∀ e ∈ o.elements?, e.isFrozen = true)
    ⟨fun h => ⟨h.1, h.2.1, h.2.2⟩, fun h => ⟨h.isExtensible, h.properties, h.elements⟩⟩

/-- The second object has the properties and the elements of the first one. -/
structure Shows (o x : Object) : Prop where
  isExtensible : x.isExtensible = o.isExtensible
  properties : x.properties = o.properties
  elements : x.elements? = o.elements?

theorem Shows.refl (o : Object) : o.Shows o := ⟨rfl, rfl, rfl⟩

theorem Shows.trans (h : o.Shows x) (h' : x.Shows y) : o.Shows y :=
  ⟨h'.isExtensible.trans h.isExtensible, h'.properties.trans h.properties,
    h'.elements.trans h.elements⟩

/-- What an object shows is all that freezing is about. -/
theorem Shows.isSealed (h : o.Shows x) (ho : o.IsSealed) : x.IsSealed where
  isExtensible := h.isExtensible.trans ho.isExtensible
  properties := h.properties ▸ ho.properties
  elements := h.elements ▸ ho.elements

/-- Keys and properties are those of the elements and of the list. -/
theorem Shows.ownKeys (h : o.Shows x) : x.ownKeys = o.ownKeys := by
  obtain ⟨kind, isExtensible, properties⟩ := o
  obtain ⟨kind', isExtensible', properties'⟩ := x
  obtain ⟨-, hproperties, helements⟩ := h
  cases hproperties
  cases kind <;> cases kind' <;> cases helements <;> rfl

/-- The properties that are seen are those that are shown. -/
theorem Shows.ownProperty? (h : o.Shows x) (k : PropertyKey) :
    x.ownProperty? k = o.ownProperty? k := by
  obtain ⟨kind, isExtensible, properties⟩ := o
  obtain ⟨kind', isExtensible', properties'⟩ := x
  obtain ⟨-, hproperties, helements⟩ := h
  cases hproperties
  cases kind <;> cases kind' <;> cases helements <;> rfl

/-- What leaves no room for change passes the test. -/
theorem IsSealed.isFrozen (h : o.IsSealed) : o.isFrozen = true := by
  have hproperties : (o.properties.all fun p => !p.isConfigurable && !p.isWritable) = true := by
    rw [Array.all_eq_true_iff_forall_mem]
    intro p hp
    rw [(h.properties p hp).1, (h.properties p hp).2]
    rfl
  have hextensible := h.isExtensible
  have helements := h.elements
  obtain ⟨kind, isExtensible, properties⟩ := o
  cases hextensible
  unfold Object.isFrozen
  rw [hproperties]
  cases kind with
  -- The flag of the elements stands for the attributes of all of them.
  | array e =>
    dsimp only
    rw [helements e rfl]
    rfl
  | _ => rfl

/-- **Freezing leaves no room for change.** -/
theorem isSealed_freeze (o : Object) : o.freeze.IsSealed where
  isExtensible := rfl
  properties := fun p hp => by
    obtain ⟨q, -, rfl⟩ := Array.mem_map.mp hp
    exact ⟨rfl, rfl⟩
  elements := fun e he => by
    obtain ⟨kind, isExtensible, properties⟩ := o
    cases kind <;> cases he
    rfl

/-! ### Operations on sealed objects -/

section Sealed

variable (h : o.IsSealed)

include h

theorem writeElement_of_sealed (i : Nat) (v : Value) : (o.writeElement i v).2 = o := by
  obtain ⟨kind, isExtensible, properties⟩ := o
  cases kind with
  | array e =>
    have he := h.elements e rfl
    simp only [writeElement, he, Bool.true_or, if_true]
  | _ => rfl

theorem add_of_sealed (p : Slot) : (o.add p).2 = o := by
  have he := h.isExtensible
  obtain ⟨kind, isExtensible, properties⟩ := o
  cases he
  rfl

/-- A property that is found is in the list. -/
theorem listed_of_sealed {k : PropertyKey} {n : Nat}
    (hn : o.properties.findIdx? (·.key == k) = some n) :
    ∃ p, o.properties[n]? = some p ∧ p.isWritable = false ∧ p.isConfigurable = false := by
  obtain ⟨hlt, -, -⟩ := Array.findIdx?_eq_some_iff_getElem.mp hn
  exact ⟨_, Array.getElem?_eq_getElem hlt, h.properties _ (Array.getElem_mem hlt)⟩

/-- A key stands for an element, for a property that is there, or for a new one: none of them is
written. -/
theorem write_of_sealed (k : PropertyKey) (v : Value) : (o.write k v).2 = o := by
  unfold write
  split
  · exact writeElement_of_sealed h _ v
  · split
    · next n hn =>
      obtain ⟨p, hp, hwritable, -⟩ := listed_of_sealed h hn
      rw [hp, Option.map_some, hwritable]
      rfl
    · exact add_of_sealed h _

/-- Likewise for defining. -/
theorem define_of_sealed (k : PropertyKey) (v : Value) : (o.define k v).2 = o := by
  unfold define
  split
  · exact writeElement_of_sealed h _ v
  · split
    · rfl
    · split
      · next n hn =>
        obtain ⟨p, hp, -, hconfigurable⟩ := listed_of_sealed h hn
        rw [hp, Option.map_some, hconfigurable]
        rfl
      · exact add_of_sealed h _

theorem deleteListed_of_sealed (k : PropertyKey) : (o.deleteListed k).2 = o := by
  unfold deleteListed
  split
  · rfl
  · next p hp =>
    rw [(h.properties p (Array.mem_of_find?_eq_some hp)).2]
    rfl

/-- Elements are frozen, features cannot be deleted, and no listed property is configurable. -/
theorem delete_of_sealed (k : PropertyKey) : (o.delete k).2 = o := by
  have hlisted := deleteListed_of_sealed h k
  obtain ⟨kind, isExtensible, properties⟩ := o
  cases kind with
  | array e =>
    have he := h.elements e rfl
    simp only [delete]
    split
    · rw [he]
      rfl
    · split
      · rfl
      · exact hlisted
  | _ => exact hlisted

theorem setLength_of_sealed (n : Nat) : (o.setLength n).2 = o := by
  obtain ⟨kind, isExtensible, properties⟩ := o
  cases kind with
  | array e =>
    have he := h.elements e rfl
    simp only [setLength, he, if_true]
  | _ => rfl

/-- Freezing again changes nothing. -/
theorem freeze_of_sealed : o.freeze = o := by
  have hproperties : (o.properties.map fun p => { p with isWritable := false, isConfigurable := false })
      = o.properties := by
    refine (Array.map_congr_left fun p hp => ?_).trans (Array.map_id _)
    obtain ⟨hwritable, hconfigurable⟩ := h.properties p hp
    -- Freezing changes the two attributes only, which are off already.
    obtain ⟨key, value, isWritable, isEnumerable, isConfigurable⟩ := p
    cases hwritable
    cases hconfigurable
    rfl
  have hextensible := h.isExtensible
  have helements := h.elements
  unfold freeze
  rw [hproperties]
  obtain ⟨kind, isExtensible, properties⟩ := o
  cases hextensible
  cases kind with
  | array e =>
    obtain ⟨dense, sparse, length, isFrozen⟩ := e
    cases helements _ rfl
    rfl
  | _ => rfl

/-- **No operation changes what a sealed object shows**; a function may get a name. -/
theorem Change.shows (hx : o.Change x) : o.Shows x := by
  have hsame : ∀ {y}, y = o → o.Shows y := fun heq => heq ▸ .refl o
  cases hx with
  | write k v => exact hsame (write_of_sealed h k v)
  | define k v => exact hsame (define_of_sealed h k v)
  | delete k => exact hsame (delete_of_sealed h k)
  | setLength n => exact hsame (setLength_of_sealed h n)
  | setElements hkind hthawed e' =>
    rw [h.elements _ (by rw [elements?, hkind])] at hthawed
    cases hthawed
  | freeze => exact hsame (freeze_of_sealed h)
  | withName name =>
    obtain ⟨kind, isExtensible, properties⟩ := o
    cases kind <;> exact ⟨rfl, rfl, rfl⟩

end Sealed

end Object

end Scriptlet
