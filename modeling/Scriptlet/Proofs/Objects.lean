import Scriptlet.Proofs.Values
import Scriptlet.Agent.Property
import Scriptlet.Evaluation.Binding

/-!
# Corresponding objects

Corresponding objects have the same keys with corresponding values, and a change of both of them
succeeds on both sides or on neither, and leaves corresponding objects.

## Main definitions

* `Object.ChangeRel` — corresponding outcomes of a change.
* `Object.KeepsFunctions` — a change neither makes nor unmakes functions.

## Main results

* `Object.Rel.ownProperty?`, `Object.Rel.ownKeys` — properties correspond, and keys are the same.
* `Object.Rel.write`, `Object.Rel.define`, `Object.Rel.delete`, `Object.Rel.setLength`,
  `Object.Rel.freeze`, `Object.Rel.changeElements` — **every change respects correspondence**.
-/

namespace Scriptlet

variable {ρ : World}

/-! ### What is read -/

namespace Object.Rel

variable {x y : Object}

/-- The kind of an object is that of the other one. -/
theorem isArray (h : Rel ρ x y) : x.isArray = y.isArray := by
  obtain ⟨kx, ex, px⟩ := x
  obtain ⟨ky, ey, py⟩ := y
  obtain ⟨hk, -, -⟩ := h
  dsimp only at hk
  cases hk <;> rfl

/-- So whether it is a function is the same on both sides. -/
theorem isFunction (h : Rel ρ x y) : x.isFunction = y.isFunction := by
  obtain ⟨kx, ex, px⟩ := x
  obtain ⟨ky, ey, py⟩ := y
  obtain ⟨hk, -, -⟩ := h
  dsimp only at hk
  cases hk <;> rfl

theorem isConstructor (h : Rel ρ x y) : x.isConstructor = y.isConstructor := by
  obtain ⟨kx, ex, px⟩ := x
  obtain ⟨ky, ey, py⟩ := y
  obtain ⟨hk, -, -⟩ := h
  dsimp only at hk
  cases hk with
  | closure hc => simp only [Object.isConstructor, hc.code]
  | _ => rfl

/-- A function's name is that of its code. -/
theorem functionName (h : Rel ρ x y) : x.functionName = y.functionName := by
  obtain ⟨kx, ex, px⟩ := x
  obtain ⟨ky, ey, py⟩ := y
  obtain ⟨hk, -, -⟩ := h
  dsimp only at hk
  cases hk with
  | closure hc => exact hc.name
  | _ => rfl

theorem functionLength (h : Rel ρ x y) : x.functionLength = y.functionLength := by
  obtain ⟨kx, ex, px⟩ := x
  obtain ⟨ky, ey, py⟩ := y
  obtain ⟨hk, -, -⟩ := h
  dsimp only at hk
  cases hk with
  | closure hc => simp only [Object.functionLength, hc.code]
  | _ => rfl

/-- The elements of corresponding arrays are related place by place. -/
theorem elements? (h : Rel ρ x y) :
    Option.Rel (Elements.Rel ρ.value) x.elements? y.elements? := by
  obtain ⟨kx, ex, px⟩ := x
  obtain ⟨ky, ey, py⟩ := y
  obtain ⟨hk, -, -⟩ := h
  dsimp only at hk
  cases hk with
  | array he => exact .some he
  | _ => exact .none

theorem method? (h : Rel ρ x y) (name : String) : x.method? name = y.method? name := by
  obtain ⟨kx, ex, px⟩ := x
  obtain ⟨ky, ey, py⟩ := y
  obtain ⟨hk, -, -⟩ := h
  dsimp only at hk
  cases hk <;> rfl

/-- What an object has because of its kind corresponds. -/
theorem feature? (h : Rel ρ x y) (k : PropertyKey) : ρ.value? (x.feature? k) (y.feature? k) := by
  have hn := h.functionName
  have hl := h.functionLength
  have hsame : x.feature? k = y.feature? k := by
    obtain ⟨kx, ex, px⟩ := x
    obtain ⟨ky, ey, py⟩ := y
    obtain ⟨hk, -, -⟩ := h
    dsimp only at hk
    cases hk <;> simp only [Object.feature?, hn, hl]
  rw [← hsame]
  unfold Object.feature?
  repeat' split
  all_goals first | exact .none | exact .some (Value.Rel.refl rfl)

/-! ### Properties -/

/-- A key is listed on both sides with corresponding properties, or on neither. -/
theorem listed? (h : Rel ρ x y) (k : PropertyKey) :
    Option.Rel (Slot.Rel ρ) (x.listed? k) (y.listed? k) := by
  unfold Object.listed?
  rw [← Array.find?_toList, ← Array.find?_toList]
  exact List.find?_rel (fun p q hpq => by rw [hpq.key]) h.properties

/-- It is listed at the same place, as the keys are the same. -/
theorem findIdx? (h : Rel ρ x y) (k : PropertyKey) :
    x.properties.findIdx? (·.key == k) = y.properties.findIdx? (·.key == k) := by
  have hx := List.findIdx?_toArray (fun p : Slot => p.key == k) x.properties.toList
  have hy := List.findIdx?_toArray (fun p : Slot => p.key == k) y.properties.toList
  rw [Array.toArray_toList] at hx hy
  rw [hx, hy]
  exact List.findIdx?_rel (fun p q hpq => by rw [hpq.key]) h.properties

theorem getElem? (h : Rel ρ x y) (n : Nat) :
    Option.Rel (Slot.Rel ρ) x.properties[n]? y.properties[n]? := by
  rw [← Array.getElem?_toList, ← Array.getElem?_toList]
  exact List.getElem?_rel h.properties n

/-- **Properties correspond**, wherever they are kept: in the list, as an element or as a feature of
the kind. -/
theorem ownProperty? (h : Rel ρ x y) (k : PropertyKey) :
    Option.Rel (Slot.Rel ρ) (x.ownProperty? k) (y.ownProperty? k) := by
  have hl := h.listed? k
  obtain ⟨kx, ex, px⟩ := x
  obtain ⟨ky, ey, py⟩ := y
  obtain ⟨hk, -, -⟩ := h
  dsimp only at hk
  cases hk with
  -- Only an array has properties apart from the list: its elements and its length.
  | array he =>
    unfold Object.ownProperty?
    dsimp only
    cases k.arrayIndex? with
    | some i =>
      refine Option.rel_map (fun v w hv => ?_) (he.get? i)
      refine ⟨rfl, hv, ?_, rfl, ?_⟩ <;> simp only [elementProperty, he.isFrozen_eq]
    | none =>
      dsimp only
      split
      · refine .some ⟨rfl, ?_, ?_, rfl, rfl⟩
        · simp only [lengthProperty, he.length_eq]
          exact .number _
        · simp only [lengthProperty, he.isFrozen_eq]
      · exact hl
  | _ => exact hl

theorem ownValue? (h : Rel ρ x y) (k : PropertyKey) :
    ρ.value? (x.ownValue? k) (y.ownValue? k) := by
  exact Option.rel_map (fun p q hpq => hpq.value) (h.ownProperty? k)

theorem hasOwn (h : Rel ρ x y) (k : PropertyKey) : x.hasOwn k = y.hasOwn k := by
  unfold Object.hasOwn
  obtain ⟨hx, hy⟩ | ⟨p, q, hx, hy, -⟩ := Option.rel_cases (h.ownProperty? k) <;> rw [hx, hy]
  rfl

/-- **The keys are the same in the same order**, as keys are nothing that is kept in a world. -/
theorem ownKeys (h : Rel ρ x y) : x.ownKeys = y.ownKeys := by
  have hkeys : (x.properties.map (·.key)).toList = (y.properties.map (·.key)).toList := by
    rw [Array.toList_map, Array.toList_map]
    exact List.map_rel (fun p q hpq => hpq.key) h.properties
  unfold Object.ownKeys
  rw [hkeys]
  obtain ⟨kx, ex, px⟩ := x
  obtain ⟨ky, ey, py⟩ := y
  obtain ⟨hk, -, -⟩ := h
  dsimp only at hk
  cases hk with
  | array he =>
    have hi := List.map_rel (f := fun p => PropertyKey.ofNat p.1)
      (g := fun p => PropertyKey.ofNat p.1) (fun p q hpq => by rw [hpq.1]) he.present
    dsimp only
    rw [hi]
  | _ => rfl

/-- Whether there is room for change does not depend on the values. -/
theorem isFrozen (h : Rel ρ x y) : x.isFrozen = y.isFrozen := by
  have hall : x.properties.all (fun p => !p.isConfigurable && !p.isWritable)
      = y.properties.all (fun p => !p.isConfigurable && !p.isWritable) := by
    rw [← Array.all_toList, ← Array.all_toList]
    exact List.all_rel (fun p q hpq => by rw [hpq.isConfigurable, hpq.isWritable]) h.properties
  unfold Object.isFrozen
  rw [hall, h.isExtensible]
  obtain ⟨kx, ex, px⟩ := x
  obtain ⟨ky, ey, py⟩ := y
  obtain ⟨hk, -, -⟩ := h
  dsimp only at hk
  -- The list is frozen alike in both; of an array the elements count as well, unless there are none.
  cases hk with
  | array he =>
    have hp := List.map_rel (f := fun p => p.1) (g := fun p => p.1) (fun p q hpq => hpq.1) he.present
    have hempty := congrArg List.isEmpty hp
    rw [List.isEmpty_map, List.isEmpty_map] at hempty
    simp only [he.isFrozen_eq, hempty]
  | _ => rfl

end Object.Rel

/-! ### What is changed -/

namespace Object

variable {x y : Object}

/-- Corresponding outcomes of a change: it was possible on both sides or on neither. -/
def ChangeRel (ρ : World) (p q : Bool × Object) : Prop := p.1 = q.1 ∧ Object.Rel ρ p.2 q.2

namespace Rel

/-- Corresponding objects with other properties that correspond. -/
theorem withProperties (h : Rel ρ x y) {px py : Array Slot}
    (hp : List.Forall₂ (Slot.Rel ρ) px.toList py.toList) :
    Rel ρ { x with properties := px } { y with properties := py } :=
  ⟨h.kind, h.isExtensible, hp⟩

theorem ofKind {k l : ObjectKind} (h : ObjectKind.Rel ρ k l) : Rel ρ (.ofKind k) (.ofKind l) :=
  ⟨h, rfl, .nil⟩

theorem empty : Rel ρ .empty .empty := ofKind .ordinary

/-- Whether a key stands for an element depends on the key and the kind. -/
theorem elementIndex? (h : Rel ρ x y) (k : PropertyKey) :
    x.elementIndex? k = y.elementIndex? k := by
  unfold Object.elementIndex?
  rw [h.isArray]

/-- An element is written if the array is not frozen and has room, which is so on both sides or on
neither. -/
theorem writeElement (h : Rel ρ x y) (i : Nat) {v w : Value} (hv : ρ.value v w) :
    ChangeRel ρ (x.writeElement i v) (y.writeElement i w) := by
  obtain ⟨kx, ex, px⟩ := x
  obtain ⟨ky, ey, py⟩ := y
  obtain ⟨hk, he, hp⟩ := h
  dsimp only at hk he hp
  subst he
  cases hk with
  | array ha =>
    simp only [Object.writeElement, ha.isFrozen_eq, ha.has_eq]
    split
    · exact ⟨rfl, .array ha, rfl, hp⟩
    · exact ⟨rfl, .array (ha.set i hv), rfl, hp⟩
  | ordinary => exact ⟨rfl, .ordinary, rfl, hp⟩
  | closure hc => exact ⟨rfl, .closure hc, rfl, hp⟩
  | builtin b => exact ⟨rfl, .builtin b, rfl, hp⟩
  | error k => exact ⟨rfl, .error k, rfl, hp⟩

/-- A property is added if the object may be extended. -/
theorem add (h : Rel ρ x y) {p q : Slot} (hpq : Slot.Rel ρ p q) :
    ChangeRel ρ (x.add p) (y.add q) := by
  unfold Object.add
  dsimp only
  rw [h.isExtensible]
  split
  · refine ⟨rfl, h.kind, rfl, ?_⟩
    rw [Array.toList_push, Array.toList_push]
    exact List.rel_append h.properties (.cons hpq .nil)
  · exact ⟨rfl, h.kind, rfl, h.properties⟩

theorem data (k : PropertyKey) {v w : Value} (hv : ρ.value v w) :
    Slot.Rel ρ (.data k v) (.data k w) :=
  ⟨rfl, hv, rfl, rfl, rfl⟩

theorem hidden (k : PropertyKey) {v w : Value} (hv : ρ.value v w) :
    Slot.Rel ρ (.hidden k v) (.hidden k w) :=
  ⟨rfl, hv, rfl, rfl, rfl⟩

/-- **Writing respects correspondence**: it is decided by the attributes, which are the same. -/
theorem write (h : Rel ρ x y) (k : PropertyKey) {v w : Value} (hv : ρ.value v w) :
    ChangeRel ρ (x.write k v) (y.write k w) := by
  unfold Object.write
  rw [h.elementIndex?, h.findIdx?]
  split
  · exact h.writeElement _ hv
  · split
    · rename_i n _
      have hw := Option.map_rel (fun p q hpq => hpq.isWritable) (h.getElem? n)
      rw [hw]
      split
      · refine ⟨rfl, h.withProperties ?_⟩
        rw [Array.toList_modify, Array.toList_modify]
        exact List.modify_rel (fun p q hpq => { hpq with value := hv }) h.properties n
      · exact ⟨rfl, h⟩
    · exact h.add (data k hv)

/-- So does defining. -/
theorem define (h : Rel ρ x y) (k : PropertyKey) {v w : Value} (hv : ρ.value v w) :
    ChangeRel ρ (x.define k v) (y.define k w) := by
  unfold Object.define
  rw [h.elementIndex?, h.findIdx?, h.isArray]
  -- An index of an array is written as an element; any other key is looked up in the list.
  split
  · exact h.writeElement _ hv
  · split
    · exact ⟨rfl, h⟩
    · split
      · rename_i n _
        have hc := Option.map_rel (fun p q hpq => hpq.isConfigurable) (h.getElem? n)
        rw [hc]
        split
        · refine ⟨rfl, h.withProperties ?_⟩
          rw [Array.toList_setIfInBounds, Array.toList_setIfInBounds]
          exact List.set_rel (data k hv) h.properties n
        · exact ⟨rfl, h⟩
      · exact h.add (data k hv)

/-- What is deleted from the list is what has the key. -/
theorem deleteListed (h : Rel ρ x y) (k : PropertyKey) :
    ChangeRel ρ (x.deleteListed k) (y.deleteListed k) := by
  have hl := h.listed? k
  unfold Object.listed? at hl
  unfold Object.deleteListed
  obtain ⟨hx, hy⟩ | ⟨p, q, hx, hy, hpq⟩ := Option.rel_cases hl
  · rw [hx, hy]
    exact ⟨rfl, h⟩
  · rw [hx, hy]
    dsimp only
    rw [hpq.isConfigurable]
    split
    · refine ⟨rfl, h.withProperties ?_⟩
      rw [Array.toList_filter, Array.toList_filter]
      exact List.rel_filter (fun p q hpq => by dsimp only; rw [hpq.key]) h.properties
    · exact ⟨rfl, h⟩

/-- **Deleting respects correspondence.** -/
theorem delete (h : Rel ρ x y) (k : PropertyKey) : ChangeRel ρ (x.delete k) (y.delete k) := by
  have hd := h.deleteListed k
  obtain ⟨kx, ex, px⟩ := x
  obtain ⟨ky, ey, py⟩ := y
  obtain ⟨hk, he, hp⟩ := h
  dsimp only at hk he hp
  subst he
  cases hk with
  | array ha =>
    unfold Object.delete
    dsimp only
    split
    · rw [ha.isFrozen_eq, ha.has_eq]
      split
      · exact ⟨rfl, .array ha, rfl, hp⟩
      · exact ⟨rfl, .array (ha.remove _), rfl, hp⟩
    · split
      · exact ⟨rfl, .array ha, rfl, hp⟩
      · exact hd
  | _ => exact hd

/-- Only arrays have a length that can be set. -/
theorem setLength (h : Rel ρ x y) (n : Nat) : ChangeRel ρ (x.setLength n) (y.setLength n) := by
  obtain ⟨kx, ex, px⟩ := x
  obtain ⟨ky, ey, py⟩ := y
  obtain ⟨hk, he, hp⟩ := h
  dsimp only at hk he hp
  subst he
  cases hk with
  | array ha =>
    simp only [Object.setLength, ha.isFrozen_eq]
    split
    · exact ⟨rfl, .array ha, rfl, hp⟩
    · exact ⟨rfl, .array (ha.setLength n), rfl, hp⟩
  | ordinary => exact ⟨rfl, .ordinary, rfl, hp⟩
  | closure hc => exact ⟨rfl, .closure hc, rfl, hp⟩
  | builtin b => exact ⟨rfl, .builtin b, rfl, hp⟩
  | error k => exact ⟨rfl, .error k, rfl, hp⟩

/-- Freezing changes attributes, which are the same on both sides. -/
theorem freeze (h : Rel ρ x y) : Rel ρ x.freeze y.freeze := by
  refine ⟨?_, rfl, ?_⟩
  · obtain ⟨kx, ex, px⟩ := x
    obtain ⟨ky, ey, py⟩ := y
    obtain ⟨hk, -, -⟩ := h
    dsimp only at hk
    cases hk with
    | array ha => exact .array ha.frozen
    | ordinary => exact .ordinary
    | closure hc => exact .closure hc
    | builtin b => exact .builtin b
    | error k => exact .error k
  · simp only [Object.freeze, Array.toList_map]
    refine List.rel_map (fun p q hpq => ?_) h.properties
    exact ⟨hpq.key, hpq.value, rfl, hpq.isEnumerable, rfl⟩

/-- The elements of corresponding objects may be changed alike. -/
theorem changeElements {α β : Type} {R : α → β → Prop} (h : Rel ρ x y)
    {f : Elements Value → α × Elements Value} {g : Elements Value → β × Elements Value}
    (hfg : ∀ e e', Elements.Rel ρ.value e e' →
      R (f e).1 (g e').1 ∧ Elements.Rel ρ.value (f e).2 (g e').2)
    {a : α} {b : β} (hab : R a b) :
    R (x.changeElements f a).1 (y.changeElements g b).1
      ∧ Rel ρ (x.changeElements f a).2 (y.changeElements g b).2 := by
  obtain ⟨kx, ex, px⟩ := x
  obtain ⟨ky, ey, py⟩ := y
  obtain ⟨hk, he, hp⟩ := h
  dsimp only at hk he hp
  subst he
  cases hk with
  | array ha => exact ⟨(hfg _ _ ha).1, .array (hfg _ _ ha).2, rfl, hp⟩
  | ordinary => exact ⟨hab, .ordinary, rfl, hp⟩
  | closure hc => exact ⟨hab, .closure hc, rfl, hp⟩
  | builtin b => exact ⟨hab, .builtin b, rfl, hp⟩
  | error k => exact ⟨hab, .error k, rfl, hp⟩

/-- Only closures without a name get one. -/
theorem withName (h : Rel ρ x y) (name : String) : Rel ρ (x.withName name) (y.withName name) := by
  obtain ⟨kx, ex, px⟩ := x
  obtain ⟨ky, ey, py⟩ := y
  obtain ⟨hk, he, hp⟩ := h
  dsimp only at hk he hp
  subst he
  cases hk with
  | closure hc =>
    refine ⟨.closure ?_, rfl, hp⟩
    unfold Closure.withName
    rw [hc.name]
    split
    · exact { hc with name := rfl }
    · exact hc
  | array ha => exact ⟨.array ha, rfl, hp⟩
  | ordinary => exact ⟨.ordinary, rfl, hp⟩
  | builtin b => exact ⟨.builtin b, rfl, hp⟩
  | error k => exact ⟨.error k, rfl, hp⟩

end Rel

/-! ### Functions stay functions -/

/-- A change neither makes nor unmakes functions. -/
def KeepsFunctions (f : Object → Object) : Prop := ∀ x, (f x).isFunction = x.isFunction

namespace KeepsFunctions

theorem writeElement (i : Nat) (v : Value) : KeepsFunctions fun x => (x.writeElement i v).2 := by
  rintro ⟨k, e, p⟩
  cases k with
  | array a =>
    simp only [Object.writeElement]
    split <;> rfl
  | _ => rfl

theorem add (p : Slot) : KeepsFunctions fun x => (x.add p).2 := by
  rintro ⟨k, e, ps⟩
  simp only [Object.add]
  split <;> rfl

/-- A property that is written is in an object of the same kind afterwards. -/
theorem write (k : PropertyKey) (v : Value) : KeepsFunctions fun x => (x.write k v).2 := by
  intro x
  simp only [Object.write]
  split
  · exact writeElement _ _ x
  · split
    · split <;> rfl
    · exact add _ x

theorem define (k : PropertyKey) (v : Value) : KeepsFunctions fun x => (x.define k v).2 := by
  intro x
  simp only [Object.define]
  split
  · exact writeElement _ _ x
  · split
    · rfl
    · split
      · split <;> rfl
      · exact add _ x

theorem deleteListed (k : PropertyKey) : KeepsFunctions fun x => (x.deleteListed k).2 := by
  intro x
  simp only [Object.deleteListed]
  split
  · rfl
  · split <;> rfl

theorem delete (k : PropertyKey) : KeepsFunctions fun x => (x.delete k).2 := by
  rintro ⟨kind, e, ps⟩
  cases kind with
  | array a =>
    simp only [Object.delete]
    split
    · split <;> rfl
    · split
      · rfl
      · exact deleteListed k _
  | _ => exact deleteListed k _

theorem setLength (n : Nat) : KeepsFunctions fun x => (x.setLength n).2 := by
  rintro ⟨k, e, p⟩
  cases k with
  | array a =>
    simp only [Object.setLength]
    split <;> rfl
  | _ => rfl

theorem freeze : KeepsFunctions Object.freeze := by
  rintro ⟨k, e, p⟩
  cases k <;> rfl

/-- The elements are no part of what makes a function. -/
theorem changeElements {α : Type} (f : Elements Value → α × Elements Value) (a : α) :
    KeepsFunctions fun x => (x.changeElements f a).2 := by
  rintro ⟨k, e, p⟩
  cases k <;> rfl

theorem withName (name : String) : KeepsFunctions (Object.withName · name) := by
  rintro ⟨k, e, p⟩
  cases k <;> rfl

end KeepsFunctions

end Object

end Scriptlet
