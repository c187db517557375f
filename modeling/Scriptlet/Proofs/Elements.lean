import Scriptlet.Builtin.Arrays
import Scriptlet.Proofs.Lists

/-!
# Elements do not depend on what they are

What moves the elements of an array about does not look at them: it commutes with every change of
the elements in their places.  Two arrays whose elements are related place by place therefore stay
so, whatever the relation is.

## Main definitions

* `Elements.map` — the elements changed by a function, each in its place.
* `Elements.Rel` — two arrays with related elements in the same places.

## Main results

* `Elements.set_map`, `Elements.remove_map`, `Elements.reverse_map` and their like — every operation
  commutes with `Elements.map`.
* `Elements.Rel.set`, `Elements.Rel.remove`, `Elements.Rel.reverse` and their like — **every
  operation respects every relation**.
-/

namespace Scriptlet

namespace Elements

section Map

variable {α β : Type} (f : α → β)

/-- The elements changed by a function, each in its place. -/
def map (e : Elements α) : Elements β :=
  ⟨e.dense.map (Option.map f), e.sparse.map (Prod.map id f), e.length, e.isFrozen⟩

/-! ### Every operation commutes with a change in place -/

@[simp] theorem length_map (e : Elements α) : (e.map f).length = e.length := rfl

@[simp] theorem isFrozen_map (e : Elements α) : (e.map f).isFrozen = e.isFrozen := rfl

@[simp] theorem size_map (e : Elements α) : (e.map f).dense.size = e.dense.size := by
  simp [map]

theorem ofPlaces_map (places : Array (Option α)) :
    (ofPlaces places).map f = ofPlaces (places.map (Option.map f)) := by
  simp [ofPlaces, map]

theorem ofList_map (l : List α) : (ofList l).map f = ofList (l.map f) := by
  simp [ofList, ofPlaces_map, Function.comp_def]

theorem ofLength_map (n : Nat) : (ofLength n).map f = ofLength n := by
  simp [ofLength, map]

/-- Looking up an index in a list does not look at the elements. -/
theorem find?_map (i : Nat) (l : List (Nat × α)) :
    find? i (l.map (Prod.map id f)) = (find? i l).map f := by
  induction l with
  | nil => rfl
  | cons p l ih =>
    obtain ⟨k, v⟩ := p
    simp only [List.map_cons, Prod.map_apply, id_eq, find?]
    split
    · rfl
    · exact ih

/-- So does looking up an index anywhere. -/
theorem get?_map (e : Elements α) (i : Nat) : (e.map f).get? i = (e.get? i).map f := by
  unfold get?
  simp only [size_map]
  split
  · simp [map]
  · exact find?_map f i e.sparse

theorem has_map (e : Elements α) (i : Nat) : (e.map f).has i = e.has i := by
  simp [has, get?_map]

/-- Where an element is put depends on its index only. -/
theorem insert_map (i : Nat) (v : α) (l : List (Nat × α)) :
    (insert i v l).map (Prod.map id f) = insert i (f v) (l.map (Prod.map id f)) := by
  induction l with
  | nil => rfl
  | cons p l ih =>
    obtain ⟨k, w⟩ := p
    simp only [List.map_cons, Prod.map_apply, id_eq, insert]
    split
    · rfl
    · split
      · rfl
      · simp [ih]

/-- Padding adds missing elements, which a function does not change. -/
theorem pad_map (dense : Array (Option α)) (n : Nat) :
    (pad dense n).map (Option.map f) = pad (dense.map (Option.map f)) n := by
  induction n generalizing dense with
  | zero => rfl
  | succ n ih => simp [pad, ih]

/-- Entries put into a block one after the other. -/
theorem foldl_setIfInBounds_map (l : List (Nat × α)) (dense : Array (Option α)) :
    (l.foldl (fun d (i, v) => d.setIfInBounds i (some v)) dense).map (Option.map f)
      = (l.map (Prod.map id f)).foldl (fun d (i, v) => d.setIfInBounds i (some v))
          (dense.map (Option.map f)) := by
  induction l generalizing dense with
  | nil => rfl
  | cons p l ih => simp [ih]

/-- The block takes over the elements of the list whose indices it reaches. -/
theorem growDense_map (e : Elements α) (n : Nat) :
    (e.growDense n).map f = (e.map f).growDense n := by
  simp only [growDense, map, foldl_setIfInBounds_map, pad_map, List.takeWhile_map,
    List.dropWhile_map, Array.size_map]
  rfl

/-- Where an element is placed depends on its index and the size of the block. -/
theorem place_map (e : Elements α) (i : Nat) (v : α) :
    (e.place i v).map f = (e.map f).place i (f v) := by
  unfold place
  simp only [size_map, ← growDense_map]
  split
  · simp [map]
  · split
    · simp [map]
    · simp [map, insert_map]

theorem set_map (e : Elements α) (i : Nat) (v : α) :
    (e.set i v).map f = (e.map f).set i (f v) := by
  unfold set
  rw [← place_map]
  simp [map]

theorem push_map (e : Elements α) (v : α) : (e.push v).map f = (e.map f).push (f v) :=
  set_map f e e.length v

/-- What is cut off depends on the indices. -/
theorem setLength_map (e : Elements α) (n : Nat) :
    (e.setLength n).map f = (e.map f).setLength n := by
  simp only [setLength, map, Array.size_map, List.filter_map]
  split
  · simp [Array.take, Function.comp_def]
  · simp [Function.comp_def]

theorem remove_map (e : Elements α) (i : Nat) : (e.remove i).map f = (e.map f).remove i := by
  simp only [remove, map, Array.size_map, List.filter_map]
  split
  · simp
  · simp [Function.comp_def]

/-- The elements that are there keep their indices. -/
theorem densePresent_map (i : Nat) (l : List (Option α)) :
    densePresent i (l.map (Option.map f)) = (densePresent i l).map (Prod.map id f) := by
  induction l generalizing i with
  | nil => rfl
  | cons o l ih => cases o <;> simp [densePresent, ih]

theorem presentFrom_map (e : Elements α) (n : Nat) :
    (e.map f).presentFrom n = (e.presentFrom n).map (Prod.map id f) := by
  simp [presentFrom, map, ← List.map_drop, densePresent_map, List.filter_map, Function.comp_def]

theorem present_map (e : Elements α) : (e.map f).present = e.present.map (Prod.map id f) :=
  presentFrom_map f e 0

/-- The next element that is there is at the same index. -/
theorem nextDense?_map (dense : Array (Option α)) (i n : Nat) :
    nextDense? (dense.map (Option.map f)) i n = (nextDense? dense i n).map (Prod.map id f) := by
  induction n generalizing i with
  | zero => rfl
  | succ n ih =>
    simp only [nextDense?, Array.getElem?_map]
    rcases dense[i]? with _ | _ | v <;> simp [ih]

theorem nextPresent?_map (e : Elements α) (n : Nat) :
    (e.map f).nextPresent? n = (e.nextPresent? n).map (Prod.map id f) := by
  unfold nextPresent?
  simp only [map, nextDense?_map, Array.size_map, List.find?_map]
  cases nextDense? e.dense n (e.dense.size - n) <;> rfl

theorem hasHolesFrom_map (e : Elements α) (n : Nat) :
    (e.map f).hasHolesFrom n = e.hasHolesFrom n := by
  simp [hasHolesFrom, presentFrom_map]

/-- Entries set one after the other. -/
theorem foldl_set_map (g : Nat → Nat) (l : List (Nat × α)) (e : Elements α) :
    (l.foldl (fun e (i, v) => e.set (g i) v) e).map f
      = (l.map (Prod.map id f)).foldl (fun e (i, v) => e.set (g i) v) (e.map f) := by
  induction l generalizing e with
  | nil => rfl
  | cons p l ih => simp [ih, set_map]

/-- Elements that are set one after the other, at their indices. -/
theorem ofEntries_map (n : Nat) (isFrozen : Bool) (l : List (Nat × α)) :
    (ofEntries n isFrozen l).map f = ofEntries n isFrozen (l.map (Prod.map id f)) := by
  unfold ofEntries
  rw [foldl_set_map f fun i => i]
  simp [map]

/-- A change of the indices and one of the elements commute. -/
theorem map_index_map (g : Nat → Nat) (l : List (Nat × α)) :
    (l.map fun (i, v) => (g i, v)).map (Prod.map id f)
      = (l.map (Prod.map id f)).map fun (i, v) => (g i, v) := by
  simp [Function.comp_def]

/-- Whether there is a list decides how elements are reversed, not what they are. -/
theorem reverse_map (e : Elements α) : e.reverse.map f = (e.map f).reverse := by
  unfold reverse
  simp only [size_map, length_map, isFrozen_map, present_map]
  have h : (e.map f).sparse.isEmpty = e.sparse.isEmpty := by simp [map]
  rw [h]
  split
  · simp [map]
  · rw [ofEntries_map, map_index_map f (fun i => e.length - 1 - i), List.map_reverse]

/-- Likewise for taking the first element out. -/
theorem shift_map (e : Elements α) :
    (e.map f).shift = (e.shift.1.map f, e.shift.2.map f) := by
  unfold shift
  simp only [length_map, isFrozen_map, presentFrom_map, get?_map]
  have h : (e.map f).sparse.isEmpty = e.sparse.isEmpty := by simp [map]
  rw [h]
  split
  · rfl
  · split
    · rcases hd : e.dense[0]? with _ | _ | v <;> simp [map, hd]
    · rw [ofEntries_map, map_index_map f (fun i => i - 1)]

/-- Likewise for putting elements in front. -/
theorem unshift_map (e : Elements α) (vs : List α) :
    (e.unshift vs).map f = (e.map f).unshift (vs.map f) := by
  unfold unshift
  simp only [length_map, isFrozen_map, present_map, List.length_map]
  have h : (e.map f).sparse.isEmpty = e.sparse.isEmpty := by simp [map]
  rw [h]
  split
  · simp [map, Function.comp_def]
  · rw [ofEntries_map, List.map_append, map_index_map f (fun i => i + vs.length),
      List.zipIdx_map]
    simp [Function.comp_def]

theorem append_map (e e' : Elements α) : (e.append e').map f = (e.map f).append (e'.map f) := by
  unfold append
  simp only [setLength_map, foldl_set_map f (fun k => e.length + k), present_map, length_map]

/-- A slice is cut out by indices. -/
theorem slice_map (e : Elements α) (m n : Nat) : (e.slice m n).map f = (e.map f).slice m n := by
  unfold slice
  rw [ofEntries_map, map_index_map f (fun i => i - m), presentFrom_map, List.takeWhile_map]
  rfl

theorem pop_map (e : Elements α) : (e.map f).pop = (e.pop.1.map f, e.pop.2.map f) := by
  unfold pop
  simp only [length_map, get?_map, ← remove_map, ← setLength_map]
  split <;> rfl

theorem pushAll_map (e : Elements α) (vs : List α) :
    (e.pushAll vs).map f = (e.map f).pushAll (vs.map f) := by
  unfold pushAll
  induction vs generalizing e with
  | nil => rfl
  | cons v vs ih => simp [ih, push_map]

end Map

/-! ### Every operation respects every relation

Arrays with related elements come from an array of pairs, on which an operation may as well be
performed before the two sides are taken apart. -/

section Relation

variable {α β : Type} {R : α → β → Prop} {e : Elements α} {e' : Elements β}

/-- Two arrays with related elements in the same places. -/
def Rel (R : α → β → Prop) (e : Elements α) (e' : Elements β) : Prop :=
  ∃ z : Elements (Pair R), z.map Pair.left = e ∧ z.map Pair.right = e'

namespace Rel

/-- A relation that holds of more holds of more arrays. -/
theorem imp {S : α → β → Prop} (hRS : ∀ a b, R a b → S a b) (h : Rel R e e') : Rel S e e' := by
  obtain ⟨z, rfl, rfl⟩ := h
  refine ⟨z.map fun p => ⟨p.1, hRS _ _ p.2⟩, ?_, ?_⟩ <;>
    simp only [Elements.map, Array.map_map, List.map_map, Option.map_comp_map] <;> rfl

/-- The places are as many. -/
theorem length_eq (h : Rel R e e') : e.length = e'.length := by
  obtain ⟨z, rfl, rfl⟩ := h
  rfl

theorem isFrozen_eq (h : Rel R e e') : e.isFrozen = e'.isFrozen := by
  obtain ⟨z, rfl, rfl⟩ := h
  rfl

/-- An array of places whose contents are related place by place. -/
theorem ofPlaces {l : List (Option α)} {l' : List (Option β)}
    (h : List.Forall₂ (Option.Rel R) l l') :
    Rel R (.ofPlaces l.toArray) (.ofPlaces l'.toArray) := by
  obtain ⟨z, rfl, rfl⟩ : ∃ z : List (Option (Pair R)),
      z.map (Option.map Pair.left) = l ∧ z.map (Option.map Pair.right) = l' := by
    induction h with
    | nil => exact ⟨[], rfl, rfl⟩
    | cons ho _ ih =>
      obtain ⟨o, rfl, rfl⟩ := Option.exists_pair ho
      obtain ⟨z, rfl, rfl⟩ := ih
      exact ⟨o :: z, rfl, rfl⟩
  exact ⟨.ofPlaces z.toArray, by simp [ofPlaces_map], by simp [ofPlaces_map]⟩

/-- An array without missing elements. -/
theorem ofList {l : List α} {l' : List β} (h : List.Forall₂ R l l') :
    Rel R (.ofList l) (.ofList l') := by
  obtain ⟨z, rfl, rfl⟩ := List.exists_pairs h
  exact ⟨.ofList z, ofList_map .., ofList_map ..⟩

theorem ofLength (n : Nat) : Rel R (.ofLength n) (.ofLength n) :=
  ⟨.ofLength n, ofLength_map .., ofLength_map ..⟩

/-- An element is there on both sides or on neither. -/
theorem get? (h : Rel R e e') (i : Nat) : Option.Rel R (e.get? i) (e'.get? i) := by
  obtain ⟨z, rfl, rfl⟩ := h
  rw [get?_map, get?_map]
  exact Option.rel_of_pair _

theorem has_eq (h : Rel R e e') (i : Nat) : e.has i = e'.has i := by
  obtain ⟨z, rfl, rfl⟩ := h
  rw [has_map, has_map]

/-- An element is set on the pairs, and then the sides are taken. -/
theorem set (h : Rel R e e') (i : Nat) {v : α} {w : β} (hv : R v w) :
    Rel R (e.set i v) (e'.set i w) := by
  obtain ⟨z, rfl, rfl⟩ := h
  exact ⟨z.set i ⟨(v, w), hv⟩, set_map .., set_map ..⟩

theorem push (h : Rel R e e') {v : α} {w : β} (hv : R v w) : Rel R (e.push v) (e'.push w) := by
  rw [Elements.push, Elements.push, h.length_eq]
  exact h.set _ hv

theorem setLength (h : Rel R e e') (n : Nat) : Rel R (e.setLength n) (e'.setLength n) := by
  obtain ⟨z, rfl, rfl⟩ := h
  exact ⟨z.setLength n, setLength_map .., setLength_map ..⟩

theorem remove (h : Rel R e e') (i : Nat) : Rel R (e.remove i) (e'.remove i) := by
  obtain ⟨z, rfl, rfl⟩ := h
  exact ⟨z.remove i, remove_map .., remove_map ..⟩

/-- The elements that are there have the same indices. -/
theorem presentFrom (h : Rel R e e') (n : Nat) :
    List.Forall₂ (fun p q => p.1 = q.1 ∧ R p.2 q.2) (e.presentFrom n) (e'.presentFrom n) := by
  obtain ⟨z, rfl, rfl⟩ := h
  rw [presentFrom_map, presentFrom_map]
  induction z.presentFrom n with
  | nil => exact .nil
  | cons p l ih => exact .cons ⟨rfl, p.2.rel⟩ ih

theorem present (h : Rel R e e') :
    List.Forall₂ (fun p q => p.1 = q.1 ∧ R p.2 q.2) e.present e'.present :=
  h.presentFrom 0

/-- The next element that is there has the same index. -/
theorem nextPresent? (h : Rel R e e') (n : Nat) :
    Option.Rel (fun p q => p.1 = q.1 ∧ R p.2 q.2) (e.nextPresent? n) (e'.nextPresent? n) := by
  obtain ⟨z, rfl, rfl⟩ := h
  rw [nextPresent?_map, nextPresent?_map]
  cases z.nextPresent? n with
  | none => exact .none
  | some p => exact .some ⟨rfl, p.2.rel⟩

theorem hasHolesFrom_eq (h : Rel R e e') (n : Nat) : e.hasHolesFrom n = e'.hasHolesFrom n := by
  obtain ⟨z, rfl, rfl⟩ := h
  rw [hasHolesFrom_map, hasHolesFrom_map]

theorem reverse (h : Rel R e e') : Rel R e.reverse e'.reverse := by
  obtain ⟨z, rfl, rfl⟩ := h
  exact ⟨z.reverse, reverse_map .., reverse_map ..⟩

/-- Both the element that is taken out and those that are left are related. -/
theorem shift (h : Rel R e e') :
    Option.Rel R e.shift.1 e'.shift.1 ∧ Rel R e.shift.2 e'.shift.2 := by
  obtain ⟨z, rfl, rfl⟩ := h
  rw [shift_map, shift_map]
  exact ⟨Option.rel_of_pair _, z.shift.2, rfl, rfl⟩

theorem unshift (h : Rel R e e') {vs : List α} {ws : List β} (hv : List.Forall₂ R vs ws) :
    Rel R (e.unshift vs) (e'.unshift ws) := by
  obtain ⟨z, rfl, rfl⟩ := h
  obtain ⟨us, rfl, rfl⟩ := List.exists_pairs hv
  exact ⟨z.unshift us, unshift_map .., unshift_map ..⟩

/-- Two arrays of pairs are put together. -/
theorem append {d : Elements α} {d' : Elements β} (h : Rel R e e') (hd : Rel R d d') :
    Rel R (e.append d) (e'.append d') := by
  obtain ⟨z, rfl, rfl⟩ := h
  obtain ⟨y, rfl, rfl⟩ := hd
  exact ⟨z.append y, append_map .., append_map ..⟩

theorem slice (h : Rel R e e') (m n : Nat) : Rel R (e.slice m n) (e'.slice m n) := by
  obtain ⟨z, rfl, rfl⟩ := h
  exact ⟨z.slice m n, slice_map .., slice_map ..⟩

/-- Likewise at the other end. -/
theorem pop (h : Rel R e e') : Option.Rel R e.pop.1 e'.pop.1 ∧ Rel R e.pop.2 e'.pop.2 := by
  obtain ⟨z, rfl, rfl⟩ := h
  rw [pop_map, pop_map]
  exact ⟨Option.rel_of_pair _, z.pop.2, rfl, rfl⟩

theorem pushAll (h : Rel R e e') {vs : List α} {ws : List β} (hv : List.Forall₂ R vs ws) :
    Rel R (e.pushAll vs) (e'.pushAll ws) := by
  obtain ⟨z, rfl, rfl⟩ := h
  obtain ⟨us, rfl, rfl⟩ := List.exists_pairs hv
  exact ⟨z.pushAll us, pushAll_map .., pushAll_map ..⟩

theorem thawed (h : Rel R e e') : Rel R e.thawed e'.thawed := by
  obtain ⟨z, rfl, rfl⟩ := h
  exact ⟨z.thawed, rfl, rfl⟩

theorem frozen (h : Rel R e e') :
    Rel R { e with isFrozen := true } { e' with isFrozen := true } := by
  obtain ⟨z, rfl, rfl⟩ := h
  exact ⟨{ z with isFrozen := true }, rfl, rfl⟩

end Rel

end Relation

end Elements

end Scriptlet
