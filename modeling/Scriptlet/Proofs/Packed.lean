import Scriptlet.Proofs.Storage

/-!
# Arrays in words

In memory, the length of an array and the indices in its list are words of 32 bits, whose arithmetic
is modulo `2 ^ 32`.  As long as indices stay below the greatest length and lengths do not exceed it,
no result is reduced: an operation on words does what the operation on numbers does.

## Main definitions

* `Packed` — the elements of an array with its length and its indices in words, with the operations
  on them.
* `Packed.unpack` — the same elements with numbers instead of words.

## Main results

* `Packed.unpack_set`, `Packed.unpack_shift`, `Packed.unpack_unshift` and their like — **the
  operations on words do what those on numbers do**.
* `Packed.get?_unpack`, `Packed.presentFrom_unpack` — nor do words matter to those who read.
-/

namespace Scriptlet

/-- The elements of an array, with its length and the indices of the list in words. -/
structure Packed (α : Type) where
  /-- The places for small indices. -/
  dense : Array (Option α)
  /-- The elements at greater indices, ascending. -/
  sparse : List (UInt32 × α)
  /-- The length of the array. -/
  length : UInt32
  /-- Whether nothing may change. -/
  isFrozen : Bool

namespace Packed

variable {α : Type}

/-! ### Operations on words -/

/-- A list with numbers instead of words. -/
def widen (l : List (UInt32 × α)) : List (Nat × α) := l.map fun (k, v) => (k.toNat, v)

/-- The elements with numbers instead of words. -/
def unpack (p : Packed α) : Elements α := ⟨p.dense, widen p.sparse, p.length.toNat, p.isFrozen⟩

/-- The word for an index that is looked for; the greatest word if it is too great for one. -/
def wordFrom (start : Nat) : UInt32 := if start < 2 ^ 32 then .ofNat start else .ofNat (2 ^ 32 - 1)

/-- The element at an index. -/
def get? (p : Packed α) (i : Nat) : Option α :=
  if h : i < p.dense.size then p.dense[i]
  else if i < 2 ^ 32 then (p.sparse.find? (·.1 == .ofNat i)).map (·.2)
  else none

/-- The elements at and above an index with their indices, ascending. -/
def presentFrom (p : Packed α) (start : Nat) : List (Nat × α) :=
  Elements.densePresent start (p.dense.toList.drop start)
    ++ widen (p.sparse.filter (wordFrom start ≤ ·.1))

/-- The list with an element at an index. -/
def insert (i : UInt32) (v : α) : List (UInt32 × α) → List (UInt32 × α)
  | [] => [(i, v)]
  | (k, w) :: rest =>
    if i < k then (i, v) :: (k, w) :: rest
    else if i = k then (i, v) :: rest
    else (k, w) :: insert i v rest

/-- The elements with a block of at least the given size, which takes over those of the list that
belong to it. -/
def growDense (p : Packed α) (size : Nat) : Packed α :=
  { p with
    dense := Elements.settle (widen (p.sparse.takeWhile (·.1 < .ofNat size)))
      (Elements.pad p.dense (size - p.dense.size))
    sparse := p.sparse.dropWhile (·.1 < .ofNat size) }

/-- Places an element. -/
def place (p : Packed α) (i : UInt32) (v : α) : Packed α :=
  if i.toNat < p.dense.size then { p with dense := p.dense.setIfInBounds i.toNat (some v) }
  else if i.toNat - p.dense.size ≤ Elements.maxGap then
    let q := p.growDense (i.toNat + 1)
    { q with dense := q.dense.setIfInBounds i.toNat (some v) }
  else { p with sparse := insert i v p.sparse }

/-- The elements with one at an index, above which the length is. -/
def set (p : Packed α) (i : UInt32) (v : α) : Packed α :=
  { p.place i v with length := if p.length ≤ i then i + 1 else p.length }

/-- The elements with one more at the end. -/
def push (p : Packed α) (v : α) : Packed α := p.set p.length v

/-- The elements below the given length, which is the length then. -/
def setLength (p : Packed α) (n : UInt32) : Packed α :=
  ⟨Elements.cut p.dense n.toNat, p.sparse.filter (·.1 < n), n, p.isFrozen⟩

/-- The elements without the one at an index. -/
def remove (p : Packed α) (i : Nat) : Packed α :=
  if i < p.dense.size then { p with dense := p.dense.setIfInBounds i none }
  else if i < 2 ^ 32 then { p with sparse := p.sparse.filter (·.1 != .ofNat i) }
  else p

/-- The given elements at the given indices, below the given length. -/
def ofEntries (length : UInt32) (isFrozen : Bool) (entries : List (Nat × α)) : Packed α :=
  entries.foldl (fun p (i, v) => p.set (.ofNat i) v) ⟨#[], [], length, isFrozen⟩

/-- The elements in reverse order. -/
def reverse (p : Packed α) : Packed α :=
  if p.sparse.isEmpty && p.dense.size == p.length.toNat then { p with dense := p.dense.reverse }
  else
    ofEntries p.length p.isFrozen
      (Elements.moved (p.length.toNat - 1 - ·) (p.presentFrom 0).reverse)

/-- The element at the first index, and the others moved down by one. -/
def shift (p : Packed α) : Option α × Packed α :=
  if p.length = 0 then (none, p)
  else if p.sparse.isEmpty then
    (p.dense[0]?.join, { p with dense := p.dense.drop 1, length := p.length - 1 })
  else
    (p.get? 0, ofEntries (p.length - 1) p.isFrozen (Elements.moved (· - 1) (p.presentFrom 1)))

/-- The given elements in front of the others. -/
def unshift (p : Packed α) (values : List α) : Packed α :=
  if p.sparse.isEmpty then
    { p with
      dense := (values.map some).toArray ++ p.dense
      length := p.length + .ofNat values.length }
  else
    ofEntries (p.length + .ofNat values.length) p.isFrozen
      (Elements.front values ++ Elements.moved (· + values.length) (p.presentFrom 0))

/-! ### Words and numbers -/

theorem toNat_ofNat {n : Nat} (h : n ≤ maxArrayLength) : (UInt32.ofNat n).toNat = n :=
  UInt32.toNat_ofNat_of_lt' (Nat.lt_of_le_of_lt h (by decide))

/-- An index below the greatest length has a next one. -/
theorem toNat_add_one {i : UInt32} (h : i.toNat < maxArrayLength) : (i + 1).toNat = i.toNat + 1 := by
  have hmax : maxArrayLength = 2 ^ 32 - 1 := rfl
  rw [UInt32.toNat_add]
  show (i.toNat + 1) % 2 ^ 32 = i.toNat + 1
  omega

@[simp] theorem widen_isEmpty (l : List (UInt32 × α)) : (widen l).isEmpty = l.isEmpty := by
  simp [widen]

theorem widen_filter (q : UInt32 → Bool) (r : Nat → Bool) (l : List (UInt32 × α))
    (h : ∀ k, q k = r k.toNat) :
    widen (l.filter fun p => q p.1) = (widen l).filter fun p => r p.1 := by
  unfold widen
  rw [List.filter_map]
  congr 1
  refine List.filter_congr fun p _ => ?_
  exact h p.1

theorem find?_widen (i : UInt32) (l : List (UInt32 × α)) :
    Elements.find? i.toNat (widen l) = (l.find? (·.1 == i)).map (·.2) := by
  induction l with
  | nil => rfl
  | cons p l ih =>
    obtain ⟨k, w⟩ := p
    show (if k.toNat = i.toNat then some w else Elements.find? i.toNat (widen l)) = _
    rw [ih, List.find?_cons]
    by_cases hk : k = i
    · simp [hk]
    · have hne : k.toNat ≠ i.toNat := fun h => hk (UInt32.toNat_inj.mp h)
      rw [if_neg hne, beq_eq_false_iff_ne.mpr hk]

/-! ### Reading -/

variable {p : Packed α}

/-- Every word is below `2 ^ 32`, so nothing is found at a greater index. -/
theorem get?_unpack (p : Packed α) (i : Nat) : p.unpack.get? i = p.get? i := by
  unfold get? Elements.get?
  show (if h : i < p.dense.size then p.dense[i] else Elements.find? i (widen p.sparse)) = _
  split
  · rfl
  · split
    · next hi =>
      rw [← find?_widen, UInt32.toNat_ofNat_of_lt' hi]
    · next hi =>
      refine Elements.find?_eq_none fun q hq => ?_
      obtain ⟨⟨k, w⟩, -, rfl⟩ := List.mem_map.mp hq
      have := k.toNat_lt
      show k.toNat ≠ i
      omega

/-- **The greatest word is no index of an element, so it does for all starts that are too great.** -/
theorem presentFrom_unpack (hs : p.unpack.IsStored) (hl : p.unpack.length ≤ maxArrayLength)
    (start : Nat) : p.unpack.presentFrom start = p.presentFrom start := by
  unfold presentFrom Elements.presentFrom
  show _ ++ (widen p.sparse).filter (fun q => start ≤ q.1) = _
  congr 1
  unfold widen
  rw [List.filter_map]
  congr 1
  refine List.filter_congr fun q hq => ?_
  have hbelow : q.1.toNat < p.unpack.length := hs.below (q.1.toNat, q.2) (List.mem_map.mpr ⟨q, hq, rfl⟩)
  have hmax : maxArrayLength = 2 ^ 32 - 1 := rfl
  show decide (start ≤ q.1.toNat) = decide (wordFrom start ≤ q.1)
  rw [decide_eq_decide, UInt32.le_iff_toNat_le]
  unfold wordFrom
  split
  · next hstart => rw [UInt32.toNat_ofNat_of_lt' hstart]
  · rw [toNat_ofNat (Nat.le_of_eq hmax.symm)]
    omega

/-! ### Single elements -/

theorem widen_insert (i : UInt32) (v : α) (l : List (UInt32 × α)) :
    widen (insert i v l) = Elements.insert i.toNat v (widen l) := by
  induction l with
  | nil => rfl
  | cons p l ih =>
    obtain ⟨k, w⟩ := p
    show _ = if i.toNat < k.toNat then (i.toNat, v) :: (k.toNat, w) :: widen l
      else if i.toNat = k.toNat then (i.toNat, v) :: widen l
      else (k.toNat, w) :: Elements.insert i.toNat v (widen l)
    unfold insert
    simp only [← ih, ← UInt32.lt_iff_toNat_lt, UInt32.toNat_inj]
    split
    · rfl
    · split <;> rfl

theorem unpack_growDense {n : Nat} (hn : n ≤ maxArrayLength) (p : Packed α) :
    (p.growDense n).unpack = p.unpack.growDense n := by
  have hword : ∀ k : UInt32, decide (k < .ofNat n) = decide (k.toNat < n) := by
    intro k
    rw [decide_eq_decide, UInt32.lt_iff_toNat_lt, toNat_ofNat hn]
  unfold unpack growDense Elements.growDense
  simp only [widen, List.takeWhile_map, List.dropWhile_map, Function.comp_def, hword]
  rfl

theorem unpack_place {i : UInt32} (hi : i.toNat < maxArrayLength) (p : Packed α) (v : α) :
    (p.place i v).unpack = p.unpack.place i.toNat v := by
  unfold place Elements.place
  show _ = if i.toNat < p.dense.size then _ else if i.toNat - p.dense.size ≤ _ then _ else _
  rw [← unpack_growDense hi]
  split
  · rfl
  · split
    · rfl
    · show Elements.mk _ (widen (insert i v p.sparse)) _ _ = _
      rw [widen_insert]
      rfl

theorem length_place (p : Packed α) (i : UInt32) (v : α) : (p.place i v).length = p.length := by
  unfold place
  split
  · rfl
  · split <;> rfl

/-- **The word for the length above an index is not reduced.** -/
theorem unpack_set {i : UInt32} (hi : i.toNat < maxArrayLength) (p : Packed α) (v : α) :
    (p.set i v).unpack = p.unpack.set i.toNat v := by
  have hlength : (p.place i v).unpack.length = p.length.toNat := by
    show (p.place i v).length.toNat = _
    rw [length_place]
  rw [Elements.set_eq, ← unpack_place hi, hlength]
  show Elements.mk _ _ (if p.length ≤ i then i + 1 else p.length).toNat _
    = Elements.mk _ _ (max p.length.toNat (i.toNat + 1)) _
  congr 1
  split
  · next hle =>
    have := UInt32.le_iff_toNat_le.mp hle
    rw [toNat_add_one hi]
    omega
  · next hle =>
    have := mt UInt32.le_iff_toNat_le.mpr hle
    omega

theorem unpack_push (hl : p.unpack.length < maxArrayLength) (v : α) :
    (p.push v).unpack = p.unpack.push v := unpack_set hl p v

theorem unpack_setLength (p : Packed α) (n : UInt32) :
    (p.setLength n).unpack = p.unpack.setLength n.toNat := by
  have hword : ∀ k : UInt32, decide (k < n) = decide (k.toNat < n.toNat) := by
    intro k
    rw [decide_eq_decide, UInt32.lt_iff_toNat_lt]
  rw [Elements.setLength_eq]
  show Elements.mk _ (widen (p.sparse.filter fun q => decide (q.1 < n))) _ _ = _
  rw [widen_filter (fun k => decide (k < n)) (fun k => decide (k < n.toNat)) p.sparse hword]
  rfl

/-- No element of the list has an index that is too great for a word. -/
theorem unpack_remove (p : Packed α) (i : Nat) : (p.remove i).unpack = p.unpack.remove i := by
  rw [Elements.remove_eq]
  show _ = if i < p.dense.size then _ else _
  unfold remove
  split
  · rfl
  · split
    · next hi =>
      have hword : ∀ k : UInt32, (k != .ofNat i) = (k.toNat != i) := by
        intro k
        rw [bne, bne, Bool.not_eq_eq_eq_not, Bool.not_not, Bool.beq_eq_decide_eq,
          Bool.beq_eq_decide_eq, decide_eq_decide, ← UInt32.toNat_inj,
          UInt32.toNat_ofNat_of_lt' hi]
      show Elements.mk _ (widen (p.sparse.filter fun q => q.1 != .ofNat i)) _ _ = _
      rw [widen_filter (fun k => k != .ofNat i) (fun k => k != i) p.sparse hword]
      rfl
    · next hi =>
      have hall : (widen p.sparse).filter (fun q => q.1 != i) = widen p.sparse := by
        refine List.filter_eq_self.mpr fun q hq => ?_
        obtain ⟨⟨k, w⟩, -, rfl⟩ := List.mem_map.mp hq
        have := k.toNat_lt
        show (k.toNat != i) = true
        rw [bne_iff_ne]
        omega
      show Elements.mk p.dense (widen p.sparse) _ _
        = Elements.mk p.dense ((widen p.sparse).filter fun q => q.1 != i) _ _
      rw [hall]
      rfl

/-! ### Moving all elements -/

theorem unpack_foldl_set {entries : List (Nat × α)} (h : ∀ q ∈ entries, q.1 < maxArrayLength)
    (p : Packed α) :
    (entries.foldl (fun p (i, v) => p.set (.ofNat i) v) p).unpack
      = entries.foldl (fun e (i, v) => e.set i v) p.unpack := by
  induction entries generalizing p with
  | nil => rfl
  | cons q l ih =>
    obtain ⟨i, v⟩ := q
    have hi : i < maxArrayLength := h (i, v) List.mem_cons_self
    have hword : (UInt32.ofNat i).toNat = i := toNat_ofNat (Nat.le_of_lt hi)
    rw [List.foldl_cons, List.foldl_cons, ih fun q hq => h q (List.mem_cons_of_mem _ hq),
      unpack_set (by rw [hword]; exact hi), hword]

theorem unpack_ofEntries {entries : List (Nat × α)} (h : ∀ q ∈ entries, q.1 < maxArrayLength)
    (n : UInt32) (isFrozen : Bool) :
    (ofEntries n isFrozen entries).unpack = Elements.ofEntries n.toNat isFrozen entries :=
  unpack_foldl_set h _

section Stored

variable (hs : p.unpack.IsStored) (hl : p.unpack.length ≤ maxArrayLength)
include hs hl

theorem lt_of_mem_presentFrom {n : Nat} {q : Nat × α} (hq : q ∈ p.unpack.presentFrom n) :
    q.1 < maxArrayLength :=
  Nat.lt_of_lt_of_le (hs.lt_of_get? (hs.mem_presentFrom.mp hq).2) hl

theorem unpack_reverse : p.reverse.unpack = p.unpack.reverse := by
  rw [Elements.reverse_eq]
  unfold reverse
  show _ = if (widen p.sparse).isEmpty && p.dense.size == p.length.toNat then _ else _
  rw [widen_isEmpty]
  split
  · rfl
  · rw [unpack_ofEntries, ← presentFrom_unpack hs hl]
    · rfl
    · rintro ⟨i, v⟩ hq
      rw [← presentFrom_unpack hs hl] at hq
      obtain ⟨j, hj, rfl⟩ := Elements.mem_moved.mp hq
      have : j < p.unpack.length :=
        hs.lt_of_get? (hs.mem_presentFrom.mp (List.mem_reverse.mp hj)).2
      show p.unpack.length - 1 - j < maxArrayLength
      omega

/-- **The word for the length is reduced by one only if it is not zero.** -/
theorem unpack_shift : (p.shift.1, p.shift.2.unpack) = p.unpack.shift := by
  rw [Elements.shift_eq]
  unfold shift
  show _ = if p.length.toNat = 0 then _ else if (widen p.sparse).isEmpty then _ else _
  rw [widen_isEmpty]
  have hzero : p.length = 0 ↔ p.length.toNat = 0 := by
    rw [← UInt32.toNat_inj]
    rfl
  by_cases h0 : p.length.toNat = 0
  · rw [if_pos h0, if_pos (hzero.mpr h0)]
  · have hpred : (p.length - 1).toNat = p.length.toNat - 1 := by
      refine UInt32.toNat_sub_of_le _ _ (UInt32.le_iff_toNat_le.mpr ?_)
      show 1 ≤ p.length.toNat
      omega
    rw [if_neg h0, if_neg (mt hzero.mp h0)]
    split
    · show (_, Elements.mk _ _ (p.length - 1).toNat _) = _
      rw [hpred]
      rfl
    · rw [unpack_ofEntries, hpred, get?_unpack, ← presentFrom_unpack hs hl]
      · rfl
      · rintro ⟨i, v⟩ hq
        rw [← presentFrom_unpack hs hl] at hq
        obtain ⟨j, hj, rfl⟩ := Elements.mem_moved.mp hq
        have : j < maxArrayLength := lt_of_mem_presentFrom hs hl hj
        show j - 1 < maxArrayLength
        omega

/-- **The sum of the lengths is not reduced if it is a length.** -/
theorem unpack_unshift {values : List α}
    (hsum : p.unpack.length + values.length ≤ maxArrayLength) :
    (p.unshift values).unpack = p.unpack.unshift values := by
  have hcount : (UInt32.ofNat values.length).toNat = values.length := toNat_ofNat (by omega)
  -- The caller's bound keeps the sum of the lengths inside the machine word.
  have hlength : (p.length + UInt32.ofNat values.length).toNat = p.length.toNat + values.length := by
    have hmax : maxArrayLength = 2 ^ 32 - 1 := rfl
    have hsum' : p.length.toNat + values.length ≤ maxArrayLength := hsum
    rw [UInt32.toNat_add, hcount]
    exact Nat.mod_eq_of_lt (by omega)
  rw [Elements.unshift_eq]
  unfold unshift
  show _ = if (widen p.sparse).isEmpty then _ else _
  rw [widen_isEmpty]
  split
  · show Elements.mk _ _ (p.length + UInt32.ofNat values.length).toNat _ = _
    rw [hlength]
    rfl
  · rw [unpack_ofEntries, hlength, ← presentFrom_unpack hs hl]
    · rfl
    · rintro ⟨i, v⟩ hq
      show i < maxArrayLength
      rcases List.mem_append.mp hq with hq | hq
      · have := (List.getElem?_eq_some_iff.mp (Elements.mem_front.mp hq)).1
        omega
      · rw [← presentFrom_unpack hs hl] at hq
        obtain ⟨j, hj, rfl⟩ := Elements.mem_moved.mp hq
        have : j < p.unpack.length := hs.lt_of_get? (hs.mem_presentFrom.mp hj).2
        show j + values.length < maxArrayLength
        omega

end Stored

end Packed

end Scriptlet
