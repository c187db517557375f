import Mathlib.Data.List.Nodup
import Mathlib.Data.List.TakeWhile
import Scriptlet.Value.Elements

/-!
# The two storages of an array

An array keeps the elements at small indices in a block and the others in a list.  To those who use
it, it is a row: a length, and at every index an element or none.  What the operations do to the row
does not depend on where the elements are kept, as long as the two storages are in order: the list
ascends, its indices are behind the block and below the length, and the block is not longer than the
array.

## Main definitions

* `Row` — arrays as those who use them know them, with the operations on them.
* `Elements.row` — the row that an array stands for.
* `Elements.IsStored` — the two storages are in order.

## Main results

* `Elements.IsStored.set`, `Elements.IsStored.reverse` and their like — **every operation keeps the
  storages in order**.
* `Elements.row_set`, `Elements.row_reverse` and their like — **every operation does to the row what
  it is there for**.
* `Elements.IsStored.mem_presentFrom`, `Elements.IsStored.ascending_presentFrom`,
  `Elements.IsStored.nextPresent?_eq_some_iff`, `Elements.IsStored.hasHolesFrom_iff` — what is read
  from the storages is what the row says.
-/

namespace Scriptlet

/-! ### Rows -/

/-- An array as those who use it know it: a length, and at every index an element or none. -/
@[ext]
structure Row (α : Type) where
  /-- The length. -/
  length : Nat
  /-- The element at an index. -/
  get? : Nat → Option α

namespace Row

variable {α : Type}

/-- The given places, one behind the other. -/
def ofPlaces (places : Array (Option α)) : Row α := ⟨places.size, fun i => places[i]?.join⟩

/-- Only empty places. -/
def ofLength (n : Nat) : Row α := ⟨n, fun _ => none⟩

/-- The row with an element at an index, above which the length is. -/
def set (r : Row α) (i : Nat) (v : α) : Row α :=
  ⟨max r.length (i + 1), fun j => if j = i then some v else r.get? j⟩

/-- Elements at the given indices, put into a row one after the other. -/
def ofEntries (n : Nat) (entries : List (Nat × α)) : Row α :=
  entries.foldl (fun r (i, v) => r.set i v) (ofLength n)

/-- The row with one more element at the end. -/
def push (r : Row α) (v : α) : Row α := r.set r.length v

/-- The elements below the given length, which is the length then. -/
def setLength (r : Row α) (n : Nat) : Row α := ⟨n, fun i => if i < n then r.get? i else none⟩

/-- The row without the element at an index. -/
def remove (r : Row α) (i : Nat) : Row α := ⟨r.length, fun j => if j = i then none else r.get? j⟩

/-- The elements in reverse order. -/
def reverse (r : Row α) : Row α :=
  ⟨r.length, fun i => if i < r.length then r.get? (r.length - 1 - i) else none⟩

/-- The elements moved down by one, without the first one. -/
def shift (r : Row α) : Row α := ⟨r.length - 1, fun i => r.get? (i + 1)⟩

/-- The given elements in front of the others. -/
def unshift (r : Row α) (values : List α) : Row α :=
  ⟨r.length + values.length,
    fun i => if i < values.length then values[i]? else r.get? (i - values.length)⟩

end Row

namespace Elements

variable {α : Type}

/-- The row that an array stands for. -/
def row (e : Elements α) : Row α := ⟨e.length, e.get?⟩

/-- The two storages of an array are in order. -/
structure IsStored (e : Elements α) : Prop where
  ascending : e.sparse.Pairwise (·.1 < ·.1)
  behind : ∀ p ∈ e.sparse, e.dense.size ≤ p.1
  below : ∀ p ∈ e.sparse, p.1 < e.length
  size_le : e.dense.size ≤ e.length

/-! ### The list -/

/-- In a list without repeated indices, what is found at an index is what is there. -/
theorem find?_eq_some_iff {l : List (Nat × α)} (h : (l.map Prod.fst).Nodup) {i : Nat} {v : α} :
    find? i l = some v ↔ (i, v) ∈ l := by
  induction l with
  | nil => simp [find?]
  | cons p l ih =>
    obtain ⟨k, w⟩ := p
    rw [List.map_cons, List.nodup_cons] at h
    unfold find?
    split
    · next hk =>
      subst hk
      have hfresh : (k, v) ∉ l := fun hm => h.1 (List.mem_map.mpr ⟨(k, v), hm, rfl⟩)
      simp [hfresh, eq_comm]
    · next hk => simp [ih h.2, Ne.symm hk]

theorem find?_eq_none {l : List (Nat × α)} {i : Nat} (h : ∀ p ∈ l, p.1 ≠ i) : find? i l = none := by
  induction l with
  | nil => rfl
  | cons p l ih =>
    obtain ⟨k, w⟩ := p
    have hk : k ≠ i := h (k, w) List.mem_cons_self
    rw [find?, if_neg hk]
    exact ih fun q hq => h q (List.mem_cons_of_mem _ hq)

/-- The indices of an ascending list are not repeated. -/
theorem nodup_of_ascending {l : List (Nat × α)} (h : l.Pairwise (·.1 < ·.1)) :
    (l.map Prod.fst).Nodup :=
  List.pairwise_map.mpr (h.imp fun hlt => Nat.ne_of_lt hlt)

theorem find?_insert (i j : Nat) (v : α) (l : List (Nat × α)) :
    find? j (insert i v l) = if j = i then some v else find? j l := by
  induction l with
  | nil => simp [insert, find?, eq_comm]
  | cons p l ih =>
    obtain ⟨k, w⟩ := p
    unfold insert
    split
    · simp [find?, eq_comm]
    · split
      · next hk =>
        subst hk
        by_cases hj : j = i
        · simp [find?, hj]
        · simp [find?, hj, Ne.symm hj]
      · next hk =>
        by_cases hj : k = j
        · subst hj
          simp [find?, Ne.symm hk]
        · simp [find?, hj, ih]

theorem mem_insert {i : Nat} {v : α} {l : List (Nat × α)} {p : Nat × α} (h : p ∈ insert i v l) :
    p = (i, v) ∨ p ∈ l := by
  induction l with
  | nil => exact .inl (by simpa [insert] using h)
  | cons q l ih =>
    unfold insert at h
    split at h
    · simpa using h
    · split at h
      · rcases List.mem_cons.mp h with h | h
        · exact .inl h
        · exact .inr (List.mem_cons_of_mem _ h)
      · rcases List.mem_cons.mp h with h | h
        · exact .inr (h ▸ List.mem_cons_self)
        · exact (ih h).imp_right (List.mem_cons_of_mem _)

theorem ascending_insert {i : Nat} {v : α} {l : List (Nat × α)} (h : l.Pairwise (·.1 < ·.1)) :
    (insert i v l).Pairwise (·.1 < ·.1) := by
  induction l with
  | nil => simp [insert]
  | cons q l ih =>
    obtain ⟨k, w⟩ := q
    obtain ⟨hk, hl⟩ := List.pairwise_cons.mp h
    unfold insert
    split
    · next hik =>
      refine List.pairwise_cons.mpr ⟨fun p hp => ?_, h⟩
      rcases List.mem_cons.mp hp with rfl | hp
      · exact hik
      · exact Nat.lt_trans hik (hk p hp)
    · split
      · next hik => exact List.pairwise_cons.mpr ⟨fun p hp => hik ▸ hk p hp, hl⟩
      · refine List.pairwise_cons.mpr ⟨fun p hp => ?_, ih hl⟩
        rcases mem_insert hp with rfl | hp
        · show k < i
          omega
        · exact hk p hp

/-! ### The block -/

@[simp] theorem size_pad (dense : Array (Option α)) (n : Nat) :
    (pad dense n).size = dense.size + n := by
  induction n generalizing dense with
  | zero => rfl
  | succ n ih =>
    rw [pad, ih, Array.size_push]
    omega

/-- The places that a block is made longer by are empty. -/
theorem join_getElem?_pad (dense : Array (Option α)) (n i : Nat) :
    (pad dense n)[i]?.join = dense[i]?.join := by
  induction n generalizing dense with
  | zero => rfl
  | succ n ih =>
    rw [pad, ih, Array.getElem?_push]
    split
    · next hi => simp [hi]
    · rfl

/-- Puts elements into their places in a block. -/
def settle (entries : List (Nat × α)) (dense : Array (Option α)) : Array (Option α) :=
  entries.foldl (fun d (i, v) => d.setIfInBounds i (some v)) dense

@[simp] theorem size_settle (entries : List (Nat × α)) (dense : Array (Option α)) :
    (settle entries dense).size = dense.size := by
  unfold settle
  induction entries generalizing dense with
  | nil => rfl
  | cons p l ih => simp [ih]

/-- An element in its place in a block. -/
theorem join_getElem?_set (dense : Array (Option α)) {i : Nat} (hi : i < dense.size) (v : Option α)
    (j : Nat) : (dense.setIfInBounds i v)[j]?.join = if j = i then v else dense[j]?.join := by
  rw [Array.getElem?_setIfInBounds]
  by_cases hj : j = i
  · subst hj
    simp [hi]
  · simp [hj, Ne.symm hj]

theorem join_getElem?_settle {entries : List (Nat × α)} {dense : Array (Option α)}
    (hkeys : (entries.map Prod.fst).Nodup) (hsize : ∀ p ∈ entries, p.1 < dense.size) (j : Nat) :
    (settle entries dense)[j]?.join = (find? j entries).or dense[j]?.join := by
  induction entries generalizing dense with
  | nil => simp [settle, find?]
  | cons p l ih =>
    obtain ⟨k, w⟩ := p
    rw [List.map_cons, List.nodup_cons] at hkeys
    have hk : k < dense.size := hsize (k, w) List.mem_cons_self
    have hrest : ∀ q ∈ l, q.1 < (dense.setIfInBounds k (some w)).size := by
      intro q hq
      rw [Array.size_setIfInBounds]
      exact hsize q (List.mem_cons_of_mem _ hq)
    show (settle l (dense.setIfInBounds k (some w)))[j]?.join = _
    rw [ih hkeys.2 hrest, join_getElem?_set dense hk, find?]
    by_cases hj : k = j
    · subst hj
      have hnone : find? k l = none :=
        find?_eq_none fun q hq hqk => hkeys.1 (List.mem_map.mpr ⟨q, hq, hqk⟩)
      simp [hnone]
    · simp [hj, Ne.symm hj]

/-- Where an element is looked for is the block and then the list, if the list is behind the
block. -/
theorem get?_eq_or {e : Elements α} (h : ∀ p ∈ e.sparse, e.dense.size ≤ p.1) (i : Nat) :
    e.get? i = e.dense[i]?.join.or (find? i e.sparse) := by
  unfold get?
  split
  · next hi =>
    have hnone : find? i e.sparse = none :=
      find?_eq_none fun p hp => by
        have := h p hp
        omega
    simp [hi, hnone]
  · next hi =>
    have hnone : e.dense[i]? = none := Array.getElem?_eq_none (Nat.le_of_not_lt hi)
    simp [hnone]

/-! ### Growing the block -/

theorem find?_append (i : Nat) (l m : List (Nat × α)) :
    find? i (l ++ m) = (find? i l).or (find? i m) := by
  induction l with
  | nil => rfl
  | cons p l ih =>
    obtain ⟨k, w⟩ := p
    rw [List.cons_append, find?, find?]
    split
    · rfl
    · exact ih

/-- In an ascending list, what follows the elements below an index is not below it. -/
theorem le_of_mem_dropWhile {l : List (Nat × α)} (h : l.Pairwise (·.1 < ·.1)) {n : Nat}
    {p : Nat × α} (hp : p ∈ l.dropWhile (·.1 < n)) : n ≤ p.1 := by
  induction l with
  | nil => simp at hp
  | cons q l ih =>
    obtain ⟨hq, hl⟩ := List.pairwise_cons.mp h
    by_cases hn : q.1 < n
    · rw [List.dropWhile_cons_of_pos (by simpa using hn)] at hp
      exact ih hl hp
    · rw [List.dropWhile_cons_of_neg (by simpa using hn)] at hp
      rcases List.mem_cons.mp hp with rfl | hp
      · omega
      · have := hq p hp
        omega

/-- What an element that is placed in an array leaves: the storages are in order but for the length,
and there is the element where it was placed and everything else where it was. -/
structure Places (e : Elements α) (i : Nat) (v : α) (f : Elements α) : Prop where
  ascending : f.sparse.Pairwise (·.1 < ·.1)
  behind : ∀ p ∈ f.sparse, f.dense.size ≤ p.1
  source : ∀ p ∈ f.sparse, p = (i, v) ∨ p ∈ e.sparse
  size_le : f.dense.size ≤ max e.dense.size (i + 1)
  length : f.length = e.length
  get? : ∀ j, f.get? j = if j = i then some v else e.get? j

variable {e : Elements α}

theorem growDense_sparse (e : Elements α) (n : Nat) :
    (e.growDense n).sparse = e.sparse.dropWhile (·.1 < n) := rfl

theorem growDense_dense (e : Elements α) (n : Nat) :
    (e.growDense n).dense
      = settle (e.sparse.takeWhile (·.1 < n)) (pad e.dense (n - e.dense.size)) := rfl

theorem size_growDense {n : Nat} (hn : e.dense.size ≤ n) : (e.growDense n).dense.size = n := by
  rw [growDense_dense, size_settle, size_pad]
  omega

/-- A longer block holds the elements that the list held for it. -/
theorem join_getElem?_growDense (h : e.IsStored) {n : Nat} (hn : e.dense.size ≤ n) (j : Nat) :
    (e.growDense n).dense[j]?.join
      = (find? j (e.sparse.takeWhile (·.1 < n))).or e.dense[j]?.join := by
  have hsub := List.takeWhile_sublist (l := e.sparse) (fun p => decide (p.1 < n))
  have hkeys := nodup_of_ascending (h.ascending.sublist hsub)
  have hsize : ∀ p ∈ e.sparse.takeWhile (·.1 < n), p.1 < (pad e.dense (n - e.dense.size)).size := by
    intro p hp
    have hlt : p.1 < n := by simpa using List.mem_takeWhile_imp hp
    rw [size_pad]
    omega
  rw [growDense_dense, join_getElem?_settle hkeys hsize, join_getElem?_pad]

/-- Where the list is divided does not matter to those who look for an element. -/
theorem get?_growDense (h : e.IsStored) {n : Nat} (hn : e.dense.size ≤ n) (j : Nat) :
    (e.growDense n).get? j = e.get? j := by
  have hbehind : ∀ p ∈ (e.growDense n).sparse, (e.growDense n).dense.size ≤ p.1 := by
    intro p hp
    rw [size_growDense hn]
    exact le_of_mem_dropWhile h.ascending hp
  have hlist : find? j e.sparse
      = (find? j (e.sparse.takeWhile (·.1 < n))).or (find? j (e.sparse.dropWhile (·.1 < n))) := by
    rw [← find?_append, List.takeWhile_append_dropWhile]
  rw [get?_eq_or hbehind, get?_eq_or h.behind, join_getElem?_growDense h hn, growDense_sparse,
    hlist]
  -- An index in the block is behind none of the list, so the two parts can change places.
  by_cases hj : j < e.dense.size
  · have hnone : find? j (e.sparse.takeWhile (·.1 < n)) = none :=
      find?_eq_none fun p hp => by
        have := h.behind p ((List.takeWhile_sublist _).subset hp)
        omega
    simp [hnone]
  · have hnone : e.dense[j]? = none := Array.getElem?_eq_none (Nat.le_of_not_lt hj)
    simp [hnone]

/-! ### Placing an element -/

theorem places_block (h : e.IsStored) {i : Nat} (hi : i < e.dense.size) (v : α) :
    Places e i v { e with dense := e.dense.setIfInBounds i (some v) } where
  ascending := h.ascending
  behind := by simpa using h.behind
  source := fun p hp => .inr hp
  size_le := by
    rw [Array.size_setIfInBounds]
    exact Nat.le_max_left ..
  length := rfl
  get? := by
    intro j
    rw [get?_eq_or (by simpa using h.behind), get?_eq_or h.behind]
    show (e.dense.setIfInBounds i (some v))[j]?.join.or (find? j e.sparse) = _
    rw [join_getElem?_set e.dense hi]
    by_cases hj : j = i <;> simp [hj]

theorem places_grown (h : e.IsStored) {i : Nat} (hi : e.dense.size ≤ i) (v : α) :
    Places e i v { e.growDense (i + 1) with
      dense := (e.growDense (i + 1)).dense.setIfInBounds i (some v) } := by
  have hn : e.dense.size ≤ i + 1 := by omega
  have hsize := size_growDense hn
  have hbehind : ∀ p ∈ (e.growDense (i + 1)).sparse, i + 1 ≤ p.1 :=
    fun p hp => le_of_mem_dropWhile h.ascending hp
  have hsub : (e.growDense (i + 1)).sparse.Sublist e.sparse := List.dropWhile_sublist _
  refine ⟨h.ascending.sublist hsub, ?_, fun p hp => .inr (hsub.subset hp), ?_, rfl, ?_⟩
  · intro p hp
    rw [Array.size_setIfInBounds, hsize]
    exact hbehind p hp
  · rw [Array.size_setIfInBounds, hsize]
    omega
  · intro j
    have hi' : i < (e.growDense (i + 1)).dense.size := by omega
    have hb : ∀ p ∈ (e.growDense (i + 1)).sparse, (e.growDense (i + 1)).dense.size ≤ p.1 := by
      intro p hp
      rw [hsize]
      exact hbehind p hp
    rw [← get?_growDense h hn j, get?_eq_or (by simpa using hb), get?_eq_or hb]
    show ((e.growDense (i + 1)).dense.setIfInBounds i (some v))[j]?.join.or
      (find? j (e.growDense (i + 1)).sparse) = _
    rw [join_getElem?_set _ hi']
    by_cases hj : j = i <;> simp [hj]

theorem places_list (h : e.IsStored) {i : Nat} (hi : e.dense.size ≤ i) (v : α) :
    Places e i v { e with sparse := insert i v e.sparse } where
  ascending := ascending_insert h.ascending
  behind := by
    intro p hp
    rcases mem_insert hp with rfl | hp
    · exact hi
    · exact h.behind p hp
  source := fun p hp => mem_insert hp
  size_le := Nat.le_max_left ..
  length := rfl
  get? := by
    intro j
    unfold Elements.get?
    by_cases hj : j < e.dense.size
    · have hne : j ≠ i := by omega
      simp [hj, hne]
    · simp [hj, find?_insert]

/-- **An element that is placed is found where it was placed, and nothing else is changed.** -/
theorem places_place (h : e.IsStored) (i : Nat) (v : α) : Places e i v (e.place i v) := by
  unfold place
  split
  · next hi => exact places_block h hi v
  · next hi =>
    split
    · exact places_grown h (Nat.le_of_not_lt hi) v
    · exact places_list h (Nat.le_of_not_lt hi) v

theorem set_eq (e : Elements α) (i : Nat) (v : α) :
    e.set i v = { e.place i v with length := max (e.place i v).length (i + 1) } := by
  unfold set
  cases e.place i v
  rfl

theorem IsStored.set (h : e.IsStored) (i : Nat) (v : α) : (e.set i v).IsStored := by
  have hp := places_place h i v
  rw [set_eq]
  refine ⟨hp.ascending, hp.behind, fun p hm => ?_, ?_⟩
  · show p.1 < max (e.place i v).length (i + 1)
    rcases hp.source p hm with rfl | hm
    · show i < _
      omega
    · have := h.below p hm
      have := hp.length
      omega
  · show (e.place i v).dense.size ≤ max (e.place i v).length (i + 1)
    have := hp.size_le
    have := h.size_le
    have := hp.length
    omega

theorem row_set (h : e.IsStored) (i : Nat) (v : α) : (e.set i v).row = e.row.set i v := by
  have hp := places_place h i v
  rw [set_eq]
  ext j : 2
  · show max (e.place i v).length (i + 1) = max e.length (i + 1)
    rw [hp.length]
  · exact hp.get? j

theorem IsStored.push (h : e.IsStored) (v : α) : (e.push v).IsStored := h.set e.length v

theorem row_push (h : e.IsStored) (v : α) : (e.push v).row = e.row.push v := row_set h e.length v

/-! ### The length and removal -/

theorem find?_filter (q : Nat → Bool) (i : Nat) (l : List (Nat × α)) :
    find? i (l.filter fun p => q p.1) = if q i then find? i l else none := by
  induction l with
  | nil => simp [find?]
  | cons p l ih =>
    obtain ⟨k, w⟩ := p
    by_cases hk : q k
    · rw [List.filter_cons_of_pos (by simpa using hk), find?, find?]
      by_cases hi : k = i
      · subst hi
        simp [hk]
      · simp [hi, ih]
    · rw [List.filter_cons_of_neg (by simpa using hk), ih, find?]
      by_cases hi : k = i
      · subst hi
        simp [hk]
      · simp [hi]

/-- The places of a block below an index. -/
def cut (dense : Array (Option α)) (n : Nat) : Array (Option α) :=
  if n < dense.size then dense.take n else dense

theorem size_cut (dense : Array (Option α)) (n : Nat) : (cut dense n).size = min n dense.size := by
  unfold cut
  split
  · simp
  · omega

theorem join_getElem?_cut (dense : Array (Option α)) (n i : Nat) :
    (cut dense n)[i]?.join = if i < n then dense[i]?.join else none := by
  by_cases hi : i < n
  · rw [if_pos hi]
    unfold cut
    split
    · have hmin : i < min n dense.size := by omega
      rw [Array.take_eq_extract, Array.getElem?_extract]
      simp [hmin]
    · rfl
  · have hnone : (cut dense n)[i]? = none :=
      Array.getElem?_eq_none (by rw [size_cut]; omega)
    rw [if_neg hi, hnone]
    rfl

theorem setLength_eq (e : Elements α) (n : Nat) :
    e.setLength n = ⟨cut e.dense n, e.sparse.filter (·.1 < n), n, e.isFrozen⟩ := rfl

theorem IsStored.setLength (h : e.IsStored) (n : Nat) : (e.setLength n).IsStored where
  ascending := h.ascending.sublist List.filter_sublist
  behind := by
    intro p hp
    have := h.behind p (List.filter_sublist.subset hp)
    rw [setLength_eq]
    show (cut e.dense n).size ≤ p.1
    rw [size_cut]
    omega
  below := by
    intro p hp
    show p.1 < n
    simpa using (List.mem_filter.mp hp).2
  size_le := by
    rw [setLength_eq]
    show (cut e.dense n).size ≤ n
    rw [size_cut]
    exact Nat.min_le_left ..

theorem row_setLength (h : e.IsStored) (n : Nat) : (e.setLength n).row = e.row.setLength n := by
  ext i : 2
  · rfl
  · show (e.setLength n).get? i = if i < n then e.get? i else none
    rw [get?_eq_or (h.setLength n).behind, get?_eq_or h.behind]
    show (cut e.dense n)[i]?.join.or (find? i (e.sparse.filter fun p => decide (p.1 < n))) = _
    rw [join_getElem?_cut, find?_filter fun k => decide (k < n)]
    by_cases hi : i < n <;> simp [hi]

theorem remove_eq (e : Elements α) (i : Nat) :
    e.remove i = if i < e.dense.size then { e with dense := e.dense.setIfInBounds i none }
      else { e with sparse := e.sparse.filter (·.1 != i) } := rfl

theorem IsStored.remove (h : e.IsStored) (i : Nat) : (e.remove i).IsStored := by
  rw [remove_eq]
  split
  · exact ⟨h.ascending, by simpa using h.behind, h.below, by simpa using h.size_le⟩
  · exact ⟨h.ascending.sublist List.filter_sublist,
      fun p hp => h.behind p (List.filter_sublist.subset hp),
      fun p hp => h.below p (List.filter_sublist.subset hp), h.size_le⟩

/-- This holds of all elements, stored in order or not. -/
theorem get?_remove (e : Elements α) (i j : Nat) :
    (e.remove i).get? j = if j = i then none else e.get? j := by
  rw [remove_eq]
  split
  · next hi =>
    unfold get?
    dsimp only
    simp only [Array.size_setIfInBounds]
    by_cases hj : j = i
    · subst hj
      rw [dif_pos hi, if_pos rfl, Array.getElem_setIfInBounds hi, if_pos rfl]
    · rw [if_neg hj]
      split
      · rw [Array.getElem_setIfInBounds, if_neg (Ne.symm hj)]
      · rfl
  · next hi =>
    unfold get?
    dsimp only
    rw [find?_filter fun k => k != i]
    by_cases hj : j = i
    · subst hj
      rw [dif_neg hi, if_pos rfl, bne_self_eq_false]
      rfl
    · rw [if_neg hj, if_pos (bne_iff_ne.mpr hj)]

theorem isFrozen_set (e : Elements α) (i : Nat) (v : α) : (e.set i v).isFrozen = e.isFrozen := by
  rw [set_eq]
  change (e.place i v).isFrozen = _
  unfold place
  split
  · rfl
  · split <;> rfl

@[simp] theorem isFrozen_remove (e : Elements α) (i : Nat) : (e.remove i).isFrozen = e.isFrozen := by
  rw [remove_eq]
  split <;> rfl

@[simp] theorem length_remove (e : Elements α) (i : Nat) : (e.remove i).length = e.length := by
  rw [remove_eq]
  split <;> rfl

theorem row_remove (e : Elements α) (i : Nat) : (e.remove i).row = e.row.remove i := by
  ext j : 2
  · exact length_remove e i
  · exact get?_remove e i j

/-! ### The elements that are there -/

theorem mem_densePresent {k i : Nat} {v : α} {l : List (Option α)} :
    (i, v) ∈ densePresent k l ↔ k ≤ i ∧ l[i - k]? = some (some v) := by
  induction l generalizing k with
  | nil => simp [densePresent]
  | cons o l ih =>
    -- The first place has the index `k`; the others start at `k + 1`.
    have hrest : (i, v) ∈ densePresent (k + 1) l ↔ k < i ∧ (o :: l)[i - k]? = some (some v) := by
      rw [ih]
      refine and_congr_right fun hki => ?_
      rw [show i - k = (i - (k + 1)) + 1 by omega, List.getElem?_cons_succ]
    cases o with
    | none =>
      rw [densePresent, hrest]
      constructor
      · rintro ⟨hki, hv⟩
        exact ⟨Nat.le_of_lt hki, hv⟩
      · rintro ⟨hki, hv⟩
        refine ⟨Nat.lt_of_le_of_ne hki fun hne => ?_, hv⟩
        subst hne
        simp at hv
    | some w =>
      rw [densePresent, List.mem_cons, hrest]
      constructor
      · rintro (heq | ⟨hki, hv⟩)
        · cases heq
          simp
        · exact ⟨Nat.le_of_lt hki, hv⟩
      · rintro ⟨hki, hv⟩
        rcases Nat.lt_or_eq_of_le hki with hlt | rfl
        · exact .inr ⟨hlt, hv⟩
        · left
          simpa [eq_comm] using hv

theorem ascending_densePresent (k : Nat) (l : List (Option α)) :
    (densePresent k l).Pairwise (·.1 < ·.1) := by
  induction l generalizing k with
  | nil => exact List.Pairwise.nil
  | cons o l ih =>
    cases o with
    | none => exact ih (k + 1)
    | some w => exact List.pairwise_cons.mpr ⟨fun p hp => (mem_densePresent.mp hp).1, ih (k + 1)⟩

namespace IsStored

/-- **The elements from an index on are those that the row has there.** -/
theorem mem_presentFrom (h : e.IsStored) {n i : Nat} {v : α} :
    (i, v) ∈ e.presentFrom n ↔ n ≤ i ∧ e.get? i = some v := by
  have hlist : find? i e.sparse = some v ↔ (i, v) ∈ e.sparse :=
    find?_eq_some_iff (nodup_of_ascending h.ascending)
  unfold presentFrom
  rw [List.mem_append, mem_densePresent, List.mem_filter, List.getElem?_drop]
  unfold Elements.get?
  -- An entry in the block is never listed behind it.
  by_cases hi : i < e.dense.size
  · have hnot : (i, v) ∉ e.sparse := fun hm => by
      have := h.behind _ hm
      simp only at this
      omega
    constructor
    · rintro (⟨hn, hv⟩ | ⟨hm, -⟩)
      · rw [Nat.add_sub_cancel' hn] at hv
        simpa [hi, hn] using hv
      · exact absurd hm hnot
    · rintro ⟨hn, hv⟩
      refine .inl ⟨hn, ?_⟩
      rw [Nat.add_sub_cancel' hn]
      simpa [hi] using hv
  · rw [dif_neg hi, hlist]
    constructor
    · rintro (⟨hn, hv⟩ | ⟨hm, hn⟩)
      · rw [Nat.add_sub_cancel' hn] at hv
        simp [hi] at hv
      · exact ⟨by simpa using hn, hm⟩
    · rintro ⟨hn, hm⟩
      exact .inr ⟨hm, by simpa using hn⟩

theorem mem_present (h : e.IsStored) {i : Nat} {v : α} :
    (i, v) ∈ e.present ↔ e.get? i = some v := by
  rw [present, h.mem_presentFrom]
  simp

/-- **The elements from an index on ascend.** -/
theorem ascending_presentFrom (h : e.IsStored) (n : Nat) :
    (e.presentFrom n).Pairwise (·.1 < ·.1) := by
  unfold presentFrom
  refine List.pairwise_append.mpr
    ⟨ascending_densePresent _ _, h.ascending.sublist List.filter_sublist, ?_⟩
  rintro ⟨i, v⟩ hp q hq
  obtain ⟨hn, hv⟩ := mem_densePresent.mp hp
  rw [List.getElem?_drop, Nat.add_sub_cancel' hn] at hv
  obtain ⟨hi, -⟩ := List.getElem?_eq_some_iff.mp hv
  rw [Array.length_toList] at hi
  have := h.behind q (List.filter_sublist.subset hq)
  show i < q.1
  omega

/-- An element is below the length. -/
theorem lt_of_get? (h : e.IsStored) {i : Nat} {v : α} (hv : e.get? i = some v) : i < e.length := by
  unfold Elements.get? at hv
  split at hv
  · next hi =>
    have := h.size_le
    omega
  · have hm := (find?_eq_some_iff (nodup_of_ascending h.ascending)).mp hv
    exact h.below _ hm

/-- The search for the first element of the block finds the head of its elements. -/
theorem nextDense?_eq (dense : Array (Option α)) (i count : Nat) (hc : dense.size ≤ i + count) :
    nextDense? dense i count = (densePresent i (dense.toList.drop i)).head? := by
  induction count generalizing i with
  | zero =>
    rw [List.drop_eq_nil_of_le (by simpa using hc)]
    rfl
  | succ count ih =>
    unfold nextDense?
    by_cases hi : i < dense.size
    · rw [List.drop_eq_getElem_cons (by simpa using hi), Array.getElem?_eq_getElem hi]
      simp only [Array.getElem_toList]
      cases dense[i] with
      | none => exact ih (i + 1) (by omega)
      | some v => rfl
    · rw [List.drop_eq_nil_of_le (by simpa using Nat.le_of_not_lt hi),
        Array.getElem?_eq_none (Nat.le_of_not_lt hi), ih (i + 1) (by omega),
        List.drop_eq_nil_of_le (by simp; omega)]
      rfl

theorem nextPresent?_eq_head? (e : Elements α) (n : Nat) :
    e.nextPresent? n = (e.presentFrom n).head? := by
  unfold nextPresent? presentFrom
  rw [nextDense?_eq _ _ _ (by omega), List.head?_append, ← List.head?_filter]
  cases (densePresent n (e.dense.toList.drop n)).head? <;> rfl

/-- **The next element from an index on is the one with the least index.** -/
theorem nextPresent?_eq_some_iff (h : e.IsStored) {n i : Nat} {v : α} :
    e.nextPresent? n = some (i, v) ↔
      n ≤ i ∧ e.get? i = some v ∧ ∀ j, n ≤ j → j < i → e.get? j = none := by
  rw [nextPresent?_eq_head?]
  have hmem : ∀ j w, (j, w) ∈ e.presentFrom n ↔ n ≤ j ∧ e.get? j = some w :=
    fun j w => h.mem_presentFrom
  have hasc := h.ascending_presentFrom n
  constructor
  · intro hhead
    obtain ⟨l, hl⟩ := List.head?_eq_some_iff.mp hhead
    obtain ⟨hn, hv⟩ := (hmem i v).mp (List.mem_of_mem_head? hhead)
    refine ⟨hn, hv, fun j hj hji => Option.eq_none_iff_forall_ne_some.mpr fun w hw => ?_⟩
    -- An element before the head would be behind it in the list.
    have hm := (hmem j w).mpr ⟨hj, hw⟩
    rw [hl] at hm hasc
    rcases List.mem_cons.mp hm with heq | hm
    · cases heq
      omega
    · have hlt : i < j := (List.pairwise_cons.mp hasc).1 _ hm
      omega
  · rintro ⟨hn, hv, hfirst⟩
    have hm := (hmem i v).mpr ⟨hn, hv⟩
    cases hl : e.presentFrom n with
    | nil =>
      rw [hl] at hm
      simp at hm
    | cons p l =>
      obtain ⟨j, w⟩ := p
      obtain ⟨hj, hw⟩ := (hmem j w).mp (hl ▸ List.mem_cons_self)
      rw [hl] at hm hasc
      rcases List.mem_cons.mp hm with heq | hm
      · rw [heq]
        rfl
      · have hlt : j < i := (List.pairwise_cons.mp hasc).1 _ hm
        rw [hfirst j hj hlt] at hw
        cases hw

/-- There are as many elements from an index on as there are indices below the length that have
one. -/
theorem length_presentFrom (h : e.IsStored) (n : Nat) :
    (e.presentFrom n).length
      = ((List.range' n (e.length - n)).filter fun i => (e.get? i).isSome).length := by
  rw [← @List.length_map _ _ (e.presentFrom n) Prod.fst]
  refine List.Perm.length_eq ((List.perm_ext_iff_of_nodup
    (nodup_of_ascending (h.ascending_presentFrom n))
    (List.Nodup.filter _ List.nodup_range')).mpr fun i => ?_)
  rw [List.mem_map, List.mem_filter, List.mem_range'_1]
  constructor
  · rintro ⟨⟨j, v⟩, hm, rfl⟩
    obtain ⟨hn, hv⟩ := h.mem_presentFrom.mp hm
    have := h.lt_of_get? hv
    exact ⟨by omega, by rw [hv]; rfl⟩
  · rintro ⟨hi, hv⟩
    obtain ⟨v, hv⟩ := Option.isSome_iff_exists.mp hv
    exact ⟨(i, v), h.mem_presentFrom.mpr ⟨hi.1, hv⟩, rfl⟩

/-- **There are holes from an index on if an index below the length has no element.** -/
theorem hasHolesFrom_iff (h : e.IsStored) {n : Nat} :
    e.hasHolesFrom n = true ↔ ∃ i, n ≤ i ∧ i < e.length ∧ e.get? i = none := by
  have hless := List.length_filter_lt_length_iff_exists (p := fun i => (e.get? i).isSome)
    (l := List.range' n (e.length - n))
  rw [List.length_range'] at hless
  unfold hasHolesFrom
  rw [decide_eq_true_eq, h.length_presentFrom, hless]
  constructor
  · rintro ⟨i, hi, hv⟩
    rw [List.mem_range'_1] at hi
    exact ⟨i, hi.1, by omega, by simpa using hv⟩
  · rintro ⟨i, hn, hi, hv⟩
    refine ⟨i, List.mem_range'_1.mpr ⟨hn, by omega⟩, ?_⟩
    rw [hv]
    simp

end IsStored

/-! ### Entries put into an empty array -/

theorem isStored_ofPlaces (places : Array (Option α)) : (ofPlaces places).IsStored :=
  ⟨List.Pairwise.nil, by simp [ofPlaces], by simp [ofPlaces], Nat.le_refl _⟩

theorem row_ofPlaces (places : Array (Option α)) : (ofPlaces places).row = Row.ofPlaces places := by
  ext i : 2
  · rfl
  · show (ofPlaces places).get? i = places[i]?.join
    rw [get?_eq_or (isStored_ofPlaces places).behind]
    simp [ofPlaces, find?]

theorem isStored_empty (n : Nat) (isFrozen : Bool) : (⟨#[], [], n, isFrozen⟩ : Elements α).IsStored :=
  ⟨List.Pairwise.nil, by simp, by simp, Nat.zero_le _⟩

theorem row_empty (n : Nat) (isFrozen : Bool) :
    (⟨#[], [], n, isFrozen⟩ : Elements α).row = Row.ofLength n := by
  ext i : 2
  · rfl
  · simp [row, Row.ofLength, get?, find?]

/-- Elements that are set one after the other. -/
theorem isStored_foldl_set (h : e.IsStored) (entries : List (Nat × α)) :
    (entries.foldl (fun e (i, v) => e.set i v) e).IsStored ∧
      (entries.foldl (fun e (i, v) => e.set i v) e).row
        = entries.foldl (fun r (i, v) => r.set i v) e.row := by
  induction entries generalizing e with
  | nil => exact ⟨h, rfl⟩
  | cons p l ih =>
    obtain ⟨i, v⟩ := p
    have hnext := ih (h.set i v)
    rw [row_set h] at hnext
    exact hnext

theorem isStored_ofEntries (n : Nat) (isFrozen : Bool) (entries : List (Nat × α)) :
    (ofEntries n isFrozen entries).IsStored :=
  (isStored_foldl_set (isStored_empty n isFrozen) entries).1

theorem row_ofEntries (n : Nat) (isFrozen : Bool) (entries : List (Nat × α)) :
    (ofEntries n isFrozen entries).row = Row.ofEntries n entries := by
  unfold ofEntries
  rw [(isStored_foldl_set (isStored_empty n isFrozen) entries).2, row_empty]
  rfl

/-- Entries set in a row one after the other, each index once, are there, and every other element is
where it was. -/
theorem get?_foldl_set {entries : List (Nat × α)} (hkeys : (entries.map Prod.fst).Nodup) (r : Row α)
    (i : Nat) : (entries.foldl (fun r (i, v) => r.set i v) r).get? i
      = (find? i entries).or (r.get? i) := by
  induction entries generalizing r with
  | nil => simp [find?]
  | cons p l ih =>
    obtain ⟨k, w⟩ := p
    rw [List.map_cons, List.nodup_cons] at hkeys
    rw [List.foldl_cons, ih hkeys.2]
    show (find? i l).or (if i = k then some w else r.get? i)
      = (find? i ((k, w) :: l)).or (r.get? i)
    rw [find?]
    by_cases hi : k = i
    · subst hi
      have hnone : find? k l = none :=
        find?_eq_none fun q hq hqk => hkeys.1 (List.mem_map.mpr ⟨q, hq, hqk⟩)
      simp [hnone]
    · simp [hi, Ne.symm hi]

/-- Entries set below the length of a row leave its length as it is. -/
theorem length_foldl_set {entries : List (Nat × α)} (r : Row α) (hlt : ∀ p ∈ entries, p.1 < r.length) :
    (entries.foldl (fun r (i, v) => r.set i v) r).length = r.length := by
  induction entries generalizing r with
  | nil => rfl
  | cons p l ih =>
    obtain ⟨hp, hl⟩ := List.forall_mem_cons.mp hlt
    have hlength : (r.set p.1 p.2).length = r.length := Nat.max_eq_left hp
    rw [List.foldl_cons, ih _ fun q hq => hlength ▸ hl q hq, hlength]

/-- Entries set in a row one after the other, below its length and each index once. -/
theorem foldl_set_row {entries : List (Nat × α)} (hkeys : (entries.map Prod.fst).Nodup) (r : Row α)
    (hlt : ∀ p ∈ entries, p.1 < r.length) :
    entries.foldl (fun r (i, v) => r.set i v) r
      = ⟨r.length, fun i => (find? i entries).or (r.get? i)⟩ := by
  ext i : 2
  · exact length_foldl_set r hlt
  · exact get?_foldl_set hkeys r i

/-- **A row of entries below the length, each index once, has exactly these.** -/
theorem row_ofEntries_eq {n : Nat} {entries : List (Nat × α)} {g : Nat → Option α}
    (hkeys : (entries.map Prod.fst).Nodup) (hlt : ∀ p ∈ entries, p.1 < n)
    (hg : ∀ i v, (i, v) ∈ entries ↔ g i = some v) (isFrozen : Bool) :
    (ofEntries n isFrozen entries).row = ⟨n, g⟩ := by
  rw [row_ofEntries, Row.ofEntries, foldl_set_row hkeys _ hlt]
  ext i : 2
  · rfl
  · refine Option.ext fun v => ?_
    rw [← hg, ← find?_eq_some_iff hkeys]
    simp [Row.ofLength]

/-! ### Moving all elements -/

/-- The entries of a list, each at the index that a function moves it to. -/
def moved (f : Nat → Nat) (l : List (Nat × α)) : List (Nat × α) := l.map fun (i, v) => (f i, v)

theorem mem_moved {f : Nat → Nat} {l : List (Nat × α)} {i : Nat} {v : α} :
    (i, v) ∈ moved f l ↔ ∃ j, (j, v) ∈ l ∧ f j = i := by
  simp [moved]

/-- In an ascending list that is moved to different indices, each index is there once. -/
theorem nodup_moved {l : List (Nat × α)} {f : Nat → Nat} (h : l.Pairwise (·.1 < ·.1))
    (hf : ∀ p ∈ l, ∀ q ∈ l, p.1 < q.1 → f p.1 ≠ f q.1) : ((moved f l).map Prod.fst).Nodup := by
  unfold moved
  rw [List.map_map]
  exact List.pairwise_map.mpr (h.imp_of_mem fun {p q} hp hq hpq => hf p hp q hq hpq)

theorem reverse_eq (e : Elements α) :
    e.reverse = if e.sparse.isEmpty && e.dense.size == e.length then
        { e with dense := e.dense.reverse }
      else ofEntries e.length e.isFrozen (moved (e.length - 1 - ·) e.present.reverse) := rfl

theorem IsStored.reverse (h : e.IsStored) : e.reverse.IsStored := by
  rw [reverse_eq]
  split
  · exact ⟨h.ascending, by simpa using h.behind, h.below, by simpa using h.size_le⟩
  · exact isStored_ofEntries ..

/-- The reverse of an array whose elements are all in the block, with no places but theirs. -/
theorem row_reverse_block (h : e.IsStored) (hs : e.sparse = []) (hsize : e.dense.size = e.length) :
    ({ e with dense := e.dense.reverse } : Elements α).row = e.row.reverse := by
  ext i : 2
  · rfl
  · show ({ e with dense := e.dense.reverse } : Elements α).get? i
      = if i < e.length then e.get? (e.length - 1 - i) else none
    rw [get?_eq_or (by simp [hs]), get?_eq_or h.behind]
    show e.dense.reverse[i]?.join.or (find? i e.sparse) = _
    rw [hs]
    by_cases hi : i < e.length
    · rw [Array.getElem?_reverse (by omega), hsize]
      simp [find?, hi]
    · have hnone : e.dense.reverse[i]? = none :=
        Array.getElem?_eq_none (by rw [Array.size_reverse]; omega)
      simp [find?, hi, hnone]

theorem row_reverse (h : e.IsStored) : e.reverse.row = e.row.reverse := by
  rw [reverse_eq]
  split
  · next hdense =>
    rw [Bool.and_eq_true, List.isEmpty_iff, beq_iff_eq] at hdense
    exact row_reverse_block h hdense.1 hdense.2
  -- Mirroring is one to one on the indices below the length.
  · have hlt : ∀ p ∈ e.present, p.1 < e.length :=
      fun p hp => h.lt_of_get? (h.mem_present.mp hp)
    refine row_ofEntries_eq ?_ ?_ ?_ _
    · have hkeys := nodup_moved (f := (e.length - 1 - ·)) (h.ascending_presentFrom 0) (by
        intro p hp q hq hpq
        have := hlt p hp
        have := hlt q hq
        omega)
      unfold moved at hkeys ⊢
      rw [List.map_reverse, List.map_reverse, List.nodup_reverse]
      exact hkeys
    · rintro ⟨i, v⟩ hp
      obtain ⟨j, hj, rfl⟩ := mem_moved.mp hp
      have := hlt _ (List.mem_reverse.mp hj)
      show e.length - 1 - j < e.length
      omega
    · intro i v
      show _ ↔ (if i < e.length then e.get? (e.length - 1 - i) else none) = some v
      rw [mem_moved]
      constructor
      · rintro ⟨j, hj, rfl⟩
        have hv := h.mem_present.mp (List.mem_reverse.mp hj)
        have := h.lt_of_get? hv
        rw [if_pos (by omega), show e.length - 1 - (e.length - 1 - j) = j by omega]
        exact hv
      · intro hv
        split at hv
        · next hi =>
          refine ⟨e.length - 1 - i, List.mem_reverse.mpr (h.mem_present.mpr hv), ?_⟩
          show e.length - 1 - (e.length - 1 - i) = i
          omega
        · cases hv

theorem shift_eq (e : Elements α) :
    e.shift = if e.length = 0 then (none, e)
      else if e.sparse.isEmpty then
        (e.dense[0]?.join, { e with dense := e.dense.drop 1, length := e.length - 1 })
      else (e.get? 0, ofEntries (e.length - 1) e.isFrozen (moved (· - 1) (e.presentFrom 1))) := rfl

theorem IsStored.shift (h : e.IsStored) : e.shift.2.IsStored := by
  rw [shift_eq]
  split
  · exact h
  · split
    · next hs =>
      rw [List.isEmpty_iff] at hs
      have := h.size_le
      refine ⟨h.ascending, by simp [hs], by simp [hs], ?_⟩
      show (e.dense.drop 1).size ≤ e.length - 1
      rw [Array.drop_eq_extract, Array.size_extract]
      omega
    · exact isStored_ofEntries ..

/-- **The element that is taken out is the first one.** -/
theorem shift_fst (h : e.IsStored) : e.shift.1 = e.get? 0 := by
  rw [shift_eq]
  split
  · next h0 =>
    symm
    refine Option.eq_none_iff_forall_ne_some.mpr fun v hv => ?_
    have := h.lt_of_get? hv
    omega
  · split
    · next hs =>
      rw [List.isEmpty_iff] at hs
      rw [get?_eq_or h.behind, hs]
      simp [find?]
    · rfl

theorem row_shift (h : e.IsStored) : e.shift.2.row = e.row.shift := by
  rw [shift_eq]
  split
  · next h0 =>
    -- Without elements there is nothing to move.
    ext i : 2
    · show e.length = e.length - 1
      omega
    · show e.get? i = e.get? (i + 1)
      have hnone : ∀ j, e.get? j = none := fun j =>
        Option.eq_none_iff_forall_ne_some.mpr fun v hv => by
          have := h.lt_of_get? hv
          omega
      rw [hnone, hnone]
  · split
    · next hs =>
      rw [List.isEmpty_iff] at hs
      ext i : 2
      · rfl
      · show ({ e with dense := e.dense.drop 1, length := e.length - 1 } : Elements α).get? i
          = e.get? (i + 1)
        rw [get?_eq_or (by simp [hs]), get?_eq_or h.behind]
        show (e.dense.drop 1)[i]?.join.or (find? i e.sparse) = _
        rw [hs, Array.drop_eq_extract, Array.getElem?_extract]
        by_cases hi : i < e.dense.size - 1
        · simp [find?, hi, Nat.add_comm]
        · have hnone : e.dense[i + 1]? = none := Array.getElem?_eq_none (by omega)
          simp [find?, hi, hnone]
    · refine row_ofEntries_eq ?_ ?_ ?_ _
      · refine nodup_moved (h.ascending_presentFrom 1) ?_
        intro p hp q hq hpq
        have := (h.mem_presentFrom.mp hp).1
        omega
      · rintro ⟨i, v⟩ hp
        obtain ⟨j, hj, rfl⟩ := mem_moved.mp hp
        obtain ⟨h1, hv⟩ := h.mem_presentFrom.mp hj
        have := h.lt_of_get? hv
        show j - 1 < e.length - 1
        omega
      · intro i v
        show _ ↔ e.get? (i + 1) = some v
        rw [mem_moved]
        constructor
        · rintro ⟨j, hj, rfl⟩
          obtain ⟨h1, hv⟩ := h.mem_presentFrom.mp hj
          rw [Nat.sub_add_cancel h1]
          exact hv
        · intro hv
          exact ⟨i + 1, h.mem_presentFrom.mpr ⟨by omega, hv⟩, by simp⟩

/-- The given elements, each at its place in the list. -/
def front (values : List α) : List (Nat × α) := values.zipIdx.map fun (v, i) => (i, v)

theorem mem_front {values : List α} {i : Nat} {v : α} :
    (i, v) ∈ front values ↔ values[i]? = some v := by
  unfold front
  rw [List.mem_map]
  constructor
  · rintro ⟨⟨w, j⟩, hm, heq⟩
    cases heq
    exact List.mem_zipIdx_iff_getElem?.mp hm
  · intro hv
    exact ⟨(v, i), List.mem_zipIdx_iff_getElem?.mpr hv, rfl⟩

theorem ascending_front (values : List α) : (front values).Pairwise (·.1 < ·.1) := by
  unfold front
  rw [List.pairwise_map, List.pairwise_iff_getElem]
  intro i j hi hj hij
  simpa using hij

theorem unshift_eq (e : Elements α) (values : List α) :
    e.unshift values = if e.sparse.isEmpty then
        { e with dense := (values.map some).toArray ++ e.dense, length := e.length + values.length }
      else ofEntries (e.length + values.length) e.isFrozen
        (front values ++ moved (· + values.length) e.present) := rfl

theorem IsStored.unshift (h : e.IsStored) (values : List α) : (e.unshift values).IsStored := by
  rw [unshift_eq]
  split
  · next hs =>
    rw [List.isEmpty_iff] at hs
    have := h.size_le
    refine ⟨h.ascending, by simp [hs], by simp [hs], ?_⟩
    simp
    omega
  · exact isStored_ofEntries ..

theorem row_unshift (h : e.IsStored) (values : List α) :
    (e.unshift values).row = e.row.unshift values := by
  rw [unshift_eq]
  split
  · next hs =>
    rw [List.isEmpty_iff] at hs
    ext i : 2
    · rfl
    · show ({ e with dense := (values.map some).toArray ++ e.dense
                     length := e.length + values.length } : Elements α).get? i
        = if i < values.length then values[i]? else e.get? (i - values.length)
      rw [get?_eq_or (by simp [hs]), get?_eq_or h.behind]
      show ((values.map some).toArray ++ e.dense)[i]?.join.or (find? i e.sparse) = _
      rw [hs, Array.getElem?_append]
      by_cases hi : i < values.length <;> simp [find?, hi]
  -- With entries behind the block the list is built anew: the new values in front, the others moved
  -- behind them.
  · have hlt : ∀ p ∈ e.present, p.1 < e.length :=
      fun p hp => h.lt_of_get? (h.mem_present.mp hp)
    have hfront : ∀ p ∈ front values, p.1 < values.length := by
      rintro ⟨i, v⟩ hp
      exact (List.getElem?_eq_some_iff.mp (mem_front.mp hp)).1
    refine row_ofEntries_eq ?_ ?_ ?_ _
    · rw [List.map_append, List.nodup_append]
      refine ⟨nodup_of_ascending (ascending_front values),
        nodup_moved (h.ascending_presentFrom 0) (by intros; omega), ?_⟩
      intro i hi j hj
      obtain ⟨p, hp, rfl⟩ := List.mem_map.mp hi
      obtain ⟨⟨k, v⟩, hq, rfl⟩ := List.mem_map.mp hj
      obtain ⟨l, -, rfl⟩ := mem_moved.mp hq
      have := hfront p hp
      omega
    · rintro ⟨i, v⟩ hp
      show i < e.length + values.length
      rcases List.mem_append.mp hp with hp | hp
      · have : i < values.length := hfront _ hp
        omega
      · obtain ⟨j, hj, rfl⟩ := mem_moved.mp hp
        have : j < e.length := hlt _ hj
        omega
    · intro i v
      show _ ↔ (if i < values.length then values[i]? else e.get? (i - values.length)) = some v
      rw [List.mem_append, mem_front, mem_moved]
      by_cases hi : i < values.length
      · rw [if_pos hi]
        constructor
        · rintro (hv | ⟨j, -, rfl⟩)
          · exact hv
          · omega
        · exact .inl
      · rw [if_neg hi]
        constructor
        · rintro (hv | ⟨j, hj, rfl⟩)
          · exact absurd (List.getElem?_eq_some_iff.mp hv).1 hi
          · rw [Nat.add_sub_cancel]
            exact h.mem_present.mp hj
        · intro hv
          exact .inr ⟨i - values.length, h.mem_present.mpr hv, Nat.sub_add_cancel (by omega)⟩

end Elements

end Scriptlet
