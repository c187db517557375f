import Scriptlet.Proofs.Packed

/-!
# Histories of arrays

An array is made from places, from a length or from entries, and then goes through any number of
operations.  Whatever the order of the operations is, and whichever storage each element is in at the
time, those who use the array see the row that the same operations make of the same beginning.

## Main definitions

* `Origin`, `Operation` — how arrays are made, and what is done to them.
* `Row.Allows` — the operations stay within the bounds that are checked before they are called.
* `Elements.Shows` — an array is in order, and everything that is read from it is what a row says.

## Main results

* `Elements.perform_spec` — **one operation does to the array what it does to the row**, and keeps
  the array in order.
* `Packed.unpack_perform` — one operation does to words what it does to numbers.
* `Origin.history_shows` — **so do all operations, one after the other**.
-/

namespace Scriptlet

/-! ### Beginnings and operations -/

/-- How an array is made. -/
inductive Origin (α : Type)
  /-- From places, one behind the other. -/
  | places (places : Array (Option α))
  /-- From a length, with empty places only. -/
  | length (n : Nat)
  /-- From a length and elements at indices. -/
  | entries (n : Nat) (entries : List (Nat × α))

namespace Origin

variable {α : Type}

/-- The bounds for new arrays. -/
def IsAllowed : Origin α → Prop
  | places ps => ps.size ≤ maxArrayLength
  | length n => n ≤ maxArrayLength
  | entries n es => n ≤ maxArrayLength ∧ ∀ p ∈ es, p.1 < maxArrayLength

/-- The new array. -/
def elements : Origin α → Elements α
  | places ps => .ofPlaces ps
  | length n => .ofLength n
  | entries n es => .ofEntries n false es

/-- The row that the new array stands for. -/
def row : Origin α → Row α
  | places ps => .ofPlaces ps
  | length n => .ofLength n
  | entries n es => .ofEntries n es

/-- The new array in words. -/
def packed : Origin α → Packed α
  | places ps => ⟨ps, [], .ofNat ps.size, false⟩
  | length n => ⟨#[], [], .ofNat n, false⟩
  | entries n es => .ofEntries (.ofNat n) false es

end Origin

/-- What is done to an array. -/
inductive Operation (α : Type)
  /-- Writing an element. -/
  | set (i : Nat) (v : α)
  /-- Adding an element at the end. -/
  | push (v : α)
  /-- Changing the length. -/
  | setLength (n : Nat)
  /-- Taking an element out, which leaves a hole. -/
  | remove (i : Nat)
  /-- Turning the elements round. -/
  | reverse
  /-- Taking the first element out. -/
  | shift
  /-- Putting elements in front. -/
  | unshift (values : List α)

/-- What is checked before an operation on an array of the given length. -/
def Operation.IsAllowed {α : Type} (length : Nat) : Operation α → Prop
  | set i _ => i < maxArrayLength
  | push _ => length < maxArrayLength
  | setLength n => n ≤ maxArrayLength
  | remove _ | reverse | shift => True
  | unshift values => length + values.length ≤ maxArrayLength

section Perform

variable {α : Type}

/-- What an operation gives back, and the row that it leaves. -/
def Row.perform (r : Row α) : Operation α → Option α × Row α
  | .set i v => (none, r.set i v)
  | .push v => (none, r.push v)
  | .setLength n => (none, r.setLength n)
  | .remove i => (r.get? i, r.remove i)
  | .reverse => (none, r.reverse)
  | .shift => (r.get? 0, r.shift)
  | .unshift values => (none, r.unshift values)

/-- What an operation gives back, and the array that it leaves. -/
def Elements.perform (e : Elements α) : Operation α → Option α × Elements α
  | .set i v => (none, e.set i v)
  | .push v => (none, e.push v)
  | .setLength n => (none, e.setLength n)
  | .remove i => (e.get? i, e.remove i)
  | .reverse => (none, e.reverse)
  | .shift => e.shift
  | .unshift values => (none, e.unshift values)

/-- What an operation gives back, and the array in words that it leaves. -/
def Packed.perform (p : Packed α) : Operation α → Option α × Packed α
  | .set i v => (none, p.set (.ofNat i) v)
  | .push v => (none, p.push v)
  | .setLength n => (none, p.setLength (.ofNat n))
  | .remove i => (p.get? i, p.remove i)
  | .reverse => (none, p.reverse)
  | .shift => p.shift
  | .unshift values => (none, p.unshift values)

/-- What operations one after the other give back, and what they leave. -/
def performAll {σ : Type} (perform : σ → Operation α → Option α × σ) :
    σ → List (Operation α) → List (Option α) × σ
  | s, [] => ([], s)
  | s, o :: os =>
    ((perform s o).1 :: (performAll perform (perform s o).2 os).1,
      (performAll perform (perform s o).2 os).2)

/-- Operations one after the other, each within the bounds that are checked before it. -/
def Row.Allows : Row α → List (Operation α) → Prop
  | _, [] => True
  | r, o :: os => o.IsAllowed r.length ∧ Allows (r.perform o).2 os

end Perform

/-! ### What is seen of an array -/

/-- An array is in order, its length and its indices fit into words, and everything that is read
from it is what a row says. -/
structure Elements.Shows (e : Elements Value) (r : Row Value) : Prop where
  behind : ∀ p ∈ e.sparse, e.dense.size ≤ p.1
  below : ∀ p ∈ e.sparse, p.1 < e.length
  size_le : e.dense.size ≤ e.length
  length_le : e.length ≤ maxArrayLength
  length : e.length = r.length
  get? : ∀ i, e.get? i = r.get? i
  has : ∀ i, e.has i = true ↔ ∃ v, r.get? i = some v
  mem_presentFrom : ∀ n i v, (i, v) ∈ e.presentFrom n ↔ n ≤ i ∧ r.get? i = some v
  ascending_presentFrom : ∀ n, (e.presentFrom n).Pairwise (·.1 < ·.1)
  nextPresent? : ∀ n i v, e.nextPresent? n = some (i, v) ↔
    n ≤ i ∧ r.get? i = some v ∧ ∀ j, n ≤ j → j < i → r.get? j = none
  hasHolesFrom : ∀ n, e.hasHolesFrom n = true ↔ ∃ i, n ≤ i ∧ i < r.length ∧ r.get? i = none
  toList : e.toList = (List.range r.length).map fun i => (r.get? i).getD .undefined

theorem Elements.IsStored.shows {e : Elements Value} (h : e.IsStored)
    (hl : e.length ≤ maxArrayLength) : e.Shows e.row where
  behind := h.behind
  below := h.below
  size_le := h.size_le
  length_le := hl
  length := rfl
  get? := fun _ => rfl
  has := fun _ => Option.isSome_iff_exists
  mem_presentFrom := fun _ _ _ => h.mem_presentFrom
  ascending_presentFrom := h.ascending_presentFrom
  nextPresent? := fun _ _ _ => h.nextPresent?_eq_some_iff
  hasHolesFrom := fun _ => h.hasHolesFrom_iff
  toList := rfl

/-! ### One operation -/

section Step

variable {α : Type} {o : Operation α}

/-- **An operation within its bounds does to the array what it does to the row.**  It leaves the
array in order, and its length below the greatest one. -/
theorem Elements.perform_spec {e : Elements α} (h : e.IsStored) (hl : e.length ≤ maxArrayLength)
    (ho : o.IsAllowed e.length) :
    (e.perform o).2.IsStored ∧ (e.perform o).2.length ≤ maxArrayLength ∧
      ((e.perform o).1, (e.perform o).2.row) = e.row.perform o := by
  -- The length is that of the row, about which the bounds are.
  suffices hrow : (e.perform o).2.IsStored ∧ (e.row.perform o).2.length ≤ maxArrayLength ∧
      ((e.perform o).1, (e.perform o).2.row) = e.row.perform o by
    obtain ⟨hs, hle, heq⟩ := hrow
    rw [← heq] at hle
    exact ⟨hs, hle, heq⟩
  cases o with
  | set i v =>
    have hi : i < maxArrayLength := ho
    refine ⟨h.set i v, ?_, Prod.ext rfl (row_set h i v)⟩
    show max e.length (i + 1) ≤ maxArrayLength
    omega
  | push v =>
    have hlt : e.length < maxArrayLength := ho
    refine ⟨h.push v, ?_, Prod.ext rfl (row_push h v)⟩
    show max e.length (e.length + 1) ≤ maxArrayLength
    omega
  | setLength n => exact ⟨h.setLength n, ho, Prod.ext rfl (row_setLength h n)⟩
  | remove i => exact ⟨h.remove i, hl, Prod.ext rfl (row_remove _ i)⟩
  | reverse => exact ⟨h.reverse, hl, Prod.ext rfl (row_reverse h)⟩
  | shift =>
    refine ⟨h.shift, ?_, Prod.ext (shift_fst h) (row_shift h)⟩
    show e.length - 1 ≤ maxArrayLength
    omega
  | unshift values => exact ⟨h.unshift values, ho, Prod.ext rfl (row_unshift h values)⟩

/-- **An operation within its bounds does to words what it does to numbers.** -/
theorem Packed.unpack_perform {p : Packed α} (h : p.unpack.IsStored)
    (hl : p.unpack.length ≤ maxArrayLength) (ho : o.IsAllowed p.unpack.length) :
    ((p.perform o).1, (p.perform o).2.unpack) = p.unpack.perform o := by
  cases o with
  | set i v =>
    have hi : i < maxArrayLength := ho
    have hword : (UInt32.ofNat i).toNat = i := toNat_ofNat (Nat.le_of_lt hi)
    refine Prod.ext rfl ?_
    show (p.set (.ofNat i) v).unpack = p.unpack.set i v
    rw [unpack_set (by rw [hword]; exact hi), hword]
  | push v => exact Prod.ext rfl (unpack_push ho v)
  | setLength n =>
    refine Prod.ext rfl ?_
    show (p.setLength (.ofNat n)).unpack = p.unpack.setLength n
    rw [unpack_setLength, toNat_ofNat ho]
  | remove i => exact Prod.ext (get?_unpack p i).symm (unpack_remove p i)
  | reverse => exact Prod.ext rfl (unpack_reverse h hl)
  | shift => exact unpack_shift h hl
  | unshift values => exact Prod.ext rfl (unpack_unshift h hl ho)

end Step

/-! ### All operations -/

section Run

variable {α : Type}

/-- An array that is in order, with its row and its words, and operations one after the other. -/
theorem performAll_spec {e : Elements α} (h : e.IsStored) (hl : e.length ≤ maxArrayLength)
    {p : Packed α} (hp : p.unpack = e) {os : List (Operation α)} (hos : e.row.Allows os) :
    (performAll Elements.perform e os).2.IsStored ∧
      (performAll Elements.perform e os).2.length ≤ maxArrayLength ∧
      (performAll Elements.perform e os).1 = (performAll Row.perform e.row os).1 ∧
      (performAll Elements.perform e os).2.row = (performAll Row.perform e.row os).2 ∧
      (performAll Packed.perform p os).1 = (performAll Elements.perform e os).1 ∧
      (performAll Packed.perform p os).2.unpack = (performAll Elements.perform e os).2 := by
  induction os generalizing e p with
  | nil => exact ⟨h, hl, rfl, rfl, rfl, hp⟩
  | cons o os ih =>
    obtain ⟨ho, hrest⟩ := hos
    obtain ⟨hs, hle, heq⟩ := Elements.perform_spec h hl ho
    subst hp
    have hwords := Packed.unpack_perform h hl ho
    have hgiven : (p.perform o).1 = (p.unpack.perform o).1 := congrArg Prod.fst hwords
    have hrow : (p.unpack.perform o).2.row = (p.unpack.row.perform o).2 := congrArg Prod.snd heq
    rw [← hrow] at hrest
    obtain ⟨hs', hle', h1, h2, h3, h4⟩ := ih hs hle (congrArg Prod.snd hwords) hrest
    rw [hrow] at h1 h2
    refine ⟨hs', hle', ?_, h2, ?_, h4⟩
    · exact congrArg₂ List.cons (congrArg Prod.fst heq) h1
    · exact congrArg₂ List.cons hgiven h3

namespace Origin

variable {o : Origin α}

theorem isStored_elements (o : Origin α) : o.elements.IsStored := by
  cases o with
  | places ps => exact Elements.isStored_ofPlaces ps
  | length n => exact Elements.isStored_empty n false
  | entries n es => exact Elements.isStored_ofEntries n false es

theorem row_elements (o : Origin α) : o.elements.row = o.row := by
  cases o with
  | places ps => exact Elements.row_ofPlaces ps
  | length n => exact Elements.row_empty n false
  | entries n es => exact Elements.row_ofEntries n false es

/-- Entries below the greatest length do not make a row longer than that. -/
theorem length_foldl_set_le {es : List (Nat × α)} {r : Row α} (hr : r.length ≤ maxArrayLength)
    (hes : ∀ p ∈ es, p.1 < maxArrayLength) :
    (es.foldl (fun r (i, v) => r.set i v) r).length ≤ maxArrayLength := by
  induction es generalizing r with
  | nil => exact hr
  | cons p l ih =>
    have hp : p.1 < maxArrayLength := hes p List.mem_cons_self
    refine ih ?_ fun q hq => hes q (List.mem_cons_of_mem _ hq)
    show max r.length (p.1 + 1) ≤ maxArrayLength
    omega

theorem length_row_le (ho : o.IsAllowed) : o.row.length ≤ maxArrayLength := by
  cases o with
  | places ps => exact ho
  | length n => exact ho
  | entries n es => exact length_foldl_set_le ho.1 ho.2

theorem unpack_packed (ho : o.IsAllowed) : o.packed.unpack = o.elements := by
  cases o with
  | places ps =>
    show Elements.mk ps [] (UInt32.ofNat ps.size).toNat false = _
    rw [Packed.toNat_ofNat ho]
    rfl
  | length n =>
    show Elements.mk #[] [] (UInt32.ofNat n).toNat false = _
    rw [Packed.toNat_ofNat ho]
    rfl
  | entries n es =>
    show (Packed.ofEntries (.ofNat n) false es).unpack = _
    rw [Packed.unpack_ofEntries ho.2, Packed.toNat_ofNat ho.1]
    rfl

/-- **Whatever an array has been through, it shows the row that the same operations make of the same
beginning**, each operation gives back what it gives back for the row, and the array in words is the
one in numbers. -/
theorem history_shows (o : Origin Value) (os : List (Operation Value)) (ho : o.IsAllowed)
    (hos : o.row.Allows os) :
    (performAll Elements.perform o.elements os).2.Shows (performAll Row.perform o.row os).2 ∧
      (performAll Elements.perform o.elements os).1 = (performAll Row.perform o.row os).1 ∧
      (performAll Packed.perform o.packed os).1 = (performAll Elements.perform o.elements os).1 ∧
      (performAll Packed.perform o.packed os).2.unpack
        = (performAll Elements.perform o.elements os).2 ∧
      (∀ i, (performAll Packed.perform o.packed os).2.get? i
        = (performAll Elements.perform o.elements os).2.get? i) ∧
      ∀ n, (performAll Packed.perform o.packed os).2.presentFrom n
        = (performAll Elements.perform o.elements os).2.presentFrom n := by
  have hrow := row_elements o
  -- The callers' bounds are about the row, which is what the elements of the origin are.
  have hl : o.elements.length ≤ maxArrayLength := by
    have := length_row_le ho
    rw [← hrow] at this
    exact this
  rw [← hrow] at hos
  obtain ⟨hs, hle, hgiven, hshown, hwords, hunpack⟩ :=
    performAll_spec (isStored_elements o) hl (unpack_packed ho) hos
  rw [hrow] at hgiven hshown
  refine ⟨?_, hgiven, hwords, hunpack, fun i => ?_, fun n => ?_⟩
  · rw [← hshown]
    exact hs.shows hle
  · rw [← hunpack, Packed.get?_unpack]
  · rw [← hunpack] at hs hle ⊢
    rw [Packed.presentFrom_unpack hs hle]

/-- Two elements far apart are turned round and moved down and up; then the array is made as long as
it can be, and short again. -/
theorem history_shows_far_apart :
    (Origin.entries 5000 [(0, Value.null), (4000, .boolean true)]).IsAllowed ∧
      (Origin.entries 5000 [(0, Value.null), (4000, .boolean true)]).row.Allows
        [.reverse, .shift, .unshift [.undefined], .set 4294967294 .null, .remove 999,
          .setLength 2000, .push .null] ∧
      (performAll Elements.perform
        (Origin.entries 5000 [(0, Value.null), (4000, .boolean true)]).elements
        [.reverse, .shift, .unshift [.undefined], .set 4294967294 .null, .remove 999,
          .setLength 2000, .push .null]).2.Shows
      (performAll Row.perform
        (Origin.entries 5000 [(0, Value.null), (4000, .boolean true)]).row
        [.reverse, .shift, .unshift [.undefined], .set 4294967294 .null, .remove 999,
          .setLength 2000, .push .null]).2 := by
  have ho : (Origin.entries 5000 [(0, Value.null), (4000, .boolean true)]).IsAllowed :=
    ⟨by decide, by simp [maxArrayLength]⟩
  have hos : (Origin.entries 5000 [(0, Value.null), (4000, .boolean true)]).row.Allows
      [.reverse, .shift, .unshift [.undefined], .set 4294967294 .null, .remove 999,
        .setLength 2000, .push .null] := by
    refine ⟨trivial, trivial, ?_, ?_, trivial, ?_, ?_, trivial⟩
    · show 4999 + 1 ≤ maxArrayLength
      decide
    · show 4294967294 < maxArrayLength
      decide
    · show 2000 ≤ maxArrayLength
      decide
    · show 2000 < maxArrayLength
      decide
  exact ⟨ho, hos, (history_shows _ _ ho hos).1⟩

end Origin

end Run

end Scriptlet
