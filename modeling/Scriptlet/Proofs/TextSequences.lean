import Scriptlet.Proofs.CodeUnits

/-!
# Texts are sequences of code units

What a type of texts has to do is said once, for all types of texts, in terms of lists of code
units: a text has no contents but its units, and every operation answers what the same operation on
the lists answers.  An operation that may stop a program answers an option, and what it has to do
includes that it does not stop.

## Main definitions

* `StandsFirstAt` — where a list stands first in another one.
* `TextOps`, `TextOps.AreSequences` — operations on texts, and what they have to do.

## Main results

* `find?_standsFirst` — a search by offsets finds the first place.
* `Text.areSequences` — **texts are sequences of code units**.
-/

namespace Scriptlet

/-! ### Places -/

/-- `needle` stands in a list from offset `i` on. -/
def StandsAt {α : Type} (needle xs : List α) (i : Nat) : Prop :=
  i + needle.length ≤ xs.length ∧ needle <+: xs.drop i

/-- The first offset from `start` on where `needle` stands is `i`. -/
def StandsFirstAt {α : Type} (needle xs : List α) (start i : Nat) : Prop :=
  start ≤ i ∧ StandsAt needle xs i ∧ ∀ j, start ≤ j → j < i → ¬StandsAt needle xs j

section Places

variable {α : Type} {needle xs : List α} {start i : Nat} {p : Nat → Bool}

/-- The offsets up to the last one at which `needle` has room are all that need be tried. -/
theorem find?_standsFirst
    (hp : ∀ i, i + needle.length ≤ xs.length → (p i = true ↔ needle <+: xs.drop i)) :
    (List.range' start (xs.length + 1 - needle.length - start)).find? p = some i ↔
      StandsFirstAt needle xs start i := by
  -- The places tried are those where the needle still fits.
  rw [List.find?_range'_eq_some, List.mem_range'_1]
  constructor
  · rintro ⟨hi, ⟨hstart, hroom⟩, hfirst⟩
    have hfits : i + needle.length ≤ xs.length := by omega
    refine ⟨hstart, ⟨hfits, (hp i hfits).mp hi⟩, fun j hj hlt hstands => ?_⟩
    have hnot := hfirst j hj hlt
    rw [(hp j hstands.1).mpr hstands.2] at hnot
    exact absurd hnot Bool.false_ne_true
  · rintro ⟨hstart, ⟨hfits, hi⟩, hfirst⟩
    refine ⟨(hp i hfits).mpr hi, ⟨hstart, by omega⟩, fun j hj hlt => ?_⟩
    have hroom : j + needle.length ≤ xs.length := by omega
    rw [Bool.not_eq_true', Bool.eq_false_iff]
    exact fun hj' => hfirst j hj hlt ⟨hroom, (hp j hroom).mp hj'⟩

end Places

/-! ### Operations on texts -/

/-- Operations on a type of texts.  One that may stop the program answers `none` where it does. -/
structure TextOps (τ : Type) where
  /-- The code units. -/
  units : τ → List UInt16
  /-- The text with these code units. -/
  ofUnits : List UInt16 → τ
  /-- The number of code units. -/
  length : τ → Nat
  /-- The code unit at an offset. -/
  unitAt : τ → Nat → Option (Option UInt16)
  /-- The code unit at an offset as a text. -/
  charAt : τ → Nat → Option (Option τ)
  /-- The text between two offsets. -/
  substring : τ → Nat → Nat → Option τ
  /-- The first offset from a given one on where the second text stands in the first. -/
  indexOf : τ → τ → Nat → Option (Option Nat)
  /-- Concatenation. -/
  append : τ → τ → τ
  /-- Repetition. -/
  replicate : τ → Nat → τ
  /-- Equality. -/
  beq : τ → τ → Bool
  /-- Order. -/
  compare : τ → τ → Ordering
  /-- The code points, each as a text. -/
  codePoints : τ → List τ
  /-- Whether all surrogates are paired. -/
  isWellFormed : τ → Bool

/-- Texts are sequences of code units. -/
structure TextOps.AreSequences {τ : Type} (O : TextOps τ) : Prop where
  units_ofUnits : ∀ us, O.units (O.ofUnits us) = us
  ofUnits_units : ∀ s, O.beq (O.ofUnits (O.units s)) s = true
  length_eq : ∀ s, O.length s = (O.units s).length
  unitAt_eq : ∀ s i, O.unitAt s i = some (O.units s)[i]?
  charAt_eq : ∀ s i, ∃ r, O.charAt s i = some r ∧ r.map O.units = (O.units s)[i]?.map ([·])
  substring_eq : ∀ s i j, ∃ t, O.substring s i j = some t ∧
    O.units t = ((O.units s).take j).drop i
  indexOf_eq : ∀ s t start, ∃ r, O.indexOf s t start = some r ∧
    ∀ i, r = some i ↔ StandsFirstAt (O.units t) (O.units s) start i
  append_eq : ∀ s t, O.units (O.append s t) = O.units s ++ O.units t
  replicate_eq : ∀ s n, O.units (O.replicate s n) = (List.replicate n (O.units s)).flatten
  beq_iff : ∀ s t, O.beq s t = true ↔ O.units s = O.units t
  compare_eq : ∀ s t, O.compare s t = Ord.compare (O.units s) (O.units t)
  /-- Put together again, the code points are the text. -/
  codePoints_append : ∀ s, O.beq ((O.codePoints s).foldl O.append (O.ofUnits [])) s = true
  /-- A code point is one unit, or the two of a pair. -/
  codePoints_units : ∀ s, ∀ c ∈ O.codePoints s, (∃ u, O.units c = [u]) ∨
    ∃ u v, O.units c = [u, v] ∧ isHighSurrogate u = true ∧ isLowSurrogate v = true
  /-- No pair is split between two code points. -/
  codePoints_whole : ∀ s, (O.codePoints s).IsChain fun c d =>
    ∀ u ∈ (O.units c).getLast?, ∀ v ∈ (O.units d).head?,
      ¬(isHighSurrogate u = true ∧ isLowSurrogate v = true)
  isWellFormed_iff : ∀ s, O.isWellFormed s = true ↔ ∀ i, ¬LoneAt (O.units s) i

/-! ### Code points as texts -/

section CodePoints

variable {τ : Type} {O : TextOps τ} {s : τ}

/-- The code points come out as texts. -/
def TextOps.ShowsPoints (O : TextOps τ) (s : τ) : Prop :=
  (O.codePoints s).map O.units = (pointsOf (O.units s)).map pointUnits

theorem TextOps.units_foldl_append
    (happend : ∀ s t, O.units (O.append s t) = O.units s ++ O.units t) (s : τ) (cs : List τ) :
    O.units (cs.foldl O.append s) = O.units s ++ (cs.map O.units).flatten := by
  induction cs generalizing s with
  | nil => exact (List.append_nil _).symm
  | cons c cs ih =>
    rw [List.foldl_cons, ih, happend, List.map_cons, List.flatten_cons, List.append_assoc]

/-- The units of the points are the units. -/
theorem TextOps.ShowsPoints.flatten (h : O.ShowsPoints s) :
    ((O.codePoints s).map O.units).flatten = O.units s := by
  rw [h, ← List.flatMap_def, flatMap_pointsOf]

/-- The text of a point is one unit or a pair of halves. -/
theorem TextOps.ShowsPoints.cases (h : O.ShowsPoints s) : ∀ c ∈ O.codePoints s,
    (∃ u, O.units c = [u]) ∨
      ∃ u v, O.units c = [u, v] ∧ isHighSurrogate u = true ∧ isLowSurrogate v = true := by
  intro c hc
  have hunits : O.units c ∈ (pointsOf (O.units s)).map pointUnits :=
    h ▸ List.mem_map_of_mem hc
  obtain ⟨p, hp, hpoint⟩ := List.mem_map.mp hunits
  rw [← hpoint]
  obtain ⟨u, hu, -⟩ | ⟨u, v, huv, hhigh, hlow, -⟩ := pointUnits_cases (pointsOf_lt _ p hp)
  · exact .inl ⟨u, hu⟩
  · exact .inr ⟨u, v, huv, hhigh, hlow⟩

/-- Points that follow each other do not make a pair. -/
theorem TextOps.ShowsPoints.whole (h : O.ShowsPoints s) :
    (O.codePoints s).IsChain fun c d => ∀ u ∈ (O.units c).getLast?, ∀ v ∈ (O.units d).head?,
      ¬(isHighSurrogate u = true ∧ isLowSurrogate v = true) := by
  rw [← List.isChain_map (R := fun us vs : List UInt16 => ∀ u ∈ us.getLast?, ∀ v ∈ vs.head?,
    ¬(isHighSurrogate u = true ∧ isLowSurrogate v = true)), h, List.isChain_map]
  refine (isJoined_pointsOf (O.units s)).imp_of_mem_imp fun p q hp hq hpq u hu v hv hpair => hpq ?_
  exact ⟨isLead_of_getLast (pointsOf_lt _ p hp) hu hpair.1,
    isTrail_of_head (pointsOf_lt _ q hq) hv hpair.2⟩

/-- The points of a text put together are the text. -/
theorem TextOps.ShowsPoints.append (h : O.ShowsPoints s)
    (happend : ∀ s t, O.units (O.append s t) = O.units s ++ O.units t)
    (hnil : O.units (O.ofUnits []) = []) :
    O.units ((O.codePoints s).foldl O.append (O.ofUnits [])) = O.units s := by
  rw [TextOps.units_foldl_append happend, hnil, List.nil_append, h.flatten]

end CodePoints

/-! ### Texts -/

namespace Text

section Lists

variable {s t needle : Text} {i j n : Nat}

/-- Texts are the same if their units are. -/
theorem eq_iff_units : s = t ↔ s.units.toList = t.units.toList := by
  cases s
  cases t
  rw [Array.toList_inj, mk.injEq]

theorem map_charAt? (s : Text) (i : Nat) :
    (s.charAt? i).map (fun t => t.units.toList) = s.units.toList[i]?.map ([·]) := by
  rw [charAt?, Option.map_map, unitAt?, Array.getElem?_toList]
  rfl

/-- A substring is cut out of the units. -/
theorem toList_substring (s : Text) (i j : Nat) :
    (s.substring i j).units.toList = (s.units.toList.take j).drop i := by
  rw [substring, Array.toList_extract, List.extract_eq_take_drop, List.drop_take]

/-- The comparison of a piece goes through its units from front to back. -/
theorem agreesFrom_iff {count k : Nat} :
    t.agreesFrom needle i count k = true ↔
      ∀ m < count, t.units[i + k + m]? = needle.units[k + m]? := by
  induction count generalizing k with
  | zero => exact iff_of_true rfl (fun m hm => absurd hm (Nat.not_lt_zero m))
  | succ count ih =>
    rw [agreesFrom, Bool.and_eq_true, beq_iff_eq, ih]
    constructor
    · rintro ⟨hfirst, hrest⟩ (- | m) hm
      · exact hfirst
      · have := hrest m (by omega)
        rwa [show i + (k + 1) + m = i + k + (m + 1) by omega,
          show k + 1 + m = k + (m + 1) by omega] at this
    · intro h
      refine ⟨h 0 (by omega), fun m hm => ?_⟩
      rw [show i + (k + 1) + m = i + k + (m + 1) by omega,
        show k + 1 + m = k + (m + 1) by omega]
      exact h (m + 1) (by omega)

theorem occursAt_iff :
    t.occursAt needle i = true ↔ StandsAt needle.units.toList t.units.toList i := by
  rw [occursAt, Bool.and_eq_true, decide_eq_true_eq, agreesFrom_iff, StandsAt, Array.length_toList,
    Array.length_toList]
  refine and_congr_right fun _ => ?_
  rw [List.prefix_iff_getElem?]
  refine forall_congr' fun m => ⟨fun h hm => ?_, fun h hm => ?_⟩
  · rw [Array.length_toList] at hm
    rw [List.getElem?_drop, Array.getElem?_toList, Array.getElem_toList]
    rw [← Array.getElem?_eq_getElem hm]
    simpa only [Nat.add_zero, Nat.zero_add] using h hm
  · have := h (by rwa [Array.length_toList])
    rw [List.getElem?_drop, Array.getElem?_toList, Array.getElem_toList] at this
    rw [Nat.add_zero, Nat.zero_add, this]
    exact (Array.getElem?_eq_getElem hm).symm

/-- The search tries one place after the other. -/
theorem indexFrom?_eq {count : Nat} :
    t.indexFrom? needle count i = (List.range' i count).find? (t.occursAt needle) := by
  induction count generalizing i with
  | zero => rfl
  | succ count ih =>
    rw [indexFrom?, List.range'_succ, List.find?_cons, ih]
    cases t.occursAt needle i <;> rfl

/-- The search finds the first place. -/
theorem indexOf?_eq_some {start : Nat} :
    t.indexOf? needle start = some i ↔
      StandsFirstAt needle.units.toList t.units.toList start i := by
  rw [indexOf?, indexFrom?_eq, ← find?_standsFirst fun _ h => occursAt_iff.trans (and_iff_right h)]
  rfl

theorem toList_replicate (s : Text) (n : Nat) :
    (s.replicate n).units.toList = (List.replicate n s.units.toList).flatten := by
  have hfold (a : Array UInt16) : (n.fold (fun _ _ acc => acc ++ s.units) a).toList =
      a.toList ++ (List.replicate n s.units.toList).flatten := by
    induction n with
    | zero => exact (List.append_nil _).symm
    | succ n ih =>
      rw [Nat.fold_succ, Array.toList_append, ih, List.replicate_succ', List.flatten_append,
        List.flatten_singleton, List.append_assoc]
  rw [replicate]
  split
  next hempty =>
    rw [isEmpty, Array.isEmpty_iff] at hempty
    rw [hempty]
    exact (List.flatten_replicate_nil).symm
  next => exact hfold _

theorem compare_cons_cons (u v : UInt16) (us vs : List UInt16) :
    Ord.compare (u :: us) (v :: vs) =
      if u < v then .lt else if v < u then .gt else Ord.compare us vs := by
  have hcons : Ord.compare (u :: us) (v :: vs) =
      (compareOfLessAndEq u v).then (Ord.compare us vs) := List.compareLex_cons_cons
  rw [hcons, compareOfLessAndEq]
  by_cases hlt : u < v
  · rw [if_pos hlt, if_pos hlt]
    rfl
  by_cases heq : u = v
  · rw [if_neg hlt, if_pos heq, if_neg hlt, if_neg (heq ▸ hlt)]
    rfl
  · have hgt : v < u := UInt16.lt_of_le_of_ne (UInt16.not_lt.mp hlt) (Ne.symm heq)
    rw [if_neg hlt, if_neg heq, if_neg hlt, if_pos hgt]
    rfl

theorem drop_of_some {xs : Array UInt16} {u : UInt16} (h : xs[i]? = some u) :
    xs.toList.drop i = u :: xs.toList.drop (i + 1) := by
  rw [List.drop_eq_getElem?_toList_append, Array.getElem?_toList, h]
  rfl

theorem drop_of_none {xs : Array UInt16} (h : xs[i]? = none) : xs.toList.drop i = [] := by
  rw [Array.getElem?_eq_none_iff] at h
  exact List.drop_eq_nil_of_le h

/-- The comparison ends before its fuel does. -/
theorem compareGo_eq {fuel : Nat} (hi : i ≤ s.length) (hfuel : s.length < i + fuel) :
    compare.go s t fuel i = Ord.compare (s.units.toList.drop i) (t.units.toList.drop i) := by
  induction fuel generalizing i with
  | zero => omega
  | succ fuel ih =>
    rw [compare.go]
    -- The texts agree up to here, so the rest decides; the one that ends first comes first.
    cases hs : s.units[i]? with
    | none =>
      cases ht : t.units[i]? with
      | none =>
        rw [drop_of_none hs, drop_of_none ht]
        exact List.compareLex_nil_nil.symm
      | some v =>
        rw [drop_of_none hs, drop_of_some ht]
        exact List.compareLex_nil_cons.symm
    | some u =>
      have hlt : i < s.length := (Array.getElem?_eq_some_iff.mp hs).choose
      cases ht : t.units[i]? with
      | none =>
        rw [drop_of_some hs, drop_of_none ht]
        exact List.compareLex_cons_nil.symm
      | some v => rw [drop_of_some hs, drop_of_some ht, compare_cons_cons, ih hlt (by omega)]

/-- Texts are compared unit by unit, the shorter one first. -/
theorem compare_eq (s t : Text) : s.compare t = Ord.compare s.units.toList t.units.toList := by
  rw [compare, compareGo_eq (Nat.zero_le _) (by omega)]
  rfl

theorem decodeUnits_eq (us : List UInt16) (acc : Array Nat) :
    (decodeUnits acc us).toList = acc.toList ++ pointsOf us := by
  induction us using pointsOf.induct generalizing acc with
  | case1 => exact (List.append_nil _).symm
  | case2 u => rw [decodeUnits, pointsOf, Array.toList_push]
  | case3 u v rest h ih =>
    rw [decodeUnits, pointsOf, if_pos h, if_pos h, ih, Array.toList_push, List.append_assoc,
      List.singleton_append]
  | case4 u v rest h ih =>
    rw [decodeUnits, pointsOf, if_neg h, if_neg h, ih, Array.toList_push, List.append_assoc,
      List.singleton_append]

/-- The points are those that the units decode to. -/
theorem toList_codePoints (s : Text) : s.codePoints.toList = pointsOf s.units.toList := by
  rw [codePoints, decodeUnits_eq, List.nil_append]

/-- The characters that are read are those of the code points. -/
theorem toList_toString (s : Text) : s.toString.toList = s.codePoints.toList.map charOfPoint := by
  have hall : ∀ (ps : List Nat) (s : String),
      (ps.foldl (fun s p => s.push (charOfPoint p)) s).toList = s.toList ++ ps.map charOfPoint := by
    intro ps
    induction ps with
    | nil => exact fun s => (List.append_nil _).symm
    | cons p ps ih =>
      intro s
      rw [List.foldl_cons, ih, String.toList_push, List.append_assoc]
      rfl
  rw [toString, ← Array.foldl_toList]
  exact hall _ ""

theorem toList_pushPoint (s : Text) (p : Nat) :
    (s.pushPoint p).units.toList = s.units.toList ++ pointUnits p := by
  unfold pushPoint pointUnits
  split
  · rw [Array.toList_push]
  · rw [Array.toList_push, Array.toList_push, List.append_assoc]
    rfl

/-- A text is well formed if none of its units stands alone. -/
theorem isWellFormed_iff (s : Text) :
    s.isWellFormed = true ↔ ∀ i, ¬LoneAt s.units.toList i := by
  rw [isWellFormed, ← Array.all_toList, toList_codePoints, ← not_exists, exists_loneAt_iff,
    List.all_eq_true]
  push Not
  simp only [Bool.not_eq_true', Bool.not_eq_true]

end Lists

/-- What texts can do. -/
def ops : TextOps Text where
  units s := s.units.toList
  ofUnits := ofUnits
  length := length
  unitAt s i := some (s.unitAt? i)
  charAt s i := some (s.charAt? i)
  substring s i j := some (s.substring i j)
  indexOf s t start := some (s.indexOf? t start)
  append := append
  replicate := replicate
  beq s t := s == t
  compare := compare
  codePoints s := s.codePoints.toList.map empty.pushPoint
  isWellFormed := isWellFormed

theorem ops_showsPoints (s : Text) : ops.ShowsPoints s := by
  change (s.codePoints.toList.map empty.pushPoint).map (fun t => t.units.toList) = _
  rw [toList_codePoints, List.map_map]
  refine List.map_congr_left fun p _ => ?_
  exact toList_pushPoint empty p

/-- **Texts are sequences of code units.** -/
theorem areSequences : ops.AreSequences where
  units_ofUnits _ := rfl
  ofUnits_units _ := beq_self_eq_true _
  length_eq _ := Array.length_toList.symm
  unitAt_eq _ _ := congrArg some Array.getElem?_toList.symm
  charAt_eq s i := ⟨_, rfl, map_charAt? s i⟩
  substring_eq s i j := ⟨_, rfl, toList_substring s i j⟩
  indexOf_eq _ _ _ := ⟨_, rfl, fun _ => indexOf?_eq_some⟩
  append_eq _ _ := Array.toList_append
  replicate_eq := toList_replicate
  beq_iff _ _ := beq_iff_eq.trans eq_iff_units
  compare_eq := compare_eq
  codePoints_append s := beq_iff_eq.mpr (eq_iff_units.mpr
    ((ops_showsPoints s).append (fun _ _ => Array.toList_append) rfl))
  codePoints_units s := (ops_showsPoints s).cases
  codePoints_whole s := (ops_showsPoints s).whole
  isWellFormed_iff := isWellFormed_iff

end Text

end Scriptlet
