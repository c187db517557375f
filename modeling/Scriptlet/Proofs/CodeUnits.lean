import Mathlib.Data.List.Chain
import Scriptlet.Text.Basic

/-!
# Texts as sequences of code units

Texts are handled unit by unit and point by point: a high surrogate and a low one behind it are one
code point, every other unit is one by itself.  As no unit is both, it can be seen from two units
alone whether they belong together, and the points of a text give back its units.

## Main definitions

* `pointUnits`, `pointsOf` — from code points to code units and back.
* `IsJoined` — code points among which no two halves of a pair stand side by side.
* `joinPoint` — one more code point, joined to the half of a pair in front of it.
* `LoneAt` — where a surrogate belongs to no pair.

## Main results

* `flatMap_pointsOf`, `pointsOf_flatMap` — units and points determine each other.
* `flatMap_joinPoint` — joined or not, points that stand one behind the other have the same units.
* `exists_loneAt_iff` — **a text has a lone surrogate where a code point is one**.
-/

namespace Scriptlet

/-! ### Surrogates -/

section Surrogates

variable {u v : UInt16}

theorem isHighSurrogate_iff : isHighSurrogate u = true ↔ 0xD800 ≤ u.toNat ∧ u.toNat < 0xDC00 := by
  unfold isHighSurrogate
  rw [Bool.and_eq_true, decide_eq_true_eq, decide_eq_true_eq, UInt16.le_iff_toNat_le,
    UInt16.lt_iff_toNat_lt]
  rfl

theorem isLowSurrogate_iff : isLowSurrogate u = true ↔ 0xDC00 ≤ u.toNat ∧ u.toNat < 0xE000 := by
  unfold isLowSurrogate
  rw [Bool.and_eq_true, decide_eq_true_eq, decide_eq_true_eq, UInt16.le_iff_toNat_le,
    UInt16.lt_iff_toNat_lt]
  rfl

/-- No unit is both halves. -/
theorem not_high_and_low (hhigh : isHighSurrogate u = true) (hlow : isLowSurrogate u = true) :
    False := by
  rw [isHighSurrogate_iff] at hhigh
  rw [isLowSurrogate_iff] at hlow
  omega

theorem isSurrogatePoint_iff {p : Nat} :
    Text.isSurrogatePoint p = true ↔ 0xD800 ≤ p ∧ p < 0xE000 := by
  rw [Text.isSurrogatePoint, Bool.and_eq_true, decide_eq_true_eq, decide_eq_true_eq]

theorem isSurrogatePoint_toNat :
    Text.isSurrogatePoint u.toNat = (isHighSurrogate u || isLowSurrogate u) := by
  rw [Bool.eq_iff_iff, Bool.or_eq_true, isHighSurrogate_iff, isLowSurrogate_iff,
    isSurrogatePoint_iff]
  omega

end Surrogates

/-! ### Code points -/

/-- The code units of a code point. -/
def pointUnits (p : Nat) : List UInt16 :=
  if p < 0x10000 then [p.toUInt16]
  else [(0xD800 + (p - 0x10000) / 0x400).toUInt16, (0xDC00 + (p - 0x10000) % 0x400).toUInt16]

/-- The code points of units: a high surrogate and a low one behind it are one. -/
def pointsOf : List UInt16 → List Nat
  | [] => []
  | [u] => [u.toNat]
  | u :: v :: rest =>
    if isHighSurrogate u && isLowSurrogate v then surrogatePair u v :: pointsOf rest
    else u.toNat :: pointsOf (v :: rest)

/-- The code point opens a pair. -/
def isLead (p : Nat) : Bool := 0xD800 ≤ p && p < 0xDC00

/-- The code point closes a pair. -/
def isTrail (p : Nat) : Bool := 0xDC00 ≤ p && p < 0xE000

/-- No two halves of a pair stand side by side. -/
def IsJoined (ps : List Nat) : Prop := ps.IsChain fun p q => ¬(isLead p = true ∧ isTrail q = true)

section Points

variable {u v : UInt16} {p : Nat} {ps qs : List Nat} {us : List UInt16}

theorem pointUnits_toNat (u : UInt16) : pointUnits u.toNat = [u] := by
  rw [pointUnits, if_pos u.toNat_lt]
  exact congrArg ([·]) (UInt16.ofNat_toNat)

theorem isLead_iff : isLead p = true ↔ 0xD800 ≤ p ∧ p < 0xDC00 := by
  rw [isLead, Bool.and_eq_true, decide_eq_true_eq, decide_eq_true_eq]

theorem isTrail_iff : isTrail p = true ↔ 0xDC00 ≤ p ∧ p < 0xE000 := by
  rw [isTrail, Bool.and_eq_true, decide_eq_true_eq, decide_eq_true_eq]

theorem isLead_toNat : isLead u.toNat = isHighSurrogate u := by
  rw [Bool.eq_iff_iff, isHighSurrogate_iff, isLead_iff]

theorem isTrail_toNat : isTrail u.toNat = isLowSurrogate u := by
  rw [Bool.eq_iff_iff, isLowSurrogate_iff, isTrail_iff]

/-- A pair is the units of its point. -/
theorem pointUnits_surrogatePair (hu : isHighSurrogate u = true) (hv : isLowSurrogate v = true) :
    pointUnits (surrogatePair u v) = [u, v] := by
  rw [isHighSurrogate_iff] at hu
  rw [isLowSurrogate_iff] at hv
  have hhigh : 0xD800 + (surrogatePair u v - 0x10000) / 0x400 = u.toNat := by
    unfold surrogatePair
    omega
  have hlow : 0xDC00 + (surrogatePair u v - 0x10000) % 0x400 = v.toNat := by
    unfold surrogatePair
    omega
  rw [pointUnits, if_neg (by unfold surrogatePair; omega), hhigh, hlow]
  exact congrArg₂ (fun x y => [x, y]) UInt16.ofNat_toNat UInt16.ofNat_toNat

theorem surrogatePair_bounds (hu : isHighSurrogate u = true) (hv : isLowSurrogate v = true) :
    0x10000 ≤ surrogatePair u v ∧ surrogatePair u v < 0x110000 := by
  rw [isHighSurrogate_iff] at hu
  rw [isLowSurrogate_iff] at hv
  unfold surrogatePair
  omega

/-- A code point is one unit, or the two of a pair. -/
theorem pointUnits_cases (hp : p < 0x110000) :
    (∃ u, pointUnits p = [u] ∧ p = u.toNat) ∨
      ∃ u v, pointUnits p = [u, v] ∧ isHighSurrogate u = true ∧ isLowSurrogate v = true ∧
        p = surrogatePair u v := by
  by_cases h : p < 0x10000
  · have hsize : p < UInt16.size := by
      unfold UInt16.size
      omega
    refine .inl ⟨p.toUInt16, by rw [pointUnits, if_pos h], ?_⟩
    rw [Nat.toUInt16, UInt16.toNat_ofNat_of_lt' hsize]
  · have hsizes : 0xD800 + (p - 0x10000) / 0x400 < UInt16.size ∧
        0xDC00 + (p - 0x10000) % 0x400 < UInt16.size := by
      unfold UInt16.size
      omega
    have hhigh := UInt16.toNat_ofNat_of_lt' hsizes.1
    have hlow := UInt16.toNat_ofNat_of_lt' hsizes.2
    refine .inr ⟨_, _, by rw [pointUnits, if_neg h], ?_, ?_, ?_⟩
    · rw [isHighSurrogate_iff, Nat.toUInt16, hhigh]
      omega
    · rw [isLowSurrogate_iff, Nat.toUInt16, hlow]
      omega
    · unfold surrogatePair Nat.toUInt16
      omega

/-- **The points of units give back the units.** -/
theorem flatMap_pointsOf (us : List UInt16) : (pointsOf us).flatMap pointUnits = us := by
  induction us using pointsOf.induct with
  | case1 => rfl
  | case2 u => rw [pointsOf, List.flatMap_singleton, pointUnits_toNat]
  | case3 u v rest h ih =>
    rw [Bool.and_eq_true] at h
    rw [pointsOf, if_pos (by rw [h.1, h.2]; rfl), List.flatMap_cons, ih,
      pointUnits_surrogatePair h.1 h.2]
    rfl
  | case4 u v rest h ih =>
    rw [pointsOf, if_neg h, List.flatMap_cons, ih, pointUnits_toNat]
    rfl

theorem pointsOf_cons_pair (hu : isHighSurrogate u = true) (hv : isLowSurrogate v = true) :
    pointsOf (u :: v :: us) = surrogatePair u v :: pointsOf us := by
  rw [pointsOf, if_pos (by rw [hu, hv]; rfl)]

/-- A unit without its other half behind it is a point by itself. -/
theorem pointsOf_cons (h : isHighSurrogate u = true → ∀ v ∈ us.head?, isLowSurrogate v = false) :
    pointsOf (u :: us) = u.toNat :: pointsOf us := by
  cases us with
  | nil => rfl
  | cons v us =>
    rw [pointsOf, if_neg]
    intro hpair
    rw [Bool.and_eq_true] at hpair
    rw [h hpair.1 v rfl] at hpair
    exact Bool.false_ne_true hpair.2

theorem pointsOf_lt (us : List UInt16) : ∀ p ∈ pointsOf us, p < 0x110000 := by
  induction us using pointsOf.induct with
  | case1 => exact fun p hp => nomatch hp
  | case2 u =>
    intro p hp
    rw [pointsOf, List.mem_singleton] at hp
    have := u.toNat_lt
    omega
  | case3 u v rest h ih =>
    rw [Bool.and_eq_true] at h
    rw [pointsOf_cons_pair h.1 h.2]
    exact List.forall_mem_cons.mpr ⟨(surrogatePair_bounds h.1 h.2).2, ih⟩
  | case4 u v rest h ih =>
    rw [pointsOf, if_neg h]
    have := u.toNat_lt
    exact List.forall_mem_cons.mpr ⟨by omega, ih⟩

/-- The points begin with the second half of a pair only if the units do. -/
theorem head_pointsOf (hp : p ∈ (pointsOf us).head?) (htrail : isTrail p = true) :
    ∃ v ∈ us.head?, isLowSurrogate v = true := by
  match us with
  | [u] =>
    cases hp
    exact ⟨u, rfl, by rwa [isTrail_toNat] at htrail⟩
  | u :: v :: rest =>
    by_cases h : (isHighSurrogate u && isLowSurrogate v) = true
    · rw [pointsOf, if_pos h, List.head?_cons, Option.mem_some_iff] at hp
      rw [Bool.and_eq_true] at h
      have hlarge := (surrogatePair_bounds h.1 h.2).1
      rw [isTrail_iff] at htrail
      omega
    · rw [pointsOf, if_neg h, List.head?_cons, Option.mem_some_iff] at hp
      exact ⟨u, rfl, by rwa [← hp, isTrail_toNat] at htrail⟩

/-- Halves that stand side by side are read as one point. -/
theorem isJoined_pointsOf (us : List UInt16) : IsJoined (pointsOf us) := by
  induction us using pointsOf.induct with
  | case1 => exact .nil
  | case2 u => exact .singleton _
  | case3 u v rest h ih =>
    rw [Bool.and_eq_true] at h
    rw [pointsOf_cons_pair h.1 h.2]
    refine List.isChain_cons.mpr ⟨fun q _ hpair => ?_, ih⟩
    have hlarge := (surrogatePair_bounds h.1 h.2).1
    rw [isLead_iff] at hpair
    omega
  | case4 u v rest h ih =>
    rw [pointsOf, if_neg h]
    refine List.isChain_cons.mpr ⟨fun q hq hpair => h ?_, ih⟩
    obtain ⟨w, hw, hlow⟩ := head_pointsOf hq hpair.2
    cases hw
    rw [← isLead_toNat, hpair.1, hlow]
    rfl

theorem pointUnits_ne_nil (hp : p < 0x110000) : pointUnits p ≠ [] := by
  obtain ⟨u, hu, -⟩ | ⟨u, v, hu, -⟩ := pointUnits_cases hp
  · exact hu ▸ List.cons_ne_nil _ _
  · exact hu ▸ List.cons_ne_nil _ _

/-- A point ends with the first half of a pair only if it is that half. -/
theorem isLead_of_getLast (hp : p < 0x110000) (hu : u ∈ (pointUnits p).getLast?)
    (hhigh : isHighSurrogate u = true) : isLead p = true := by
  obtain ⟨w, hw, hp⟩ | ⟨w, x, hw, -, hlow, -⟩ := pointUnits_cases hp
  · rw [hw] at hu
    obtain rfl : w = u := Option.some.inj hu
    rw [hp, isLead_toNat, hhigh]
  · rw [hw] at hu
    obtain rfl : x = u := Option.some.inj hu
    exact (not_high_and_low hhigh hlow).elim

/-- A point begins with the second half of a pair only if it is that half. -/
theorem isTrail_of_head (hp : p < 0x110000) (hv : v ∈ (pointUnits p).head?)
    (hlow : isLowSurrogate v = true) : isTrail p = true := by
  obtain ⟨w, hw, hp⟩ | ⟨w, x, hw, hhigh, -, -⟩ := pointUnits_cases hp
  · rw [hw] at hv
    cases hv
    rw [hp, isTrail_toNat, hlow]
  · rw [hw] at hv
    cases hv
    exact (not_high_and_low hhigh hlow).elim

/-- The units begin with the second half of a pair only if the points do. -/
theorem head_flatMap_pointUnits (hps : ∀ p ∈ ps, p < 0x110000)
    (hv : v ∈ (ps.flatMap pointUnits).head?) (hlow : isLowSurrogate v = true) :
    ∃ p ∈ ps.head?, isTrail p = true := by
  cases ps with
  | nil => nomatch hv
  | cons p ps =>
    have hp := hps p List.mem_cons_self
    refine ⟨p, rfl, isTrail_of_head hp ?_ hlow⟩
    rwa [List.flatMap_cons, List.head?_append_of_ne_nil _ (pointUnits_ne_nil hp)] at hv

/-- **The units of points give back the points**, if no halves stand side by side. -/
theorem pointsOf_flatMap (hps : ∀ p ∈ ps, p < 0x110000) (hjoined : IsJoined ps) :
    pointsOf (ps.flatMap pointUnits) = ps := by
  induction ps with
  | nil => rfl
  | cons p ps ih =>
    have hrest := fun q hq => hps q (List.mem_cons_of_mem p hq)
    obtain ⟨hhead, htail⟩ := List.isChain_cons.mp hjoined
    have ih := ih hrest htail
    rw [List.flatMap_cons]
    obtain ⟨u, hu, hp⟩ | ⟨u, v, hu, hhigh, hlow, hp⟩ :=
      pointUnits_cases (hps p List.mem_cons_self)
    · rw [hu, List.singleton_append, pointsOf_cons, ih, hp]
      intro hhigh v hv
      rw [Bool.eq_false_iff]
      intro hlow
      obtain ⟨q, hq, htrail⟩ := head_flatMap_pointUnits hrest hv hlow
      exact hhead q hq ⟨by rw [hp, isLead_toNat, hhigh], htrail⟩
    · rw [hu, List.cons_append, List.singleton_append, pointsOf_cons_pair hhigh hlow, ih, hp]

/-- Points with the same units are the same. -/
theorem eq_of_flatMap_pointUnits (hps : ∀ p ∈ ps, p < 0x110000) (hjoined : IsJoined ps)
    (h : ps.flatMap pointUnits = us) : ps = pointsOf us := by
  rw [← h, pointsOf_flatMap hps hjoined]

end Points

/-! ### Joining points -/

/-- Puts a code point behind others: the second half of a pair becomes one point with a first half
that it comes to stand behind. -/
def joinPoint (ps : List Nat) (p : Nat) : List Nat :=
  match ps.getLast? with
  | some q =>
    if isLead q && isTrail p then ps.dropLast ++ [surrogatePair q.toUInt16 p.toUInt16]
    else ps ++ [p]
  | none => [p]

section Joining

variable {p q : Nat} {ps : List Nat}

theorem toNat_toUInt16 (hp : p < 0x10000) : p.toUInt16.toNat = p := by
  have hsize : p < UInt16.size := by
    unfold UInt16.size
    omega
  rw [Nat.toUInt16, UInt16.toNat_ofNat_of_lt' hsize]

theorem isHighSurrogate_toUInt16 (hq : isLead q = true) : isHighSurrogate q.toUInt16 = true := by
  have hbounds := isLead_iff.mp hq
  rw [← isLead_toNat, toNat_toUInt16 (by omega), hq]

theorem isLowSurrogate_toUInt16 (hp : isTrail p = true) : isLowSurrogate p.toUInt16 = true := by
  have hbounds := isTrail_iff.mp hp
  rw [← isTrail_toNat, toNat_toUInt16 (by omega), hp]

theorem pointUnits_of_lt (hp : p < 0x10000) : pointUnits p = [p.toUInt16] := by
  rw [pointUnits, if_pos hp]

theorem joinPoint_nil : joinPoint [] p = [p] := rfl

theorem joinPoint_concat_pair (hq : isLead q = true) (hp : isTrail p = true) :
    joinPoint (ps ++ [q]) p = ps ++ [surrogatePair q.toUInt16 p.toUInt16] := by
  rw [joinPoint, List.getLast?_concat, List.dropLast_concat]
  exact if_pos (by rw [hq, hp]; rfl)

theorem joinPoint_concat (h : ¬(isLead q = true ∧ isTrail p = true)) :
    joinPoint (ps ++ [q]) p = ps ++ [q] ++ [p] := by
  rw [joinPoint, List.getLast?_concat]
  exact if_neg (by rwa [Bool.and_eq_true])

/-- However points are joined, their units stand one behind the other. -/
theorem flatMap_joinPoint (ps : List Nat) (p : Nat) :
    (joinPoint ps p).flatMap pointUnits = ps.flatMap pointUnits ++ pointUnits p := by
  obtain rfl | ⟨qs, q, rfl⟩ := List.eq_nil_or_concat ps
  · rw [joinPoint_nil, List.flatMap_singleton]
    rfl
  rw [List.concat_eq_append]
  by_cases h : isLead q = true ∧ isTrail p = true
  · have hlead := isLead_iff.mp h.1
    have htrail := isTrail_iff.mp h.2
    rw [joinPoint_concat_pair h.1 h.2, List.flatMap_append, List.flatMap_append,
      List.flatMap_singleton, List.flatMap_singleton,
      pointUnits_surrogatePair (isHighSurrogate_toUInt16 h.1) (isLowSurrogate_toUInt16 h.2),
      pointUnits_of_lt (p := q) (by omega), pointUnits_of_lt (p := p) (by omega),
      List.append_assoc]
    rfl
  · rw [joinPoint_concat h, List.flatMap_append, List.flatMap_singleton]

theorem joinPoint_lt (hps : ∀ q ∈ ps, q < 0x110000) (hp : p < 0x110000) :
    ∀ q ∈ joinPoint ps p, q < 0x110000 := by
  obtain rfl | ⟨qs, q, rfl⟩ := List.eq_nil_or_concat ps
  · exact List.forall_mem_singleton.mpr hp
  rw [List.concat_eq_append] at hps ⊢
  by_cases h : isLead q = true ∧ isTrail p = true
  · rw [joinPoint_concat_pair h.1 h.2]
    refine List.forall_mem_append.mpr ⟨(List.forall_mem_append.mp hps).1, ?_⟩
    exact List.forall_mem_singleton.mpr
      (surrogatePair_bounds (isHighSurrogate_toUInt16 h.1) (isLowSurrogate_toUInt16 h.2)).2
  · rw [joinPoint_concat h]
    exact List.forall_mem_append.mpr ⟨hps, List.forall_mem_singleton.mpr hp⟩

theorem isJoined_joinPoint (hjoined : IsJoined ps) (p : Nat) : IsJoined (joinPoint ps p) := by
  obtain rfl | ⟨qs, q, rfl⟩ := List.eq_nil_or_concat ps
  · exact .singleton p
  rw [List.concat_eq_append] at hjoined ⊢
  by_cases h : isLead q = true ∧ isTrail p = true
  · rw [joinPoint_concat_pair h.1 h.2]
    refine List.isChain_append.mpr ⟨hjoined.left_of_append, .singleton _, ?_⟩
    intro x _ y hy hpair
    have hlarge := (surrogatePair_bounds (isHighSurrogate_toUInt16 h.1)
      (isLowSurrogate_toUInt16 h.2)).1
    rw [List.head?_cons, Option.mem_some_iff] at hy
    rw [← hy, isTrail_iff] at hpair
    omega
  · rw [joinPoint_concat h]
    refine List.isChain_append.mpr ⟨hjoined, .singleton _, ?_⟩
    intro x hx y hy
    rw [List.getLast?_concat, Option.mem_some_iff] at hx
    rw [List.head?_cons, Option.mem_some_iff] at hy
    rwa [← hx, ← hy]

end Joining

/-! ### Lone surrogates -/

/-- The unit at `i` is a surrogate that has not its other half beside it. -/
def LoneAt (us : List UInt16) (i : Nat) : Prop :=
  ∃ u, us[i]? = some u ∧
    ((isHighSurrogate u = true ∧ ∀ v, us[i + 1]? = some v → isLowSurrogate v = false) ∨
      (isLowSurrogate u = true ∧
        ∀ v j, i = j + 1 → us[j]? = some v → isHighSurrogate v = false))

section Lone

variable {u v : UInt16} {us : List UInt16} {i : Nat}

theorem not_loneAt_nil : ¬LoneAt [] i := by
  rintro ⟨u, hu, -⟩
  cases hu

theorem loneAt_zero :
    LoneAt (u :: us) 0 ↔
      (isHighSurrogate u = true ∧ ∀ v ∈ us.head?, isLowSurrogate v = false) ∨
        isLowSurrogate u = true := by
  constructor
  · rintro ⟨w, hw, ⟨hhigh, hnext⟩ | ⟨hlow, -⟩⟩
    · cases hw
      exact .inl ⟨hhigh, fun v hv =>
        hnext v (by rwa [List.getElem?_cons_succ, ← List.head?_eq_getElem?])⟩
    · cases hw
      exact .inr hlow
  · rintro (⟨hhigh, hnext⟩ | hlow)
    · exact ⟨u, rfl, .inl ⟨hhigh, fun v hv =>
        hnext v (by rwa [List.getElem?_cons_succ, ← List.head?_eq_getElem?] at hv)⟩⟩
    · exact ⟨u, rfl, .inr ⟨hlow, fun _ _ h => nomatch h⟩⟩

/-- Behind the second unit a text shows nothing of its first. -/
theorem loneAt_succ_succ : LoneAt (u :: us) (i + 2) ↔ LoneAt us (i + 1) := by
  constructor
  · rintro ⟨w, hw, ⟨hhigh, hnext⟩ | ⟨hlow, hprevious⟩⟩
    · exact ⟨w, hw, .inl ⟨hhigh, hnext⟩⟩
    · refine ⟨w, hw, .inr ⟨hlow, ?_⟩⟩
      rintro v j hj hv
      exact hprevious v (j + 1) (by omega) hv
  · rintro ⟨w, hw, ⟨hhigh, hnext⟩ | ⟨hlow, hprevious⟩⟩
    · exact ⟨w, hw, .inl ⟨hhigh, hnext⟩⟩
    · refine ⟨w, hw, .inr ⟨hlow, ?_⟩⟩
      rintro v (- | j) hj hv
      · omega
      · exact hprevious v j (by omega) hv

/-- A unit that forms no pair with the next one does not change what that one is. -/
theorem loneAt_one (h : isHighSurrogate u = true → ∀ v ∈ us.head?, isLowSurrogate v = false) :
    LoneAt (u :: us) 1 ↔ LoneAt us 0 := by
  constructor
  · rintro ⟨w, hw, ⟨hhigh, hnext⟩ | ⟨hlow, -⟩⟩
    · exact ⟨w, hw, .inl ⟨hhigh, hnext⟩⟩
    · exact ⟨w, hw, .inr ⟨hlow, fun _ _ h => nomatch h⟩⟩
  · rintro ⟨w, hw, ⟨hhigh, hnext⟩ | ⟨hlow, -⟩⟩
    · exact ⟨w, hw, .inl ⟨hhigh, hnext⟩⟩
    · refine ⟨w, hw, .inr ⟨hlow, ?_⟩⟩
      rintro x j hj hx
      obtain rfl : j = 0 := by omega
      cases hx
      rw [Bool.eq_false_iff]
      intro hhigh
      rw [← List.head?_eq_getElem?] at hw
      exact Bool.false_ne_true ((h hhigh w hw).symm.trans hlow)

theorem exists_loneAt_cons
    (h : isHighSurrogate u = true → ∀ v ∈ us.head?, isLowSurrogate v = false) :
    (∃ i, LoneAt (u :: us) i) ↔
      (isHighSurrogate u = true ∨ isLowSurrogate u = true) ∨ ∃ i, LoneAt us i := by
  constructor
  · rintro ⟨- | - | i, hi⟩
    · exact .inl ((loneAt_zero.mp hi).imp_left And.left)
    · exact .inr ⟨0, (loneAt_one h).mp hi⟩
    · exact .inr ⟨i + 1, loneAt_succ_succ.mp hi⟩
  · rintro ((hhigh | hlow) | ⟨- | i, hi⟩)
    · exact ⟨0, loneAt_zero.mpr (.inl ⟨hhigh, h hhigh⟩)⟩
    · exact ⟨0, loneAt_zero.mpr (.inr hlow)⟩
    · exact ⟨1, (loneAt_one h).mpr hi⟩
    · exact ⟨i + 2, loneAt_succ_succ.mpr hi⟩

theorem exists_loneAt_pair (hu : isHighSurrogate u = true) (hv : isLowSurrogate v = true) :
    (∃ i, LoneAt (u :: v :: us) i) ↔ ∃ i, LoneAt us i := by
  have hhead : LoneAt (v :: us) 1 ↔ LoneAt us 0 :=
    loneAt_one fun hhigh => (not_high_and_low hhigh hv).elim
  constructor
  · rintro ⟨- | - | i, hi⟩
    · obtain ⟨-, hnext⟩ | hlow := loneAt_zero.mp hi
      · exact absurd hv (by rw [hnext v rfl]; exact Bool.false_ne_true)
      · exact (not_high_and_low hu hlow).elim
    · obtain ⟨w, hw, ⟨hhigh, -⟩ | ⟨-, hprevious⟩⟩ := hi
      · cases hw
        exact (not_high_and_low hhigh hv).elim
      · exact absurd hu (by rw [hprevious u 0 rfl rfl]; exact Bool.false_ne_true)
    · cases i with
      | zero => exact ⟨0, hhead.mp (loneAt_succ_succ.mp hi)⟩
      | succ i => exact ⟨i + 1, loneAt_succ_succ.mp (loneAt_succ_succ.mp hi)⟩
  · rintro ⟨- | i, hi⟩
    · exact ⟨2, loneAt_succ_succ.mpr (hhead.mpr hi)⟩
    · exact ⟨i + 3, loneAt_succ_succ.mpr (loneAt_succ_succ.mpr hi)⟩

/-- **A text has a lone surrogate where a code point is one.** -/
theorem exists_loneAt_iff (us : List UInt16) :
    (∃ i, LoneAt us i) ↔ ∃ p ∈ pointsOf us, Text.isSurrogatePoint p = true := by
  induction us using pointsOf.induct with
  | case1 =>
    refine iff_of_false (fun ⟨i, hi⟩ => not_loneAt_nil hi) ?_
    rintro ⟨p, hp, -⟩
    cases hp
  | case2 u =>
    rw [exists_loneAt_cons (by rintro - v ⟨⟩), pointsOf, List.exists_mem_cons_iff,
      isSurrogatePoint_toNat, Bool.or_eq_true]
    refine or_congr_right (iff_of_false (fun ⟨i, hi⟩ => not_loneAt_nil hi) ?_)
    rintro ⟨p, hp, -⟩
    cases hp
  -- A pair makes a point that is no half, and neither of its units stands alone.
  | case3 u v rest h ih =>
    rw [Bool.and_eq_true] at h
    have hpair : Text.isSurrogatePoint (surrogatePair u v) = false := by
      have hlarge := (surrogatePair_bounds h.1 h.2).1
      rw [Bool.eq_false_iff, ne_eq, isSurrogatePoint_iff]
      omega
    rw [exists_loneAt_pair h.1 h.2, ih, pointsOf_cons_pair h.1 h.2, List.exists_mem_cons_iff, hpair,
      or_iff_right Bool.false_ne_true]
  -- A unit that is not paired with the next one is a point of its own.
  | case4 u v rest h ih =>
    have hunpaired : isHighSurrogate u = true →
        ∀ w ∈ (v :: rest).head?, isLowSurrogate w = false := by
      intro hhigh w hw
      cases hw
      rw [hhigh, Bool.true_and] at h
      exact Bool.eq_false_iff.mpr h
    rw [exists_loneAt_cons hunpaired, ih, pointsOf_cons hunpaired, List.exists_mem_cons_iff,
      isSurrogatePoint_toNat, Bool.or_eq_true]

end Lone

end Scriptlet
