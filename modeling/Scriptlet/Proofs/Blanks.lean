import Mathlib.Data.List.DropRight
import Scriptlet.Number.Reading
import Scriptlet.Proofs.EncodedTexts

/-!
# Blanks at the ends of texts

Blanks are removed from texts unit by unit, and from what is read as a number character by character.
As no blank is a surrogate or outside the first plane, it makes no difference whether blanks are
removed before a text is decoded or afterwards.

The blanks are the white space and the ends of lines that the language lists, and besides the control
character U+0085, which the language does not count among them.

## Main definitions

* `TrimsFront`, `TrimsBack`, `TrimsBoth` — what is left of a list without the longest run of certain
  elements at an end, or at both.
* `isListedBlank` — white space and ends of lines as the language lists them.

## Main results

* `TrimsFront.eq_iff`, `TrimsBack.eq_iff`, `TrimsBoth.eq_iff` — it makes no difference that there is one
  blank more, unless it comes to an end of what is left.
* `isBlankPoint_iff` — **the blanks are those that are listed, and U+0085**.
* `Text.units_trimStart`, `Text.units_trimEnd`, `Text.units_trim` — trimming drops blanks from the units
  of a text.
* `Text.trim_eq` — trimming at both ends is trimming at one and then at the other.
* `Text.toList_trimStart`, `Text.toList_trim` — trimming and decoding commute.
-/

namespace Scriptlet

/-! ### Runs at the ends of lists -/

section Trimming

variable {α : Type}

/-- A list without the longest run of elements with the property that it starts with. -/
def TrimsFront (p : α → Bool) (xs ys : List α) : Prop :=
  ∃ front, xs = front ++ ys ∧ (∀ x ∈ front, p x = true) ∧ ∀ y ∈ ys.head?, p y = false

/-- A list without the longest run of elements with the property that it ends with. -/
def TrimsBack (p : α → Bool) (xs ys : List α) : Prop :=
  ∃ back, xs = ys ++ back ∧ (∀ x ∈ back, p x = true) ∧ ∀ y ∈ ys.getLast?, p y = false

/-- A list without the longest runs of elements with the property at both ends. -/
def TrimsBoth (p : α → Bool) (xs ys : List α) : Prop := ∃ zs, TrimsBack p xs zs ∧ TrimsFront p zs ys

variable {p : α → Bool} {x : α} {xs ys zs : List α}

theorem head_dropWhile : ∀ y ∈ (xs.dropWhile p).head?, p y = false := by
  intro y hy
  have hhead := List.head?_dropWhile_not p xs
  rwa [hy] at hhead

theorem trimsFront_dropWhile (p : α → Bool) (xs : List α) : TrimsFront p xs (xs.dropWhile p) :=
  ⟨xs.takeWhile p, List.takeWhile_append_dropWhile.symm, fun _ hx => List.mem_takeWhile_imp hx,
    head_dropWhile⟩

/-- There is one longest run. -/
theorem TrimsFront.eq_dropWhile (h : TrimsFront p xs ys) : ys = xs.dropWhile p := by
  obtain ⟨front, rfl, hfront, hhead⟩ := h
  rw [List.dropWhile_append_of_pos hfront]
  cases ys with
  | nil => rfl
  | cons y ys => exact (List.dropWhile_cons_of_neg (Bool.eq_false_iff.mp (hhead y rfl))).symm

theorem trimsBack_iff : TrimsBack p xs ys ↔ TrimsFront p xs.reverse ys.reverse := by
  constructor
  · rintro ⟨back, rfl, hback, hlast⟩
    refine ⟨back.reverse, List.reverse_append, fun x hx => hback x (List.mem_reverse.mp hx), ?_⟩
    rwa [List.head?_reverse]
  · rintro ⟨front, hxs, hfront, hhead⟩
    refine ⟨front.reverse, ?_, fun x hx => hfront x (List.mem_reverse.mp hx), ?_⟩
    · rw [← List.reverse_reverse xs, hxs, List.reverse_append, List.reverse_reverse]
    · rwa [← List.head?_reverse]

theorem trimsBack_rdropWhile (p : α → Bool) (xs : List α) : TrimsBack p xs (xs.rdropWhile p) := by
  rw [trimsBack_iff, List.rdropWhile, List.reverse_reverse]
  exact trimsFront_dropWhile p xs.reverse

theorem TrimsBack.eq_rdropWhile (h : TrimsBack p xs ys) : ys = xs.rdropWhile p := by
  rw [List.rdropWhile, ← (trimsBack_iff.mp h).eq_dropWhile, List.reverse_reverse]

theorem trims_iff : TrimsBoth p xs ys ↔ ys = (xs.rdropWhile p).dropWhile p :=
  ⟨fun ⟨_, hback, hfront⟩ => hback.eq_rdropWhile ▸ hfront.eq_dropWhile,
    fun h => h ▸ ⟨_, trimsBack_rdropWhile p xs, trimsFront_dropWhile p _⟩⟩

/-- It makes no difference at which end the run is removed first. -/
theorem dropWhile_rdropWhile (p : α → Bool) (xs : List α) :
    (xs.rdropWhile p).dropWhile p = (xs.dropWhile p).rdropWhile p := by
  induction xs using List.reverseRecOn with
  | nil => rfl
  | append_singleton xs x ih =>
    cases hx : p x with
    | true =>
      rw [List.rdropWhile_concat_pos p xs x hx, ih, List.dropWhile_append]
      split
      next hempty =>
        rw [List.isEmpty_iff.mp hempty, List.dropWhile_cons_of_pos hx, List.dropWhile_nil]
      next => rw [List.rdropWhile_concat_pos p _ x hx]
    | false =>
      have hneg := Bool.eq_false_iff.mp hx
      rw [List.rdropWhile_concat_neg p xs x hneg, List.dropWhile_append]
      split
      next => rw [List.dropWhile_cons_of_neg hneg, ← List.nil_append [x],
        List.rdropWhile_concat_neg p [] x hneg]
      next => rw [List.rdropWhile_concat_neg p _ x hneg]

/-- At neither end anything is left to be removed. -/
theorem rdropWhile_trimmed (p : α → Bool) (xs : List α) :
    ((xs.rdropWhile p).dropWhile p).rdropWhile p = (xs.rdropWhile p).dropWhile p := by
  rw [dropWhile_rdropWhile, List.rdropWhile_idempotent]

theorem dropWhile_of_head (h : ∀ x ∈ xs.head?, p x = false) : xs.dropWhile p = xs := by
  cases xs with
  | nil => rfl
  | cons x xs => exact List.dropWhile_cons_of_neg (Bool.eq_false_iff.mp (h x rfl))

theorem rdropWhile_of_getLast (h : ∀ x ∈ xs.getLast?, p x = false) : xs.rdropWhile p = xs := by
  rw [List.rdropWhile, dropWhile_of_head (by rwa [List.head?_reverse]), List.reverse_reverse]

/-! ### Properties that differ at one element -/

section Differing

variable {q : α → Bool} {a : α}

theorem dropWhile_eq_self_iff : xs.dropWhile p = xs ↔ ∀ x ∈ xs.head?, p x = false :=
  ⟨fun h => h ▸ head_dropWhile, dropWhile_of_head⟩

theorem rdropWhile_eq_self_iff : xs.rdropWhile p = xs ↔ ∀ x ∈ xs.getLast?, p x = false := by
  rw [List.rdropWhile, List.reverse_eq_iff, dropWhile_eq_self_iff, List.head?_reverse]

theorem rdropWhile_append (hys : ∀ y ∈ ys, p y = true) (xs : List α) :
    (xs ++ ys).rdropWhile p = xs.rdropWhile p := by
  rw [List.rdropWhile, List.reverse_append,
    List.dropWhile_append_of_pos fun y hy => hys y (List.mem_reverse.mp hy), List.rdropWhile]

/-- An element at an end is kept with both properties unless it is the one at which they differ. -/
theorem kept_iff (hpq : ∀ x, p x = true ↔ q x = true ∨ x = a) {o : Option α}
    (hkept : ∀ x ∈ o, q x = false) : (∀ x ∈ o, p x = false) ↔ a ∉ o := by
  constructor
  · intro h ha
    have hp := (hpq a).mpr (.inr rfl)
    rw [h a ha] at hp
    exact Bool.false_ne_true hp
  · refine fun ha x hx => Bool.eq_false_iff.mpr fun hp => ?_
    rcases (hpq x).mp hp with hq | rfl
    · rw [hkept x hx] at hq
      exact Bool.false_ne_true hq
    · exact ha hx

theorem TrimsFront.eq_iff (hpq : ∀ x, p x = true ↔ q x = true ∨ x = a) (h : TrimsFront q xs ys) :
    xs.dropWhile p = ys ↔ a ∉ ys.head? := by
  obtain ⟨front, rfl, hfront, hhead⟩ := h
  rw [List.dropWhile_append_of_pos fun x hx => (hpq x).mpr (.inl (hfront x hx)),
    dropWhile_eq_self_iff, kept_iff hpq hhead]

theorem TrimsBack.eq_iff (hpq : ∀ x, p x = true ↔ q x = true ∨ x = a) (h : TrimsBack q xs ys) :
    xs.rdropWhile p = ys ↔ a ∉ ys.getLast? := by
  obtain ⟨back, rfl, hback, hlast⟩ := h
  rw [rdropWhile_append fun x hx => (hpq x).mpr (.inl (hback x hx)), rdropWhile_eq_self_iff,
    kept_iff hpq hlast]

/-- Properties that differ at one element leave the same, unless this element comes to an end. -/
theorem TrimsBoth.eq_iff (hpq : ∀ x, p x = true ↔ q x = true ∨ x = a) (h : TrimsBoth q xs ys) :
    (xs.rdropWhile p).dropWhile p = ys ↔ a ∉ ys.head? ∧ a ∉ ys.getLast? := by
  obtain ⟨zs, ⟨back, rfl, hback, hlast⟩, ⟨front, rfl, hfront, hhead⟩⟩ := h
  have hlast' : ∀ y ∈ ys.getLast?, q y = false := fun y hy =>
    hlast y (List.mem_getLast?_append_of_mem_getLast? hy)
  rw [rdropWhile_append fun x hx => (hpq x).mpr (.inl (hback x hx)), dropWhile_rdropWhile,
    List.dropWhile_append_of_pos fun x hx => (hpq x).mpr (.inl (hfront x hx)),
    ← kept_iff hpq hhead, ← kept_iff hpq hlast']
  constructor
  · intro h
    refine ⟨?_, ?_⟩
    · rw [← dropWhile_rdropWhile] at h
      exact h ▸ head_dropWhile
    · obtain ⟨-, -, -, hkept⟩ := trimsBack_rdropWhile p (ys.dropWhile p)
      exact h ▸ hkept
  · rintro ⟨hfirst, hend⟩
    rw [dropWhile_of_head hfirst, rdropWhile_of_getLast hend]

end Differing

/-! ### Scans by offsets -/

/-- The first element without the property is behind the run at the front. -/
theorem drop_findIdx? (p : α → Bool) (xs : List α) :
    xs.drop ((xs.findIdx? fun x => !p x).getD xs.length) = xs.dropWhile p := by
  rw [List.dropWhile_eq_drop_findIdx_not]
  cases h : xs.findIdx? fun x => !p x with
  | none => rw [List.findIdx?_eq_none_iff_findIdx_eq.mp h, Option.getD_none]
  | some i => rw [(List.findIdx?_eq_some_iff_findIdx_eq.mp h).2, Option.getD_some]

/-- The last element without the property is in front of the run at the back. -/
theorem take_findIdx? {i : Nat} (h : (xs.reverse.findIdx? fun x => !p x) = some i) :
    xs.take (xs.length - i) = xs.rdropWhile p := by
  have hdrop := drop_findIdx? p xs.reverse
  rw [h, Option.getD_some, List.drop_reverse] at hdrop
  rw [List.rdropWhile, ← hdrop, List.reverse_reverse]

/-- Without a last element that is kept all are in the run. -/
theorem rdropWhile_of_findIdx? (h : (xs.reverse.findIdx? fun x => !p x) = none) :
    xs.rdropWhile p = [] := by
  rw [List.rdropWhile_eq_nil_iff]
  intro x hx
  have hnot := List.findIdx?_eq_none_iff.mp h x (List.mem_reverse.mpr hx)
  rwa [Bool.not_eq_false'] at hnot

/-- The run at the front is as long with the one at the back as without it, unless nothing is left. -/
theorem drop_rdropWhile (h : xs.rdropWhile p ≠ []) :
    (xs.rdropWhile p).drop ((xs.findIdx? fun x => !p x).getD xs.length)
      = (xs.rdropWhile p).dropWhile p := by
  have hlast : ¬p ((xs.rdropWhile p).getLast h) = true := List.rdropWhile_last_not p xs h
  have hfound : (xs.rdropWhile p).findIdx (fun x => !p x) < (xs.rdropWhile p).length :=
    List.findIdx_lt_length_of_exists
      ⟨_, List.getLast_mem h, by rw [Bool.not_eq_true', Bool.eq_false_iff]; exact hlast⟩
  obtain ⟨back, hxs⟩ := List.rdropWhile_prefix p xs
  have hall : xs.findIdx (fun x => !p x) = (xs.rdropWhile p).findIdx fun x => !p x := by
    conv_lhs => rw [← hxs, List.findIdx_append, if_pos hfound]
  have hle := List.IsPrefix.length_le ⟨back, hxs⟩
  have hsome : (xs.findIdx? fun x => !p x) = some ((xs.rdropWhile p).findIdx fun x => !p x) :=
    List.findIdx?_eq_some_iff_findIdx_eq.mpr ⟨by omega, hall⟩
  rw [hsome, Option.getD_some, List.dropWhile_eq_drop_findIdx_not]

end Trimming

/-! ### Which characters are blanks -/

/-- White space and ends of lines as the language lists them: tabulator, vertical tabulator, form
feed, the mark U+FEFF and the space separators of Unicode; line feed, carriage return, and the line
and paragraph separators. -/
def isListedBlank (p : Nat) : Bool :=
  [0x09, 0x0B, 0x0C, 0xFEFF].contains p ||
    ([0x20, 0xA0, 0x1680, 0x202F, 0x205F, 0x3000].contains p || (0x2000 ≤ p && p ≤ 0x200A)) ||
    [0x0A, 0x0D, 0x2028, 0x2029].contains p

/-- **The blanks are those that are listed, and U+0085.** -/
theorem isBlankPoint_iff {p : Nat} : isBlankPoint p = true ↔ isListedBlank p = true ∨ p = 0x85 := by
  simp only [isBlankPoint, isWhiteSpacePoint, isListedBlank, List.contains_cons, List.contains_nil,
    Bool.or_eq_true, Bool.and_eq_true, beq_iff_eq, decide_eq_true_eq, Bool.or_false]
  omega

/-- No blank is a surrogate or outside the first plane. -/
theorem lt_of_isBlankPoint {p : Nat} (h : isBlankPoint p = true) :
    p < 0xD800 ∨ 0xE000 ≤ p ∧ p < 0x10000 := by
  simp only [isBlankPoint, isWhiteSpacePoint, List.contains_cons, List.contains_nil, Bool.or_eq_true,
    Bool.and_eq_true, beq_iff_eq, decide_eq_true_eq, Bool.or_false] at h
  omega

theorem isBlankPoint_of_large {p : Nat} (h : 0x10000 ≤ p) : isBlankPoint p = false :=
  Bool.eq_false_iff.mpr fun hp => by
    have hlt := lt_of_isBlankPoint hp
    omega

/-- Decoding makes nothing a blank that is none. -/
theorem isBlank_charOfPoint {p : Nat} (hp : p < 0x110000) :
    isBlank (Text.charOfPoint p) = isBlankPoint p := by
  rw [isBlank, Text.charOfPoint]
  split
  next hsurrogate =>
    have hnot : isBlankPoint p = false := Bool.eq_false_iff.mpr fun h => by
      have hlt := lt_of_isBlankPoint h
      rw [isSurrogatePoint_iff] at hsurrogate
      omega
    rw [hnot]
    rfl
  next hpoint => rw [toNat_ofNat hp (Bool.eq_false_iff.mpr hpoint)]

namespace Text

variable {t : Text} {u : UInt16} {us : List UInt16}

/-- A unit that is white space or ends a line, as the language lists them. -/
def isListedUnit (u : UInt16) : Bool := isListedBlank u.toNat

theorem isBlankUnit_iff (u : UInt16) : isBlankUnit u = true ↔ isListedUnit u = true ∨ u = 0x85 := by
  have hsame : u.toNat = (0x85 : UInt16).toNat ↔ u = 0x85 := UInt16.toNat_inj
  exact isBlankPoint_iff.trans (or_congr_right hsame)

/-! ### Trimming units -/

theorem units_trimStart (t : Text) :
    t.trimStart.units.toList = t.units.toList.dropWhile isBlankUnit := by
  rw [trimStart, trimAt, toList_substring]
  simp only [reduceCtorEq, if_false, if_true, List.take_length]
  exact drop_findIdx? isBlankUnit t.units.toList

theorem units_trimEnd (t : Text) :
    t.trimEnd.units.toList = t.units.toList.rdropWhile isBlankUnit := by
  rw [trimEnd, trimAt, toList_substring]
  simp only [reduceCtorEq, if_false, if_true, List.drop_zero]
  split
  next i hfound => exact take_findIdx? hfound
  next hnone => rw [rdropWhile_of_findIdx? hnone, List.take_zero]

/-- If all units are blanks, the scan from the back stops where the one from the front did. -/
theorem units_trim (t : Text) :
    t.trim.units.toList = (t.units.toList.rdropWhile isBlankUnit).dropWhile isBlankUnit := by
  rw [trim, trimAt, toList_substring]
  simp only [reduceCtorEq, if_false]
  split
  next i hfound =>
    have hkept : t.units.toList.rdropWhile isBlankUnit ≠ [] := by
      intro hnil
      rw [List.rdropWhile_eq_nil_iff] at hnil
      obtain ⟨hi, hu, -⟩ := List.findIdx?_eq_some_iff_getElem.mp hfound
      rw [hnil _ (List.mem_reverse.mp (List.getElem_mem hi))] at hu
      exact Bool.false_ne_true hu
    rw [take_findIdx? hfound, drop_rdropWhile hkept]
  next hnone =>
    rw [rdropWhile_of_findIdx? hnone, List.dropWhile_nil, List.drop_eq_nil_iff, List.length_take]
    exact Nat.min_le_left _ _

/-- **Trimming at both ends is trimming at one and then at the other.** -/
theorem trim_eq (t : Text) : t.trim = t.trimEnd.trimStart := by
  rw [eq_iff_units, units_trim, units_trimStart, units_trimEnd]

/-- Nothing is left to be trimmed. -/
theorem trim_trim (t : Text) : t.trim.trim = t.trim := by
  rw [eq_iff_units, units_trim, units_trim, rdropWhile_trimmed, List.dropWhile_idempotent]

/-! ### Trimming what is decoded -/

theorem isHighSurrogate_of_blank (hu : isBlankUnit u = true) : isHighSurrogate u = false :=
  Bool.eq_false_iff.mpr fun hhigh => by
    have hlt := lt_of_isBlankPoint hu
    rw [isHighSurrogate_iff] at hhigh
    omega

theorem isTrail_of_blank (hu : isBlankUnit u = true) : isTrail u.toNat = false :=
  Bool.eq_false_iff.mpr fun htrail => by
    have hlt := lt_of_isBlankPoint hu
    rw [isTrail_iff] at htrail
    omega

/-- A blank at the front is a code point by itself, and what is no blank begins none. -/
theorem pointsOf_dropWhile (us : List UInt16) :
    pointsOf (us.dropWhile isBlankUnit) = (pointsOf us).dropWhile isBlankPoint := by
  induction us with
  | nil => rfl
  | cons u us ih =>
    cases hu : isBlankUnit u with
    | true =>
      have halone : pointsOf (u :: us) = u.toNat :: pointsOf us :=
        pointsOf_cons fun hhigh => absurd hhigh (Bool.eq_false_iff.mp (isHighSurrogate_of_blank hu))
      have hpoint : isBlankPoint u.toNat = true := hu
      rw [List.dropWhile_cons_of_pos hu, ih, halone, List.dropWhile_cons_of_pos hpoint]
    | false =>
      rw [List.dropWhile_cons_of_neg (Bool.eq_false_iff.mp hu), dropWhile_of_head]
      intro p hp
      by_cases hpair : isHighSurrogate u = true ∧ ∃ v ∈ us.head?, isLowSurrogate v = true
      · obtain ⟨hhigh, v, hv, hlow⟩ := hpair
        obtain ⟨rest, rfl⟩ : ∃ rest, us = v :: rest := List.head?_eq_some_iff.mp hv
        rw [pointsOf_cons_pair hhigh hlow, List.head?_cons, Option.mem_some_iff] at hp
        exact isBlankPoint_of_large (hp ▸ (surrogatePair_bounds hhigh hlow).1)
      · have halone : isHighSurrogate u = true → ∀ v ∈ us.head?, isLowSurrogate v = false :=
          fun hhigh v hv => Bool.eq_false_iff.mpr fun hlow => hpair ⟨hhigh, v, hv, hlow⟩
        rw [pointsOf_cons halone, List.head?_cons, Option.mem_some_iff] at hp
        exact hp ▸ hu

/-- So is a blank at the back, and what is no blank ends none. -/
theorem pointsOf_rdropWhile (us : List UInt16) :
    pointsOf (us.rdropWhile isBlankUnit) = (pointsOf us).rdropWhile isBlankPoint := by
  -- The induction is from the back, where blanks are dropped; a unit that comes at the end may be
  -- joined to the last point.
  induction us using List.reverseRecOn with
  | nil => rfl
  | append_singleton us u ih =>
    have hjoin : pointsOf (us ++ [u]) = joinPoint (pointsOf us) u.toNat := by
      have hlt := u.toNat_lt
      rw [← pointsOf_append_pointUnits us (by omega), pointUnits_toNat]
    cases hu : isBlankUnit u with
    | true =>
      -- A blank is no half of a pair, so it is a point of its own.
      have halone : pointsOf (us ++ [u]) = pointsOf us ++ [u.toNat] := by
        rw [hjoin]
        rcases List.eq_nil_or_concat' (pointsOf us) with hnil | ⟨ps, q, hps⟩
        · rw [hnil]
          rfl
        · rw [hps, joinPoint_concat]
          intro hpair
          rw [isTrail_of_blank hu] at hpair
          exact Bool.false_ne_true hpair.2
      have hpoint : isBlankPoint u.toNat = true := hu
      rw [List.rdropWhile_concat_pos _ us u hu, ih, halone, List.rdropWhile_concat_pos _ _ _ hpoint]
    | false =>
      rw [List.rdropWhile_concat_neg _ us u (Bool.eq_false_iff.mp hu), rdropWhile_of_getLast]
      intro p hp
      rw [hjoin] at hp
      -- A unit that is kept ends the text, and so does the point that it is in.
      rcases List.eq_nil_or_concat' (pointsOf us) with hnil | ⟨ps, q, hps⟩
      · rw [hnil, joinPoint_nil, List.getLast?_singleton, Option.mem_some_iff] at hp
        exact hp ▸ hu
      · rw [hps] at hp
        by_cases hpair : isLead q = true ∧ isTrail u.toNat = true
        · rw [joinPoint_concat_pair hpair.1 hpair.2, List.getLast?_concat, Option.mem_some_iff] at hp
          have hlarge := surrogatePair_bounds (isHighSurrogate_toUInt16 hpair.1)
            (isLowSurrogate_toUInt16 hpair.2)
          exact isBlankPoint_of_large (hp ▸ hlarge.1)
        · rw [joinPoint_concat hpair, List.getLast?_concat, Option.mem_some_iff] at hp
          exact hp ▸ hu

theorem map_isBlank (ps : List Nat) (hps : ∀ p ∈ ps, p < 0x110000) :
    (ps.map charOfPoint).dropWhile isBlank = (ps.dropWhile isBlankPoint).map charOfPoint := by
  induction ps with
  | nil => rfl
  | cons p ps ih =>
    obtain ⟨hp, hrest⟩ := List.forall_mem_cons.mp hps
    rw [List.map_cons, List.dropWhile_cons, List.dropWhile_cons, isBlank_charOfPoint hp, ih hrest]
    split <;> rfl

/-- **Trimming and decoding commute.** -/
theorem toList_trimStart (t : Text) : t.trimStart.toString.toList = skipBlanks t.toString.toList := by
  rw [toList_toString, toList_codePoints, units_trimStart, pointsOf_dropWhile, skipBlanks,
    toList_toString, toList_codePoints, map_isBlank _ (pointsOf_lt _)]

theorem toList_trimEnd (t : Text) :
    t.trimEnd.toString.toList = t.toString.toList.rdropWhile isBlank := by
  have hback := map_isBlank (pointsOf t.units.toList).reverse fun p hp =>
    pointsOf_lt _ p (List.mem_reverse.mp hp)
  rw [toList_toString, toList_codePoints, units_trimEnd, pointsOf_rdropWhile, toList_toString,
    toList_codePoints, List.rdropWhile, List.rdropWhile, ← List.map_reverse, hback, List.map_reverse]

theorem toList_trim (t : Text) : t.trim.toString.toList = trimBlanks t.toString.toList := by
  rw [trim_eq, toList_trimStart, toList_trimEnd, skipBlanks, dropWhile_rdropWhile]
  rfl

end Text

/-! ### Blanks in front of numbers -/

section Numbers

variable {cs : List Char}

theorem trimBlanks_eq (cs : List Char) : trimBlanks cs = (cs.dropWhile isBlank).rdropWhile isBlank := rfl

theorem skipBlanks_skipBlanks (cs : List Char) : skipBlanks (skipBlanks cs) = skipBlanks cs :=
  List.dropWhile_idempotent ..

theorem trimBlanks_skipBlanks (cs : List Char) : trimBlanks (skipBlanks cs) = trimBlanks cs := by
  rw [trimBlanks, skipBlanks_skipBlanks]
  rfl

theorem trimBlanks_trimBlanks (cs : List Char) : trimBlanks (trimBlanks cs) = trimBlanks cs := by
  rw [trimBlanks_eq, trimBlanks_eq, ← dropWhile_rdropWhile isBlank cs, List.dropWhile_idempotent,
    rdropWhile_trimmed]

theorem trims_trimBlanks (cs : List Char) : TrimsBoth isBlank cs (trimBlanks cs) :=
  trims_iff.mpr (dropWhile_rdropWhile isBlank cs).symm

end Numbers

end Scriptlet
