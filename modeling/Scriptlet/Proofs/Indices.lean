import Mathlib.Data.List.Basic
import Mathlib.Data.List.Induction
import Scriptlet.Value.Basic

/-!
# Keys that are indices

A key stands for an index if it is spelled as the index is, in decimal digits without a zero in front.
Reading the digits and writing them are inverse to each other, so that different keys stand for
different indices.

## Main definitions

* `digitUnits` — the code units of the decimal digits of a number.

## Main results

* `PropertyKey.arrayIndex?_eq_some_iff` — **a key stands for an index if and only if it is the key of
  the index**, and the index is below the greatest length of an array.
-/

namespace Scriptlet

/-! ### Digits -/

/-- The code units of the decimal digits of a number. -/
def digitUnits (n : Nat) : List UInt16 := (Nat.toDigits 10 n).map fun c => c.toNat.toUInt16

/-- The code unit of a digit. -/
theorem digitUnits_of_lt {n : Nat} (h : n < 10) : digitUnits n = [UInt16.ofNat (48 + n)] := by
  have hall : ∀ m < 10, [m.digitChar].map (fun c => c.toNat.toUInt16) = [UInt16.ofNat (48 + m)] := by
    decide
  rw [digitUnits, Nat.toDigits_of_lt_base h]
  exact hall n h

/-- The last digit comes last. -/
theorem digitUnits_add {n d : Nat} (hn : 0 < n) (hd : d < 10) :
    digitUnits (10 * n + d) = digitUnits n ++ [UInt16.ofNat (48 + d)] := by
  rw [← digitUnits_of_lt hd, digitUnits, digitUnits, digitUnits, ← List.map_append,
    Nat.toDigits_append_toDigits (by decide) hn hd]

theorem digitUnits_ne_nil (n : Nat) : digitUnits n ≠ [] := by
  rw [digitUnits, Ne, List.map_eq_nil_iff]
  exact Nat.toDigits_ne_nil

/-- A property of the digits of all numbers, digit by digit. -/
theorem digit_induction {P : Nat → List UInt16 → Prop}
    (one : ∀ d, d < 10 → P d [UInt16.ofNat (48 + d)])
    (more : ∀ n d, 0 < n → d < 10 → P n (digitUnits n) →
      P (10 * n + d) (digitUnits n ++ [UInt16.ofNat (48 + d)])) (n : Nat) :
    P n (digitUnits n) := by
  induction n using Nat.strongRecOn with
  | _ n ih =>
    rcases Nat.lt_or_ge n 10 with hn | hn
    · rw [digitUnits_of_lt hn]
      exact one n hn
    · have hsplit : 10 * (n / 10) + n % 10 = n := Nat.div_add_mod n 10
      have hmore := more (n / 10) (n % 10) (by omega) (by omega) (ih _ (by omega))
      rwa [← digitUnits_add (by omega) (by omega), hsplit] at hmore

theorem toNat_digitUnit {d : Nat} (h : d < 10) : (UInt16.ofNat (48 + d)).toNat = 48 + d := by
  rw [UInt16.toNat_ofNat']
  omega

theorem isDigitUnit_iff {u : UInt16} : isDigitUnit u = true ↔ 48 ≤ u.toNat ∧ u.toNat ≤ 57 := by
  rw [isDigitUnit, Bool.and_eq_true, decide_eq_true_iff, decide_eq_true_iff, UInt16.le_iff_toNat_le,
    UInt16.le_iff_toNat_le]
  rfl

/-! ### Reading digits -/

theorem unitsValue_append (us : List UInt16) (u : UInt16) :
    unitsValue (us ++ [u]) = unitsValue us * 10 + (u.toNat - 48) := by
  rw [unitsValue, List.foldl_append]
  rfl

/-- **What is written is read back.** -/
theorem unitsValue_digitUnits (n : Nat) : unitsValue (digitUnits n) = n := by
  refine digit_induction (P := fun n us => unitsValue us = n) (fun d hd => ?_)
    (fun n d _ hd ih => ?_) n
  · rw [unitsValue, List.foldl_cons, List.foldl_nil, toNat_digitUnit hd]
    omega
  · rw [unitsValue_append, ih, toNat_digitUnit hd]
    omega

theorem isDigitUnit_of_mem {n : Nat} {u : UInt16} (hu : u ∈ digitUnits n) :
    isDigitUnit u = true := by
  revert hu
  refine digit_induction (P := fun _ us => u ∈ us → isDigitUnit u = true) (fun d hd hu => ?_)
    (fun n d _ hd ih hu => ?_) n
  · rw [List.mem_singleton.mp hu, isDigitUnit_iff, toNat_digitUnit hd]
    omega
  · rcases List.mem_append.mp hu with hu | hu
    · exact ih hu
    · rw [List.mem_singleton.mp hu, isDigitUnit_iff, toNat_digitUnit hd]
      omega

/-- No number but zero has a zero in front. -/
theorem head?_digitUnits {n : Nat} (hn : 0 < n) : (digitUnits n).head? ≠ some 48 := by
  revert hn
  refine digit_induction (P := fun n us => 0 < n → us.head? ≠ some 48) (fun d hd hpos h => ?_)
    (fun n d hpos hd ih _ => ?_) n
  · have hzero := congrArg UInt16.toNat (Option.some.inj h)
    rw [toNat_digitUnit hd] at hzero
    have : (48 : UInt16).toNat = 48 := rfl
    omega
  · rw [List.head?_append_of_ne_nil _ (digitUnits_ne_nil n)]
    exact ih hpos

/-- **What is read is spelled as it is written**, if there is no zero in front. -/
theorem digitUnits_unitsValue {us : List UInt16} (hne : us ≠ [])
    (hdigits : ∀ u ∈ us, isDigitUnit u = true) (hzero : 1 < us.length → us.head? ≠ some 48) :
    digitUnits (unitsValue us) = us := by
  induction us using List.reverseRecOn with
  | nil => exact absurd rfl hne
  | append_singleton vs u ih =>
    have hu := isDigitUnit_iff.mp (hdigits u (List.mem_append_right _ List.mem_cons_self))
    have hself : UInt16.ofNat (48 + (u.toNat - 48)) = u := by
      rw [Nat.add_sub_cancel' hu.1, UInt16.ofNat_toNat]
    rcases List.eq_nil_or_concat' vs with rfl | ⟨ws, w, hvs⟩
    · rw [unitsValue_append, unitsValue, List.foldl_nil, Nat.zero_mul, Nat.zero_add,
        digitUnits_of_lt (by omega), hself, List.nil_append]
    · have hvsne : vs ≠ [] := by
        rw [hvs]
        exact List.concat_ne_nil _ _
      have hlength : 0 < vs.length := List.length_pos_iff.mpr hvsne
      have hhead : vs.head? ≠ some 48 := by
        have := hzero (by rw [List.length_append, List.length_singleton]; omega)
        rwa [List.head?_append_of_ne_nil _ hvsne] at this
      have hread := ih hvsne (fun v hv => hdigits v (List.mem_append_left _ hv)) fun _ => hhead
      -- What is in front of the last digit is not zero, which would be spelled with a zero.
      have hpos : 0 < unitsValue vs := by
        rcases Nat.eq_zero_or_pos (unitsValue vs) with hzero | hpos
        · rw [hzero] at hread
          rw [← hread] at hhead
          exact absurd rfl hhead
        · exact hpos
      rw [unitsValue_append, Nat.mul_comm, digitUnits_add hpos (by omega), hread, hself]

/-! ### Keys -/

/-- Characters that are code units are encoded as they are. -/
theorem Text.units_foldl_pushPoint {cs : List Char} (h : ∀ c ∈ cs, c.toNat < 0x10000) (t : Text) :
    (cs.foldl (fun t c => t.pushPoint c.toNat) t).units.toList
      = t.units.toList ++ cs.map fun c => c.toNat.toUInt16 := by
  induction cs generalizing t with
  | nil => exact (List.append_nil _).symm
  | cons c cs ih =>
    rw [List.foldl_cons, ih (fun d hd => h d (List.mem_cons_of_mem _ hd)), pushPoint,
      if_pos (h c List.mem_cons_self), Array.toList_push, List.append_assoc]
    rfl

theorem Text.units_ofNat (n : Nat) : (Text.ofNat n).units.toList = digitUnits n := by
  have hdigits : ∀ c ∈ Nat.toDigits 10 n, c.toNat < 0x10000 := by
    intro c hc
    have hdigit := Nat.isDigit_of_mem_toDigits (by decide) (by decide) hc
    rw [Char.isDigit, Bool.and_eq_true, decide_eq_true_iff, decide_eq_true_iff] at hdigit
    have hle : c.toNat ≤ 57 := hdigit.2
    omega
  change (ofChars (Nat.repr n).toList).units.toList = _
  rw [Nat.repr_eq_ofList_toDigits, String.toList_ofList]
  exact (Text.units_foldl_pushPoint hdigits empty).trans (List.nil_append _)

/-- A text stands for an index if it has few units, which are digits with no zero in front. -/
theorem Text.arrayIndex?_eq_some {t : Text} {n : Nat} : t.arrayIndex? = some n ↔
    t.units.toList ≠ [] ∧ t.units.toList.length ≤ 10 ∧
      (∀ u ∈ t.units.toList, isDigitUnit u = true) ∧
      (1 < t.units.toList.length → t.units.toList.head? ≠ some 48) ∧
      unitsValue t.units.toList = n ∧ n < maxArrayLength := by
  obtain ⟨⟨us⟩⟩ := t
  rw [Text.arrayIndex?, ← Array.all_toList]
  simp only [isEmpty, length, List.isEmpty_toArray, List.size_toArray, List.getElem?_toArray,
    ← List.head?_eq_getElem?]
  -- The checks come in this order: the characters, no zero in front, and last the bound.
  split
  · next h =>
    refine ⟨nofun, fun ⟨hne, hlength, hdigits, _⟩ => absurd h ?_⟩
    rw [List.all_eq_true.mpr hdigits, List.isEmpty_eq_false_iff.mpr hne,
      decide_eq_false (by omega : ¬ us.length > 10)]
    decide
  · next h =>
    have hall : (us.isEmpty = false ∧ us.length ≤ 10) ∧ us.all isDigitUnit = true := by
      simpa [not_or] using h
    split
    · next hzero =>
      rw [Bool.and_eq_true, decide_eq_true_iff, beq_iff_eq] at hzero
      exact ⟨nofun, fun ⟨_, _, _, hfront, _⟩ => absurd hzero.2 (hfront hzero.1)⟩
    · next hzero =>
      rw [Bool.and_eq_true, decide_eq_true_iff, beq_iff_eq] at hzero
      have hbase := fun h : 1 < us.length => fun hs : us.head? = some 48 => hzero ⟨h, hs⟩
      refine ⟨fun hread => ?_, fun ⟨_, _, _, _, hvalue, hlt⟩ => ?_⟩
      · split at hread
        · next hlt =>
          cases hread
          exact ⟨List.isEmpty_eq_false_iff.mp hall.1.1, hall.1.2, List.all_eq_true.mp hall.2, hbase,
            rfl, hlt⟩
        · cases hread
      · rw [hvalue, if_pos hlt]

namespace PropertyKey

/-- **A key stands for an index if and only if it is the key of the index**, and the index is below
the greatest length of an array. -/
theorem arrayIndex?_eq_some_iff {k : PropertyKey} {n : Nat} :
    k.arrayIndex? = some n ↔ n < maxArrayLength ∧ k = .ofNat n := by
  constructor
  · intro h
    cases k with
    | symbol s => cases h
    | text t =>
      obtain ⟨hne, -, hdigits, hzero, hvalue, hlt⟩ := Text.arrayIndex?_eq_some.mp h
      have hread := digitUnits_unitsValue hne hdigits hzero
      rw [hvalue, ← Text.units_ofNat] at hread
      obtain ⟨units⟩ := t
      refine ⟨hlt, ?_⟩
      rw [ofNat, text.injEq]
      exact congrArg Text.mk (Array.toList_inj.mp hread.symm)
  · rintro ⟨hlt, rfl⟩
    refine Text.arrayIndex?_eq_some.mpr ?_
    rw [Text.units_ofNat, unitsValue_digitUnits]
    refine ⟨digitUnits_ne_nil n, ?_, fun u => isDigitUnit_of_mem, fun hlength => ?_, rfl, hlt⟩
    · rw [digitUnits, List.length_map, Nat.length_toDigits_le_iff (by decide) (by decide)]
      exact Nat.lt_trans hlt (by decide)
    · refine head?_digitUnits (Nat.pos_of_ne_zero fun hn => ?_)
      rw [hn] at hlength
      exact absurd hlength (by decide)

theorem arrayIndex?_ofNat {n : Nat} (h : n < maxArrayLength) : (ofNat n).arrayIndex? = some n :=
  arrayIndex?_eq_some_iff.mpr ⟨h, rfl⟩

theorem ofNat_of_arrayIndex? {k : PropertyKey} {n : Nat} (h : k.arrayIndex? = some n) :
    ofNat n = k :=
  (arrayIndex?_eq_some_iff.mp h).2.symm

end PropertyKey

end Scriptlet
