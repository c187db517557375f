import Mathlib.Data.Nat.Digits.Defs
import Scriptlet.Proofs.Indices
import Scriptlet.Proofs.NumberScans
import Scriptlet.Proofs.StoredTexts

/-!
# Texts that are keys of indices

Whether a key stands for an index is decided by reading its text.  The text may also be read byte by
byte where it is stored, into a number of 64 bits that is then cut to 32; what cannot be shown has
U+FFFD in its place there, which is no digit.  Both come to the same, and to the one key that the index
is spelled as.

## Main definitions

* `Wtf8.ShowsLone` — lone surrogates are shown as U+FFFD.
* `Stored.arrayIndex?` — the index that a stored text stands for.

## Main results

* `Stored.arrayIndex?_eq` — **reading bytes finds the same index as reading units**.
* `index_keys_canonical` — **a key stands for an index if and only if it is the canonical decimal form of
  the index**.
-/

namespace Scriptlet

open Pipeline (bytes)

/-! ### Values of digits -/

section Values

variable {us : List UInt16} {t : Text} {n : Nat}

/-- The value of units is that of the digits they stand for, the last of which counts least. -/
theorem unitsValue_eq_ofDigits (us : List UInt16) :
    unitsValue us = Nat.ofDigits 10 (us.reverse.map fun u => u.toNat - 48) := by
  induction us using List.reverseRecOn with
  | nil => rfl
  | append_singleton us u ih =>
    rw [unitsValue_append, ih, List.reverse_append, List.reverse_singleton, List.singleton_append,
      List.map_cons, Nat.ofDigits_cons]
    omega

theorem lt_maxArrayLength_iff : n < maxArrayLength ↔ n ≤ 2 ^ 32 - 2 := by
  unfold maxArrayLength
  omega

theorem PropertyKey.ofNat_eq (n : Nat) : ofNat n = .text (.ofUnits (digitUnits n)) := by
  rw [ofNat, ← Text.units_ofNat, Text.ofUnits, Array.toArray_toList]

/-- A surrogate is no digit. -/
theorem not_isDigitUnit_of_loneAt {i : Nat} (h : LoneAt us i) : ∃ u ∈ us, isDigitUnit u = false := by
  obtain ⟨u, hu, hsurrogate⟩ := h
  refine ⟨u, List.mem_of_getElem? hu, Bool.eq_false_iff.mpr fun hdigit => ?_⟩
  have hsmall := isDigitUnit_iff.mp hdigit
  rcases hsurrogate with ⟨hhigh, -⟩ | ⟨hlow, -⟩
  · have hlarge := isHighSurrogate_iff.mp hhigh
    omega
  · have hlarge := isLowSurrogate_iff.mp hlow
    omega

end Values

/-! ### Stored texts -/

/-- Lone surrogates are shown as U+FFFD, and everything else as it is. -/
def Wtf8.ShowsLone (W : Wtf8) : Prop := ∀ b, W.lossy b = (W.points b).map Text.charOfPoint

theorem Wtf8.showsLone_plain : Wtf8.plain.ShowsLone := fun _ => rfl

/-- Appends a decimal digit to a number of 64 bits, if there is room. -/
def appendDigit? (n : UInt64) (b : UInt8) : Option UInt64 :=
  if n.toNat * 10 + (b.toNat - 48) < 2 ^ 64 then some (n * 10 + (b.toUInt64 - 48)) else none

/-- The index that a stored text stands for: the number that it is the decimal form of, cut to 32
bits. -/
def Stored.arrayIndex? {W : Wtf8} (s : Stored W) : Option UInt32 :=
  let bs := bytes s.str
  if bs.isEmpty || bs.length > 10 || !bs.all isDigitByte then none
  else if bs.length > 1 && bs[0]? == some 48 then none
  else (bs.foldlM appendDigit? 0).bind fun n => if n < 0xFFFFFFFF then some n.toUInt32 else none

section Digits

variable {cs : List Char} {bs : List UInt8} {b : UInt8} {n : UInt64}

theorem isDigitByte_iff : isDigitByte b = true ↔ 48 ≤ b.toNat ∧ b.toNat ≤ 57 := spells_digit.byte b

theorem isDigitUnit_toUInt16 (b : UInt8) : isDigitUnit b.toUInt16 = isDigitByte b := by
  rw [Bool.eq_iff_iff, isDigitUnit_iff, isDigitByte_iff, UInt8.toNat_toUInt16]

/-- A digit is appended if there is room. -/
theorem appendDigit?_eq (hb : isDigitByte b = true) (h : n.toNat * 10 + (b.toNat - 48) < 2 ^ 64) :
    ∃ m, appendDigit? n b = some m ∧ m.toNat = n.toNat * 10 + (b.toNat - 48) := by
  have hdigit := isDigitByte_iff.mp hb
  refine ⟨_, if_pos h, ?_⟩
  have hsub : (b.toUInt64 - 48).toNat = b.toNat - 48 := by
    rw [UInt64.toNat_sub_of_le _ _ (UInt64.le_iff_toNat_le.mpr (by simpa using hdigit.1))]
    simp
  rw [UInt64.toNat_add, UInt64.toNat_mul, hsub]
  simp
  omega

/-- Ten digits do not need more than 64 bits. -/
theorem foldlM_appendDigit? (hbs : ∀ b ∈ bs, isDigitByte b = true)
    (h : (n.toNat + 1) * 10 ^ bs.length ≤ 2 ^ 64) :
    ∃ m, bs.foldlM appendDigit? n = some m ∧
      m.toNat = (bs.map UInt8.toUInt16).foldl (fun n u => n * 10 + (u.toNat - 48)) n.toNat := by
  induction bs generalizing n with
  | nil => exact ⟨n, rfl, rfl⟩
  | cons b bs ih =>
    obtain ⟨hb, hbs⟩ := List.forall_mem_cons.mp hbs
    have hdigit := isDigitByte_iff.mp hb
    have hpos : 0 < 10 ^ bs.length := Nat.pow_pos (by decide)
    have hroom : (n.toNat * 10 + (b.toNat - 48) + 1) * 10 ^ bs.length ≤ 2 ^ 64 := by
      refine Nat.le_trans (Nat.mul_le_mul_right _ (by omega : _ ≤ (n.toNat + 1) * 10)) ?_
      rwa [List.length_cons, Nat.pow_succ', ← Nat.mul_assoc] at h
    have hlt : n.toNat * 10 + (b.toNat - 48) < 2 ^ 64 := by nlinarith
    obtain ⟨m, hm, hvalue⟩ := appendDigit?_eq hb hlt
    obtain ⟨k, hk, hlast⟩ := ih hbs (n := m) (by rwa [hvalue])
    refine ⟨k, ?_, ?_⟩
    · rw [List.foldlM_cons, hm, Option.bind_eq_bind, Option.bind_some, hk]
    · rw [hlast, hvalue, List.map_cons, List.foldl_cons, UInt8.toNat_toUInt16]

/-- A byte of a character that is not ASCII is no digit. -/
theorem ascii_of_digits (h : ∀ b ∈ bytes cs, isDigitByte b = true) : ∀ c ∈ cs, c.toNat < 0x80 := by
  intro c hc
  by_contra hlarge
  obtain ⟨b, bs, hb, hbyte⟩ := utf8EncodeChar_large (Nat.le_of_not_lt hlarge)
  have hdigit := isDigitByte_iff.mp (h b (List.mem_flatMap.mpr ⟨c, hc, hb ▸ List.mem_cons_self⟩))
  omega

end Digits

namespace Stored

variable {W : Wtf8} {s : Stored W}

/-- What is read of a stored text are its points. -/
theorem str_eq (hW : W.ShowsLone) (s : Stored W) : s.str = (W.points s.data).map Text.charOfPoint := by
  rw [str, s.lossy_eq]
  cases htext : W.text? s.data with
  | none => exact hW s.data
  | some cs =>
    rw [(W.text?_eq_some s.data cs).mp htext, List.map_map]
    refine ((List.map_congr_left fun c _ => ?_).trans (List.map_id cs)).symm
    rw [Function.comp_apply, Text.charOfPoint, isSurrogatePoint_char, if_neg Bool.false_ne_true,
      Char.ofNat_toNat, id]

/-- There is a byte for each unit if all points are ASCII. -/
theorem isAscii_of_points (h : ∀ p ∈ W.points s.data, p < 0x80) : s.isAscii = true := by
  rw [isAscii, beq_iff_eq, s.length_eq, W.size_eq, W.units_eq]
  generalize W.points s.data = ps at h
  induction ps with
  | nil => rfl
  | cons p ps ih =>
    obtain ⟨hp, hps⟩ := List.forall_mem_cons.mp h
    rw [List.map_cons, List.sum_cons, List.flatMap_cons, List.length_append, ih hps, pointSize,
      if_pos hp, length_pointUnits, if_pos (by omega)]

/-- If all characters that are read are ASCII, there is a byte for each unit. -/
theorem isAscii_of_str (hW : W.ShowsLone) (h : ∀ c ∈ s.str, c.toNat < 0x80) : s.isAscii = true := by
  refine isAscii_of_points fun p hp => ?_
  have hchar := h _ (s.str_eq hW ▸ List.mem_map_of_mem hp)
  rw [Text.charOfPoint] at hchar
  split at hchar
  · exact absurd hchar (by decide)
  · next hsurrogate =>
    rwa [toNat_ofNat (W.points_lt s.data p hp) (Bool.eq_false_iff.mpr hsurrogate)] at hchar

/-- If all units are ASCII, there is a byte for each of them. -/
theorem isAscii_of_units (h : ∀ u ∈ s.units, u.toNat < 0x80) : s.isAscii = true := by
  refine isAscii_of_points fun p hp => ?_
  have hmem : ∀ u ∈ pointUnits p, u ∈ s.units := fun u hu => by
    rw [units, W.units_eq]
    exact List.mem_flatMap.mpr ⟨p, hp, hu⟩
  obtain ⟨u, hu, rfl⟩ | ⟨u, v, hu, hhigh, -, -⟩ := pointUnits_cases (W.points_lt s.data p hp)
  · exact h u (hmem u (hu ▸ List.mem_cons_self))
  · have hsmall := h u (hmem u (hu ▸ List.mem_cons_self))
    have hlarge := isHighSurrogate_iff.mp hhigh
    omega

/-- The bytes are digits if the units are, and then they are the units. -/
theorem digits_iff (hW : W.ShowsLone) (s : Stored W) :
    (∀ b ∈ bytes s.str, isDigitByte b = true) ↔ ∀ u ∈ s.units, isDigitUnit u = true := by
  have hsame (h : s.isAscii = true) :
      (∀ b ∈ bytes s.str, isDigitByte b = true) ↔ ∀ u ∈ s.units, isDigitUnit u = true := by
    rw [← map_bytes h, List.forall_mem_map]
    simp only [isDigitUnit_toUInt16]
  constructor
  · exact fun h => (hsame (isAscii_of_str hW (ascii_of_digits h))).mp h
  · intro h
    refine (hsame (isAscii_of_units fun u hu => ?_)).mpr h
    have hdigit := isDigitUnit_iff.mp (h u hu)
    omega

/-- The first unit is a zero if the first byte is. -/
theorem head_toUInt16 (bs : List UInt8) :
    ((bs.map UInt8.toUInt16)[0]? == some 48) = (bs[0]? == some 48) := by
  rw [List.getElem?_map, Bool.eq_iff_iff, beq_iff_eq, beq_iff_eq]
  cases bs[0]? with
  | none => simp
  | some b =>
    rw [Option.map_some, Option.some.injEq, Option.some.injEq]
    exact UInt8.toUInt16_inj (b := 48)

/-- At most ten digits are read as the number that they are the form of. -/
theorem read_digits {bs : List UInt8} (hbs : ∀ b ∈ bs, isDigitByte b = true) (hlength : bs.length ≤ 10) :
    ((bs.foldlM appendDigit? 0).bind fun n => if n < 0xFFFFFFFF then some n.toUInt32 else none).map
        UInt32.toNat
      = if unitsValue (bs.map UInt8.toUInt16) < maxArrayLength
          then some (unitsValue (bs.map UInt8.toUInt16)) else none := by
  have hroom : ((0 : UInt64).toNat + 1) * 10 ^ bs.length ≤ 2 ^ 64 := by
    have hpow : 10 ^ bs.length ≤ 10 ^ 10 := Nat.pow_le_pow_right (by decide) hlength
    simp only [UInt64.toNat_zero, Nat.zero_add, Nat.one_mul]
    omega
  obtain ⟨m, hm, hvalue⟩ := foldlM_appendDigit? hbs hroom
  have hvalue : m.toNat = unitsValue (bs.map UInt8.toUInt16) := hvalue
  rw [hm, Option.bind_some, ← hvalue]
  have hlt : m < 0xFFFFFFFF ↔ m.toNat < maxArrayLength := UInt64.lt_iff_toNat_lt
  by_cases hsmall : m.toNat < maxArrayLength
  · rw [if_pos (hlt.mpr hsmall), if_pos hsmall, Option.map_some, UInt64.toNat_toUInt32,
      Nat.mod_eq_of_lt (Nat.lt_trans hsmall (by decide))]
  · rw [if_neg (mt hlt.mp hsmall), if_neg hsmall, Option.map_none]

/-- **Reading bytes finds the same index as reading units.** -/
theorem arrayIndex?_eq (hW : W.ShowsLone) (s : Stored W) :
    s.arrayIndex?.map UInt32.toNat = (Text.ofUnits s.units).arrayIndex? := by
  have hunits : (Text.ofUnits s.units).arrayIndex? =
      if s.units.isEmpty || s.units.length > 10 || !s.units.all isDigitUnit then none
      else if s.units.length > 1 && s.units[0]? == some 48 then none
      else if unitsValue s.units < maxArrayLength then some (unitsValue s.units) else none := by
    rw [Text.arrayIndex?, Text.ofUnits, ← Array.all_toList]
    simp only [Text.isEmpty, Text.length, List.isEmpty_toArray, List.size_toArray,
      List.getElem?_toArray]
  rw [hunits]
  unfold arrayIndex?
  dsimp only
  by_cases hdigits : ∀ b ∈ bytes s.str, isDigitByte b = true
  · -- All is ASCII, so that bytes and units are the same and are counted alike.
    have hsame := map_bytes (isAscii_of_str hW (ascii_of_digits hdigits))
    have hcount : (bytes s.str).length = s.units.length := by rw [← hsame, List.length_map]
    have hall : (bytes s.str).all isDigitByte = s.units.all isDigitUnit := by
      rw [List.all_eq_true.mpr hdigits, List.all_eq_true.mpr ((s.digits_iff hW).mp hdigits)]
    rw [← head_toUInt16, hall, hcount, ← List.isEmpty_map (f := UInt8.toUInt16), hsame]
    split
    · rfl
    · next hshort =>
      split
      · rfl
      · have hlength : (bytes s.str).length ≤ 10 := by
          rw [hcount]
          simp only [Bool.or_eq_true, decide_eq_true_eq, not_or] at hshort
          omega
        rw [read_digits hdigits hlength, hsame]
  · have hbytes : (bytes s.str).all isDigitByte = false :=
      Bool.eq_false_iff.mpr fun h => hdigits (List.all_eq_true.mp h)
    have hnot : s.units.all isDigitUnit = false :=
      Bool.eq_false_iff.mpr fun h => hdigits ((s.digits_iff hW).mpr (List.all_eq_true.mp h))
    rw [hbytes, hnot, Bool.not_false, Bool.or_true, Bool.or_true, if_pos rfl, if_pos rfl, Option.map_none]

end Stored

/-! ### Keys -/

/-- The units of decimal digits. -/
theorem charUnits_toDigits (n : Nat) : charUnits (Nat.toDigits 10 n) = digitUnits n := by
  refine charUnits_ascii fun c hc => ?_
  have hdigit := Nat.isDigit_of_mem_toDigits (by decide) (by decide) hc
  rw [Char.isDigit, Bool.and_eq_true, decide_eq_true_iff, decide_eq_true_iff] at hdigit
  have hle : c.toNat ≤ 57 := hdigit.2
  omega

/-- A text with a zero in front of other units, with a unit that is no digit, with a lone surrogate or
with too great a value does not stand for an index. -/
theorem Text.arrayIndex?_eq_none {t : Text}
    (h : (1 < t.length ∧ t.unitAt? 0 = some 48) ∨
      (∃ u ∈ t.units, u.toNat < 48 ∨ 57 < u.toNat) ∨
      (∃ i, LoneAt t.units.toList i) ∨
      2 ^ 32 - 1 ≤ Nat.ofDigits 10 (t.units.toList.reverse.map fun u => u.toNat - 48)) :
    t.arrayIndex? = none := by
  refine Option.eq_none_iff_forall_ne_some.mpr fun n hn => ?_
  obtain ⟨-, -, hdigits, hzero, hvalue, hlt⟩ := Text.arrayIndex?_eq_some.mp hn
  rcases h with ⟨hlength, hhead⟩ | ⟨u, hu, hout⟩ | ⟨i, hi⟩ | hlarge
  · refine hzero hlength ?_
    rw [List.head?_eq_getElem?, Array.getElem?_toList]
    exact hhead
  · have hdigit := isDigitUnit_iff.mp (hdigits u (Array.mem_toList_iff.mpr hu))
    omega
  · obtain ⟨u, hu, hnot⟩ := not_isDigitUnit_of_loneAt hi
    rw [hdigits u hu] at hnot
    cases hnot
  · rw [← unitsValue_eq_ofDigits, hvalue] at hlarge
    exact Nat.lt_irrefl _ (Nat.lt_of_lt_of_le hlt hlarge)

/-- No number that is too large is an index. -/
theorem arrayIndex?_ofNat_large {n : Nat} (h : ¬n ≤ 2 ^ 32 - 2) :
    (PropertyKey.ofNat n).arrayIndex? = none := by
  refine Text.arrayIndex?_eq_none (.inr (.inr (.inr ?_)))
  rw [← unitsValue_eq_ofDigits, Text.units_ofNat, unitsValue_digitUnits]
  omega

/-- **A key stands for an index if and only if it is the canonical decimal form of the index.** -/
theorem index_keys_canonical :
    (∀ (k : PropertyKey) (n : Nat),
      k.arrayIndex? = some n ↔ n ≤ 2 ^ 32 - 2 ∧ k = .text (.ofUnits (digitUnits n))) ∧
    (∀ (k k' : PropertyKey) (n : Nat),
      k.arrayIndex? = some n → k'.arrayIndex? = some n → k = k') ∧
    (∀ n : Nat, PropertyKey.ofNat n = .text (.ofUnits (digitUnits n)) ∧
      (PropertyKey.ofNat n).arrayIndex? = if n ≤ 2 ^ 32 - 2 then some n else none) ∧
    (∀ t : Text,
      (1 < t.length ∧ t.unitAt? 0 = some 48) ∨
        (∃ u ∈ t.units, u.toNat < 48 ∨ 57 < u.toNat) ∨
        (∃ i, LoneAt t.units.toList i) ∨
        2 ^ 32 - 1 ≤ Nat.ofDigits 10 (t.units.toList.reverse.map fun u => u.toNat - 48) →
      (PropertyKey.text t).arrayIndex? = none) ∧
    ∀ W : Wtf8, W.ShowsLone →
      (∀ s : Stored W, s.arrayIndex?.map UInt32.toNat = (Text.ofUnits s.units).arrayIndex?) ∧
        ∀ n : Nat, (Stored.ofChars (Nat.toDigits 10 n) : Stored W).arrayIndex?.map UInt32.toNat
          = if n ≤ 2 ^ 32 - 2 then some n else none := by
  have hcanonical : ∀ (k : PropertyKey) (n : Nat),
      k.arrayIndex? = some n ↔ n ≤ 2 ^ 32 - 2 ∧ k = .text (.ofUnits (digitUnits n)) := by
    intro k n
    rw [PropertyKey.arrayIndex?_eq_some_iff, lt_maxArrayLength_iff, PropertyKey.ofNat_eq]
  have hinverse : ∀ n : Nat,
      (PropertyKey.ofNat n).arrayIndex? = if n ≤ 2 ^ 32 - 2 then some n else none := by
    intro n
    split
    · next hn => exact PropertyKey.arrayIndex?_ofNat (lt_maxArrayLength_iff.mpr hn)
    · next hn => exact arrayIndex?_ofNat_large hn
  refine ⟨hcanonical, fun k k' n hk hk' => ?_, fun n => ⟨PropertyKey.ofNat_eq n, hinverse n⟩, ?_, ?_⟩
  · rw [((hcanonical k n).mp hk).2, ((hcanonical k' n).mp hk').2]
  · exact fun t h => Text.arrayIndex?_eq_none h
  · refine fun W hW => ⟨fun s => s.arrayIndex?_eq hW, fun n => ?_⟩
    rw [Stored.arrayIndex?_eq hW, Stored.units_ofChars, charUnits_toDigits, ← hinverse,
      PropertyKey.ofNat_eq]
    rfl

/-- The largest index is read from its key, however it is stored, and the next number is none. -/
theorem index_keys_canonical_largest :
    (PropertyKey.ofNat 4294967294).arrayIndex? = some 4294967294 ∧
    (PropertyKey.ofNat 4294967295).arrayIndex? = none ∧
    (∀ k : PropertyKey, k.arrayIndex? = some 42 → k = .text "42") ∧
    (PropertyKey.text "042").arrayIndex? = none ∧
    (Stored.ofChars "4294967294".toList : Stored .plain).arrayIndex?.map UInt32.toNat
      = some 4294967294 := by
  obtain ⟨-, hunique, hofNat, hrefused, hstored⟩ := index_keys_canonical
  refine ⟨(hofNat _).2, (hofNat _).2, fun k hk => ?_, hrefused "042" (.inl (by decide)), ?_⟩
  · exact hunique k (.text "42") 42 hk (by decide +kernel)
  · exact (hstored .plain Wtf8.showsLone_plain).2 4294967294

end Scriptlet
