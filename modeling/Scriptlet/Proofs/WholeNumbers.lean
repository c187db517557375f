import Mathlib
import Scriptlet.Builtin.Arguments

/-!
# Natural numbers as doubles

Up to `2 ^ 53` every natural number is a double.  Indices and lengths of arrays are far below that,
so that nothing is lost when a number is made from an index and an index from the number.

A double other than zero is kept as `m · 2 ^ e` with `m` of 53 binary digits, unless it is very
small.  For a natural number that is the number moved up by as many digits as it has too few.

## Main definitions

* `Double.ofNormal` — the double `m · 2 ^ e` for such an `m`.
* `Double.gap` — how many digits a natural number has too few.

## Main results

* `Double.ofNat_eq_ofNormal`, `Double.ofParts_eq_ofNormal` — natural numbers are such doubles.
* `Double.naturalPart?_ofNat` — **what is made of the number of an index is the index**.
* `Double.compare_ofNat` — **natural numbers are compared as such**.
* `Machine.toInteger_ofNat`, `relativeIndex_ofNat` — so it is where an argument stands for an index.
-/

namespace Scriptlet

open Float.Model Float.Model.UnpackedFloat

namespace Double

/-- The bounds within which `m · 2 ^ e` is a double with all 53 digits. -/
structure IsNormal (m : Nat) (e : Int) : Prop where
  le : 2 ^ 52 ≤ m
  lt : m < 2 ^ 53
  low : -1074 ≤ e
  high : e ≤ 971

theorem IsNormal.pos {m : Nat} {e : Int} (h : IsNormal m e) : 0 < m :=
  Nat.lt_of_lt_of_le (Nat.two_pow_pos 52) h.le

/-- The double `m · 2 ^ e`, apart from how it is kept. -/
def unpacked {m : Nat} {e : Int} (h : IsNormal m e) : UnpackedFloat := .finite .positive m e h.pos

/-- The double `m · 2 ^ e`. -/
def ofNormal {m : Nat} {e : Int} (h : IsNormal m e) : Float := ⟨pack (unpacked h)⟩

/-! ### How a double is kept -/

section Normal

variable {m : Nat} {e : Int} (h : IsNormal m e)

theorem log2_eq (hle : 2 ^ 52 ≤ m) (hlt : m < 2 ^ 53) : m.log2 = 52 := by
  have hm : m ≠ 0 := by omega
  have hge := (Nat.le_log2 hm).mpr hle
  have hle := (Nat.log2_lt hm).mpr hlt
  omega

/-- Sign, exponent and fraction of a positive double make up its bits. -/
theorem toNat_packComponents (x : BitVec 11) (y : BitVec 52) :
    (packComponents .binary64 .positive x y).toNat = x.toNat * 2 ^ 52 + y.toNat := by
  change (0#1 ++ x ++ y).toNat = _
  rw [BitVec.toNat_append, ← Nat.shiftLeft_add_eq_or_of_lt y.isLt, Nat.shiftLeft_eq,
    BitVec.toNat_append, BitVec.toNat_zero, Nat.zero_shiftLeft, Nat.zero_or]

theorem pack_finite (s : Sign) : UnpackedFloat.pack .binary64 (.finite s m e h.pos)
    = packComponents .binary64 s (BitVec.ofNat _ (e + 1075).toNat) (BitVec.ofNat _ m) := by
  obtain ⟨hle, hlt, hlow, hhigh⟩ := h
  have hbias : (e + (Format.binary64.exponentBias : Int)
      + (Format.binary64.mantissaBitsWithoutImplicit : Int)).toNat = (e + 1075).toNat := by
    have hsum : (Format.binary64.exponentBias : Int)
      + (Format.binary64.mantissaBitsWithoutImplicit : Int) = 1075 := rfl
    omega
  unfold UnpackedFloat.pack
  simp only [hbias, log2_eq hle hlt]
  have hwidth : 52 + 1 = Format.binary64.mantissaBits := rfl
  rw [if_neg (by omega), if_pos hwidth]

theorem toNat_toBits_ofNormal :
    (ofNormal h).toBits.toNat = (e + 1075).toNat * 2 ^ 52 + (m - 2 ^ 52) := by
  have hle := h.le
  have hlt := h.lt
  have hlow := h.low
  have hhigh := h.high
  change (UnpackedFloat.pack .binary64 (unpacked h)).toNat = _
  rw [unpacked, pack_finite h, toNat_packComponents, BitVec.toNat_ofNat, BitVec.toNat_ofNat]
  omega

/-- The first digit of a number is not kept. -/
theorem toNat_restored (hle : 2 ^ 52 ≤ m) (hlt : m < 2 ^ 53) :
    (1#1 ++ BitVec.ofNat 52 m).toNat = m := by
  have hone : (1#1).toNat = 1 := rfl
  have hrest : (BitVec.ofNat 52 m).toNat = m % 2 ^ 52 := BitVec.toNat_ofNat m 52
  rw [BitVec.toNat_append, ← Nat.shiftLeft_add_eq_or_of_lt (BitVec.ofNat 52 m).isLt, hone, hrest,
    Nat.shiftLeft_eq]
  omega

/-- **What is kept is what was there**, whatever the sign. -/
theorem unpack_pack_finite (s : Sign) :
    UnpackedFloat.unpack .binary64 (UnpackedFloat.pack .binary64 (.finite s m e h.pos))
      = .finite s m e h.pos := by
  have hlow := h.low
  have hhigh := h.high
  have hexponent : (BitVec.ofNat 11 (e + 1075).toNat).toNat = (e + 1075).toNat := by
    rw [BitVec.toNat_ofNat]
    omega
  -- The exponent of a normal number is neither that of zero nor that of infinity.
  have hnonzero : BitVec.ofNat 11 (e + 1075).toNat ≠ 0#11 := by
    intro heq
    rw [heq] at hexponent
    change 0 = _ at hexponent
    omega
  have hfinite : BitVec.ofNat 11 (e + 1075).toNat ≠ -1#11 := by
    intro heq
    rw [heq] at hexponent
    change 2047 = _ at hexponent
    omega
  have hplace : ((e + 1075).toNat : Int) - ((Format.binary64.exponentBias : Int)
      + (Format.binary64.mantissaBitsWithoutImplicit : Int)) = e := by
    have hsum : (Format.binary64.exponentBias : Int)
      + (Format.binary64.mantissaBitsWithoutImplicit : Int) = 1075 := rfl
    omega
  rw [pack_finite h]
  unfold UnpackedFloat.unpack
  simp only [unpackMantissa_packComponents, unpackExponent_packComponents, unpackSign_packComponents,
    Sign.ofBitVec_toBitVec]
  rw [if_neg hfinite, if_neg hnonzero]
  simp only [hexponent, hplace, toNat_restored h.le h.lt]

theorem unpack_pack_unpacked :
    UnpackedFloat.unpack .binary64 (UnpackedFloat.pack .binary64 (unpacked h)) = unpacked h :=
  unpack_pack_finite h .positive

/-- The bits of a double are those of the double. -/
theorem ofBits_eq_ofNormal {bits : Nat} (hbits : bits = (e + 1075).toNat * 2 ^ 52 + (m - 2 ^ 52)) :
    Float.ofBits bits.toUInt64 = ofNormal h := by
  have hword : bits.toUInt64 = (ofNormal h).toBits := by
    rw [← UInt64.toNat_inj, toNat_toBits_ofNormal, ← hbits]
    obtain ⟨hle, hlt, hlow, hhigh⟩ := h
    have hsmall : bits < 2 ^ 64 := by omega
    exact UInt64.toNat_ofNat_of_lt' hsmall
  rw [hword, Float.ofBits_toBits]

theorem log2_mul_two_pow (hm : m ≠ 0) (n : Nat) : (m * 2 ^ n).log2 = m.log2 + n := by
  obtain ⟨hle, hlt⟩ := (Nat.log2_eq_iff hm).mp rfl
  have hpos : m * 2 ^ n ≠ 0 := Nat.mul_ne_zero hm (Nat.ne_of_gt (Nat.two_pow_pos n))
  refine (Nat.log2_eq_iff hpos).mpr ⟨?_, ?_⟩
  · rw [Nat.pow_add]
    exact Nat.mul_le_mul_right _ hle
  · rw [Nat.add_right_comm, Nat.pow_add]
    exact Nat.mul_lt_mul_of_pos_right hlt (Nat.two_pow_pos n)

/-- Digits that are dropped are not missed if they are zeros. -/
theorem shiftRight_zeros (m zeros : Nat) :
    (⟨m * 2 ^ zeros, false, false⟩ : ExtendedMantissa) >>> zeros = ⟨m, false, false⟩ := by
  change Nat.repeat ExtendedMantissa.shiftRightOne zeros _ = _
  induction zeros generalizing m with
  | zero => rw [Nat.pow_zero, Nat.mul_one, Nat.repeat]
  | succ n ih =>
    have hsplit : m * 2 ^ (n + 1) = m * 2 * 2 ^ n := by rw [Nat.pow_succ]; grind
    rw [Nat.repeat, hsplit, ih (m * 2)]
    simp [ExtendedMantissa.shiftRightOne]

/-- A number with zeros behind its digits is brought to the exponent without them. -/
theorem shiftToTargetExponent_exact (h : IsNormal m e) (zeros : Nat) :
    shiftToTargetExponent .binary64 (m * 2 ^ zeros) (e - zeros) .exact = (⟨m, false, false⟩, e) := by
  have hlow := h.low
  have hlog : (m * 2 ^ zeros).log2 = 52 + zeros := by
    rw [log2_mul_two_pow (Nat.ne_of_gt h.pos), log2_eq h.le h.lt]
  have htarget : Format.binary64.targetExponent (totalExponent (m * 2 ^ zeros) (e - zeros)) = e := by
    have hmin : Format.binary64.minExponent = -1074 := rfl
    have hbits : Format.binary64.mantissaBits = 53 := rfl
    rw [Format.targetExponent, totalExponent, hlog, hmin, hbits]
    omega
  have hzeros : (e - (e - zeros)).toNat = zeros := by omega
  have hplace : e - zeros + zeros = e := by omega
  rw [shiftToTargetExponent, htarget, shiftToExponent, hzeros, hplace]
  exact Prod.ext (shiftRight_zeros m zeros) rfl

/-- **Rounding leaves a number that has enough digits as it is**, also with zeros behind them. -/
theorem roundWithAccuracy_exact (zeros : Nat) :
    roundWithAccuracy .binary64 .positive (m * 2 ^ zeros) (e - zeros) .exact = unpacked h := by
  have hagain : shiftToTargetExponent .binary64 m e .exact = (⟨m, false, false⟩, e) := by
    simpa using shiftToTargetExponent_exact h 0
  have hrounded : (⟨m, false, false⟩ : ExtendedMantissa).roundedMantissa = m := rfl
  rw [roundWithAccuracy, shiftToTargetExponent_exact h zeros]
  simp only [hrounded, hagain]
  rw [dif_neg (Nat.ne_of_gt h.pos)]
  rfl

end Normal

/-! ### Natural numbers -/

/-- How many digits a natural number has too few. -/
def gap (k : Nat) : Nat := 52 - k.log2

/-- Zeros at the end of a number are counted and dropped, all of them if there is fuel enough. -/
theorem exists_strip (fuel m : Nat) (e : Int) :
    ∃ n t : Nat, strip fuel m e = (n, e + t) ∧ m = n * 2 ^ t ∧
      (m ≠ 0 → m.log2 < fuel → n % 2 = 1) := by
  induction fuel generalizing m e with
  | zero => exact ⟨m, 0, by simp [strip], by simp, fun _ hlt => absurd hlt (Nat.not_lt_zero _)⟩
  | succ fuel ih =>
    unfold strip
    split
    · next heven =>
      rw [Bool.and_eq_true, decide_eq_true_iff, decide_eq_true_iff] at heven
      obtain ⟨n, t, hstrip, hm, hodd⟩ := ih (m / 2) (e + 1)
      have hlog : m.log2 = (m / 2).log2 + 1 := by rw [Nat.log2_def, if_pos (by omega)]
      refine ⟨n, t + 1, ?_, ?_, fun hne hlt => hodd (by omega) (by omega)⟩
      · rw [hstrip, Int.natCast_succ, Int.add_assoc, Int.add_comm 1]
      · rw [Nat.pow_succ, ← Nat.mul_assoc, ← hm]
        omega
    · next hodd =>
      rw [Bool.and_eq_true, decide_eq_true_iff, decide_eq_true_iff] at hodd
      exact ⟨m, 0, by simp, by simp, fun hne _ => by omega⟩

section Natural

variable {k : Nat} (hpos : 0 < k) (hlt : k < 2 ^ 53)

include hpos hlt

theorem log2_add_gap : k.log2 + gap k = 52 := by
  have hlog := (Nat.log2_lt (Nat.ne_of_gt hpos)).mpr hlt
  unfold gap
  omega

/-- A natural number moved up has enough digits. -/
theorem isNormal_gap : IsNormal (k * 2 ^ gap k) (-gap k) := by
  have hm : k * 2 ^ gap k ≠ 0 :=
    Nat.mul_ne_zero (Nat.ne_of_gt hpos) (Nat.ne_of_gt (Nat.two_pow_pos _))
  have hlog : (k * 2 ^ gap k).log2 = 52 := by
    rw [log2_mul_two_pow (Nat.ne_of_gt hpos), log2_add_gap hpos hlt]
  obtain ⟨hle, hlt⟩ := (Nat.log2_eq_iff hm).mp hlog
  have hgap : gap k ≤ 52 := Nat.sub_le ..
  exact ⟨hle, hlt, by omega, by omega⟩

/-- A natural number as it is made a double. -/
theorem unpacked_ofUInt64 : UnpackedFloat.ofUInt64 .binary64 k.toUInt64
    = unpacked (isNormal_gap hpos hlt) := by
  have hword : k.toUInt64.toNat = k := Nat.mod_eq_of_lt (by omega)
  have hsign : compare (k : Int) 0 = .gt := Int.compare_eq_gt.mpr (by omega)
  have htarget : Format.binary64.targetExponent (totalExponent k 0) = -gap k := by
    have hmin : Format.binary64.minExponent = -1074 := rfl
    have hbits : Format.binary64.mantissaBits = 53 := rfl
    have hsum := log2_add_gap hpos hlt
    rw [Format.targetExponent, totalExponent, hmin, hbits]
    omega
  have hmoved : decreaseExponent k 0 (-gap k) = (k * 2 ^ gap k, (-gap k : Int)) := by
    have hshift : (0 - (-gap k : Int)).toNat = gap k := by omega
    rw [decreaseExponent, hshift, Nat.shiftLeft_eq, Int.zero_sub]
  have hround := roundWithAccuracy_exact (isNormal_gap hpos hlt) 0
  rw [Nat.pow_zero, Nat.mul_one, Int.natCast_zero, Int.sub_zero] at hround
  rw [UnpackedFloat.ofUInt64, UnpackedFloat.ofNat, hword, UnpackedFloat.ofInt, UnpackedFloat.normalize,
    hsign]
  simp only [Int.toNat_natCast, UnpackedFloat.round, htarget, hmoved]
  exact hround

/-- **A natural number is the double that has its digits.** -/
theorem ofNat_eq_ofNormal : Float.ofNat k = ofNormal (isNormal_gap hpos hlt) := by
  have hone : (Float.ofBits 0x3FF0000000000000).toModel.unpack
      = .finite .positive (2 ^ 52) (-52) (Nat.two_pow_pos 52) := rfl
  have hscaled : Float.ofNat k = k.toUInt64.toFloat * Float.ofBits 0x3FF0000000000000 := by
    change Float.ofScientific k false 0 = _
    rw [Float.ofScientific, dif_pos ⟨hlt, Nat.zero_le 22⟩]
    rfl
  have hword : k.toUInt64.toFloat = ofNormal (isNormal_gap hpos hlt) := by
    change Float.ofModel (pack (UnpackedFloat.ofUInt64 .binary64 k.toUInt64)) = _
    rw [unpacked_ofUInt64 hpos hlt]
    rfl
  have hunpack : (pack (unpacked (isNormal_gap hpos hlt))).unpack
      = unpacked (isNormal_gap hpos hlt) := unpack_pack_unpacked _
  rw [hscaled, hword]
  change Float.ofModel (pack (UnpackedFloat.mul .binary64 (pack (unpacked _)).unpack _)) = _
  rw [hunpack, hone]
  exact congrArg (fun u => Float.ofModel (pack u)) (roundWithAccuracy_exact (isNormal_gap hpos hlt) 52)

/-- **A natural number is put together to the double that it is**, also with zeros behind it. -/
theorem ofParts_zeros (zeros : Nat) :
    ofParts (k * 2 ^ zeros) (-zeros) = ofNormal (isNormal_gap hpos hlt) := by
  obtain ⟨n, t, hstrip, hk, hodd⟩ :=
    exists_strip ((k * 2 ^ zeros).log2 + 1) (k * 2 ^ zeros) (-zeros)
  have hodd := hodd (Nat.ne_of_gt (Nat.mul_pos hpos (Nat.two_pow_pos zeros))) (Nat.lt_succ_self _)
  have hn : n ≠ 0 := by omega
  -- An odd number has no two to give, so all the zeros appended are stripped again.
  have hall : zeros ≤ t := by
    refine Nat.le_of_not_lt fun hlt => ?_
    obtain ⟨more, rfl⟩ := Nat.exists_eq_add_of_lt hlt
    have heven : n = k * 2 ^ more * 2 := by
      refine Nat.eq_of_mul_eq_mul_right (Nat.two_pow_pos t) ?_
      rw [← hk, Nat.pow_succ, Nat.pow_add]
      ac_rfl
    omega
  have hlog : k.log2 + zeros = n.log2 + t := by
    rw [← log2_mul_two_pow (Nat.ne_of_gt hpos), hk, log2_mul_two_pow hn]
  have hsum := log2_add_gap hpos hlt
  have hdigits : n * 2 ^ (53 - (n.log2 + 1)) = k * 2 ^ gap k := by
    refine Nat.eq_of_mul_eq_mul_right (Nat.two_pow_pos zeros) ?_
    have hexponent : 53 - (n.log2 + 1) + zeros = t + gap k := by omega
    calc n * 2 ^ (53 - (n.log2 + 1)) * 2 ^ zeros
        = n * 2 ^ t * 2 ^ gap k := by
          rw [Nat.mul_assoc, ← Nat.pow_add, hexponent, Nat.pow_add, Nat.mul_assoc]
      _ = k * 2 ^ gap k * 2 ^ zeros := by rw [← hk, Nat.mul_right_comm]
  have hplace : (-(zeros : Int) + t + (n.log2 + 1 : Nat) + 1022).toNat
      = (-gap k + 1075 : Int).toNat := by
    omega
  rw [ofParts, hstrip]
  dsimp only
  rw [if_neg hn, if_neg (by omega)]
  exact ofBits_eq_ofNormal _ (by rw [hdigits, hplace])

theorem ofParts_eq_ofNormal : ofParts k 0 = ofNormal (isNormal_gap hpos hlt) := by
  have hparts := ofParts_zeros hpos hlt 0
  rwa [Nat.pow_zero, Nat.mul_one, Int.natCast_zero, Int.neg_zero] at hparts

end Natural

/-! ### Back again -/

section Back

variable {m : Nat} {e : Int} (h : IsNormal m e)

theorem magnitude?_ofNormal : magnitude? (ofNormal h) = some (m, e) := by
  have hbits := toNat_toBits_ofNormal h
  obtain ⟨hle, hlt, hlow, hhigh⟩ := h
  have hexponent : (ofNormal ⟨hle, hlt, hlow, hhigh⟩).toBits.toNat / 2 ^ 52 % 2 ^ 11 = (e + 1075).toNat := by
    omega
  have hfraction : (ofNormal ⟨hle, hlt, hlow, hhigh⟩).toBits.toNat % 2 ^ 52 = m - 2 ^ 52 := by
    omega
  unfold magnitude?
  simp only [hexponent, hfraction]
  rw [if_neg (by omega), if_neg (by omega), Nat.sub_add_cancel hle]
  congr 2
  omega

theorem isNegative_ofNormal : isNegative (ofNormal h) = false := by
  have hbits := toNat_toBits_ofNormal h
  obtain ⟨hle, hlt, hlow, hhigh⟩ := h
  unfold isNegative
  rw [hbits, Nat.div_eq_of_lt (by omega)]
  rfl

/-- The digits that a natural number was moved up are no part of it. -/
theorem integerPart_gap (k : Nat) : integerPart (k * 2 ^ gap k) (-gap k) = k := by
  unfold integerPart
  cases hgap : gap k with
  | zero => simp
  | succ n =>
    change k * 2 ^ (n + 1) / 2 ^ (n + 1) = k
    exact Nat.mul_div_cancel k (Nat.two_pow_pos _)

end Back

theorem unpack_ofNat {k : Nat} (hpos : 0 < k) (hlt : k < 2 ^ 53) :
    (Float.ofNat k).toModel.unpack = unpacked (isNormal_gap hpos hlt) := by
  rw [ofNat_eq_ofNormal hpos hlt]
  exact unpack_pack_unpacked _

theorem unpack_zero : (Float.ofNat 0).toModel.unpack = .zero .positive := rfl

theorem magnitude?_zero : magnitude? (Float.ofNat 0) = some (0, -1074) := rfl

theorem integerPart_zero (e : Int) : integerPart 0 e = 0 := by
  cases e with
  | ofNat k => exact Nat.zero_mul _
  | negSucc k => exact Nat.zero_div _

section Whole

variable {k : Nat} (hlt : k < 2 ^ 53)

include hlt

/-- **What is made of the number of an index is the index.** -/
theorem naturalPart?_ofNat : naturalPart? (Float.ofNat k) = some k := by
  rcases Nat.eq_zero_or_pos k with rfl | hpos
  · rw [naturalPart?, magnitude?_zero, Option.map_some]
    exact congrArg some (integerPart_zero _)
  · rw [naturalPart?, ofNat_eq_ofNormal hpos hlt, magnitude?_ofNormal, Option.map_some]
    dsimp only
    rw [integerPart_gap]

theorem isNaN_ofNat : (Float.ofNat k).isNaN = false := by
  rcases Nat.eq_zero_or_pos k with rfl | hpos
  · rfl
  · change (Float.ofNat k).toModel.unpack.isNaN = false
    rw [unpack_ofNat hpos hlt]
    rfl

/-- A natural number is not negative. -/
theorem isNegative_ofNat : isNegative (Float.ofNat k) = false := by
  rcases Nat.eq_zero_or_pos k with rfl | hpos
  · rfl
  · rw [ofNat_eq_ofNormal hpos hlt, isNegative_ofNormal]

theorem trunc_ofNat : trunc (Float.ofNat k) = Float.ofNat k := by
  rcases Nat.eq_zero_or_pos k with rfl | hpos
  · rw [trunc, magnitude?_zero]
    dsimp only
    rw [integerPart_zero]
    rfl
  · rw [ofNat_eq_ofNormal hpos hlt, trunc, magnitude?_ofNormal]
    dsimp only
    split
    · rfl
    · rw [integerPart_gap, isNegative_ofNormal, withSign, if_neg Bool.false_ne_true,
        ofParts_eq_ofNormal hpos hlt]

end Whole

theorem toUInt32_ofNat {k : Nat} (hlt : k < 2 ^ 32) : toUInt32 (Float.ofNat k) = k := by
  have hlt' : k < 2 ^ 53 := Nat.lt_trans hlt (by decide)
  rw [toUInt32, naturalPart?_ofNat hlt']
  dsimp only
  rw [isNegative_ofNat hlt', Bool.false_and, if_neg Bool.false_ne_true, Nat.mod_eq_of_lt hlt]

theorem toInt32_ofNat {k : Nat} (hlt : k < 2 ^ 31) : toInt32 (Float.ofNat k) = k := by
  rw [toInt32, toUInt32_ofNat (Nat.lt_trans hlt (by decide))]
  exact if_pos hlt

/-! ### Comparisons -/

section Comparisons

theorem lt_iff {x y : Float} : x < y ↔ x.toModel.unpack.compare y.toModel.unpack = some .lt :=
  decide_eq_true_iff.trans beq_iff_eq

theorem le_iff {x y : Float} :
    x ≤ y ↔ (x.toModel.unpack.compare y.toModel.unpack).any (·.isLE) = true :=
  decide_eq_true_iff

variable {a b n : Nat}

theorem compare_mul_right (hn : 0 < n) : compare (a * n) (b * n) = compare a b := by
  rcases Nat.lt_trichotomy a b with hab | rfl | hab
  · rw [Nat.compare_eq_lt.mpr hab, Nat.compare_eq_lt.mpr (Nat.mul_lt_mul_of_pos_right hab hn)]
  · rw [Nat.compare_eq_eq.mpr rfl, Nat.compare_eq_eq.mpr rfl]
  · rw [Nat.compare_eq_gt.mpr hab, Nat.compare_eq_gt.mpr (Nat.mul_lt_mul_of_pos_right hab hn)]

theorem lt_of_log2_lt (ha : 0 < a) (hb : 0 < b) (hlog : a.log2 < b.log2) : a < b :=
  Nat.lt_of_lt_of_le ((Nat.log2_lt (Nat.ne_of_gt ha)).mp hlog) (Nat.log2_self_le (Nat.ne_of_gt hb))

variable (ha : a < 2 ^ 53) (hb : b < 2 ^ 53)

include ha hb

/-- **Natural numbers are compared as such.**  The one that has fewer digits was moved up further. -/
theorem compare_ofNat :
    (Float.ofNat a).toModel.unpack.compare (Float.ofNat b).toModel.unpack = some (compare a b) := by
  rcases Nat.eq_zero_or_pos a with rfl | hapos
  · rcases Nat.eq_zero_or_pos b with rfl | hbpos
    · rfl
    · rw [unpack_zero, unpack_ofNat hbpos hb, Nat.compare_eq_lt.mpr hbpos]
      rfl
  · rcases Nat.eq_zero_or_pos b with rfl | hbpos
    · rw [unpack_zero, unpack_ofNat hapos ha, Nat.compare_eq_gt.mpr hapos]
      rfl
    · have hasum := log2_add_gap hapos ha
      have hbsum := log2_add_gap hbpos hb
      rw [unpack_ofNat hapos ha, unpack_ofNat hbpos hb, unpacked, unpacked, UnpackedFloat.compare]
      -- The number of digits decides, and where it is the same the digits do.
      rcases Nat.lt_trichotomy a.log2 b.log2 with hlog | hlog | hlog
      · rw [Int.compare_eq_lt.mpr (by omega), Nat.compare_eq_lt.mpr (lt_of_log2_lt hapos hbpos hlog)]
        rfl
      · have hgap : gap a = gap b := by omega
        rw [hgap, Int.compare_eq_eq.mpr rfl, Ordering.then, compare_mul_right (Nat.two_pow_pos _)]
      · rw [Int.compare_eq_gt.mpr (by omega), Nat.compare_eq_gt.mpr (lt_of_log2_lt hbpos hapos hlog)]
        rfl

theorem ofNat_lt : Float.ofNat a < Float.ofNat b ↔ a < b := by
  rw [lt_iff, compare_ofNat ha hb, Option.some_inj, Nat.compare_eq_lt]

theorem ofNat_le : Float.ofNat a ≤ Float.ofNat b ↔ a ≤ b := by
  rw [le_iff, compare_ofNat ha hb, Option.any_some, Nat.isLE_compare]

theorem ofNat_beq : (Float.ofNat a == Float.ofNat b) = true ↔ a = b := by
  change ((Float.ofNat a).toModel.unpack.compare (Float.ofNat b).toModel.unpack == some .eq) = true ↔ _
  rw [compare_ofNat ha hb, beq_iff_eq, Option.some_inj, Nat.compare_eq_eq]

end Comparisons

end Double

/-! ### Arguments -/

/-- The integer that the number of an index stands for is the number. -/
theorem Machine.toInteger_ofNat (m : Machine) {k : Nat} (hlt : k < 2 ^ 53) (a : Agent) :
    m.toInteger (.ofNat k) a = .ok (Float.ofNat k) a := by
  have hinteger : m.toInteger (.ofNat k) a
      = .ok (if (Float.ofNat k).isNaN || Float.ofNat k == 0 then 0 else Double.trunc (Float.ofNat k)) a := rfl
  rw [hinteger, Double.isNaN_ofNat hlt, Bool.false_or, Double.trunc_ofNat hlt]
  split
  · next hzero =>
    rw [(Double.ofNat_beq hlt (Nat.two_pow_pos 53)).mp hzero]
    rfl
  · rfl

/-- **The number of an index stands for the index**, unless this is behind the length. -/
theorem relativeIndex_ofNat {k : Nat} (hlt : k < 2 ^ 53) (length : Nat) :
    relativeIndex (Float.ofNat k) length = min k length := by
  rw [relativeIndex, Double.naturalPart?_ofNat hlt]
  exact if_neg fun hneg => Nat.not_lt_zero k ((Double.ofNat_lt hlt (Nat.two_pow_pos 53)).mp hneg)

end Scriptlet
