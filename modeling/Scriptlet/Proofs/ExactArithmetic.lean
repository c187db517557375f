import Scriptlet.Number.Reading
import Scriptlet.Proofs.WholeNumbers

/-!
# Exact arithmetic on natural numbers

Arithmetic on doubles rounds its results.  Sums, products, differences, remainders and quotients
without a remainder of natural numbers below `2 ^ 53` are natural numbers below `2 ^ 53` again, if they
are not too great; nothing is lost when these are rounded.

Whatever is lost elsewhere, a sum or a product of doubles that are not negative is a number again.

## Main definitions

* `Double.sign?` — the sign of a double that is not not-a-number.
* `Double.IsSize` — doubles that are not negative, infinity included.

## Main results

* `Double.ofNat_mul`, `Double.ofNat_add`, `Double.ofNat_sub`, `Double.ofNat_div`,
  `Double.remainder_ofNat` — **arithmetic that is exact**.
* `Double.isSize_value` — decimal literals denote numbers.
* `Double.quotient_lt` — a quotient by two or more is below `2 ^ 53`.
-/

namespace Scriptlet

open Float.Model Float.Model.UnpackedFloat

namespace Double

/-! ### Signs -/

/-- The sign, unless there is no number. -/
def sign? : UnpackedFloat → Option Sign
  | .infinity s => some s
  | .notANumber => none
  | .zero s => some s
  | .finite s .. => some s

theorem sign?_packComponents {s : Sign} {x : BitVec 11} {y : BitVec 52} (h : x = -1#11 → y = 0#52) :
    sign? (UnpackedFloat.unpack .binary64 (packComponents .binary64 s x y)) = some s := by
  unfold UnpackedFloat.unpack
  simp only [unpackMantissa_packComponents, unpackExponent_packComponents, unpackSign_packComponents,
    Sign.ofBitVec_toBitVec]
  split
  next hx => rw [if_pos (h hx)]; rfl
  next =>
    split
    · split <;> rfl
    · rfl

/-- The sign is kept. -/
theorem sign?_unpack_pack (u : UnpackedFloat) :
    sign? (UnpackedFloat.unpack .binary64 (UnpackedFloat.pack .binary64 u)) = sign? u := by
  cases u with
  | notANumber => rw [UnpackedFloat.pack, unpack_packedNaN]
  | infinity s => exact sign?_packComponents fun _ => rfl
  | zero s => rw [UnpackedFloat.pack, unpack_packedZero]
  | finite s m e hm =>
    unfold UnpackedFloat.pack
    dsimp only
    split
    · exact sign?_packComponents fun _ => rfl
    · next hbiased =>
      split
      · refine sign?_packComponents fun hx => absurd (congrArg BitVec.toNat hx) ?_
        rw [BitVec.toNat_ofNat]
        change ¬2 ^ 11 ≤ _ + 1 at hbiased
        change ¬_ % 2 ^ 11 = 2047
        omega
      · exact sign?_packComponents fun hx => absurd hx (by decide)

theorem isNaN_iff_sign? {x : Float} : x.isNaN = false ↔ sign? x.toModel.unpack ≠ none := by
  change x.toModel.unpack.isNaN = false ↔ _
  cases x.toModel.unpack <;> simp [sign?, UnpackedFloat.isNaN]

/-- A number that is not negative. -/
def IsSize (x : Float) : Prop := sign? x.toModel.unpack = some .positive

/-- Whether a double is a finite number above zero. -/
def isPositive (x : Float) : Bool :=
  match x.toModel.unpack with
  | .finite .positive .. => true
  | _ => false

section Signs

variable {x y : Float} {s : Sign} {m : Nat} {e : Int}

theorem IsSize.isNaN (h : IsSize x) : x.isNaN = false :=
  isNaN_iff_sign?.mpr (h ▸ Option.some_ne_none _)

theorem isPositive_iff : isPositive x = true ↔ ∃ m e hm, x.toModel.unpack = .finite .positive m e hm := by
  unfold isPositive
  constructor
  · intro h
    split at h
    next m e hm hx => exact ⟨m, e, hm, hx⟩
    next => exact absurd h Bool.false_ne_true
  · rintro ⟨m, e, hm, hx⟩
    rw [hx]

theorem isSize_of_isPositive (h : isPositive x = true) : IsSize x := by
  obtain ⟨m, e, hm, hx⟩ := isPositive_iff.mp h
  rw [IsSize, hx]
  rfl

/-- Rounding keeps the sign. -/
theorem sign?_roundWithAccuracy (accuracy : Accuracy) :
    sign? (roundWithAccuracy .binary64 s m e accuracy) = some s := by
  unfold roundWithAccuracy
  dsimp only
  split <;> rfl

theorem IsSize.mul (hx : IsSize x) (hy : isPositive y = true) : IsSize (x * y) := by
  obtain ⟨n, f, hn, hy⟩ := isPositive_iff.mp hy
  change sign? (UnpackedFloat.unpack .binary64 (UnpackedFloat.pack .binary64
    (UnpackedFloat.mul .binary64 x.toModel.unpack y.toModel.unpack))) = _
  rw [sign?_unpack_pack, hy]
  rw [IsSize] at hx
  cases hu : x.toModel.unpack with
  | notANumber => rw [hu] at hx; exact nomatch hx
  | infinity s => rw [hu] at hx; cases hx; rfl
  | zero s => rw [hu] at hx; cases hx; rfl
  | finite s m e hm =>
    rw [hu] at hx
    cases hx
    exact sign?_roundWithAccuracy .exact

theorem IsSize.div (hx : IsSize x) (hy : isPositive y = true) : IsSize (x / y) := by
  obtain ⟨n, f, hn, hy⟩ := isPositive_iff.mp hy
  change sign? (UnpackedFloat.unpack .binary64 (UnpackedFloat.pack .binary64
    (UnpackedFloat.div .binary64 x.toModel.unpack y.toModel.unpack))) = _
  rw [sign?_unpack_pack, hy]
  rw [IsSize] at hx
  cases hu : x.toModel.unpack with
  | notANumber => rw [hu] at hx; exact nomatch hx
  | infinity s => rw [hu] at hx; cases hx; rfl
  | zero s => rw [hu] at hx; cases hx; rfl
  | finite s m e hm =>
    rw [hu] at hx
    cases hx
    exact sign?_roundWithAccuracy _

theorem sign?_normalize {m : Int} (hm : 0 ≤ m) :
    sign? (UnpackedFloat.normalize .binary64 m e .positive) = some .positive := by
  unfold UnpackedFloat.normalize
  split
  next hlt => exact absurd (Int.compare_eq_lt.mp hlt) (Int.not_lt.mpr hm)
  next => rfl
  next => exact sign?_roundWithAccuracy .exact

theorem IsSize.add (hx : IsSize x) (hy : IsSize y) : IsSize (x + y) := by
  change sign? (UnpackedFloat.unpack .binary64 (UnpackedFloat.pack .binary64
    (UnpackedFloat.add .binary64 x.toModel.unpack y.toModel.unpack))) = _
  rw [sign?_unpack_pack]
  rw [IsSize] at hx hy
  -- A sum is taken by cases of both summands; only two finite ones are really added.
  cases hu : x.toModel.unpack with
  | notANumber => rw [hu] at hx; exact nomatch hx
  | infinity s =>
    rw [hu] at hx
    cases hx
    cases hv : y.toModel.unpack with
    | notANumber => rw [hv] at hy; exact nomatch hy
    | infinity t => rw [hv] at hy; cases hy; rfl
    | zero t => rfl
    | finite t n f hn => rfl
  | zero s =>
    rw [hu] at hx
    cases hx
    cases hv : y.toModel.unpack with
    | notANumber => rw [hv] at hy; exact nomatch hy
    | infinity t => rw [hv] at hy; cases hy; rfl
    | zero t => rw [hv] at hy; cases hy; rfl
    | finite t n f hn => rw [hv] at hy; cases hy; rfl
  | finite s m e hm =>
    rw [hu] at hx
    cases hx
    cases hv : y.toModel.unpack with
    | notANumber => rw [hv] at hy; exact nomatch hy
    | infinity t => rw [hv] at hy; cases hy; rfl
    | zero t => rfl
    | finite t n f hn =>
      rw [hv] at hy
      cases hy
      exact sign?_normalize (Int.add_nonneg (Int.natCast_nonneg _) (Int.natCast_nonneg _))

theorem isNaN_neg (h : x.isNaN = false) : (-x).isNaN = false := by
  rw [isNaN_iff_sign?] at h ⊢
  change sign? (UnpackedFloat.unpack .binary64 (UnpackedFloat.pack .binary64
    x.toModel.unpack.neg)) ≠ none
  rw [sign?_unpack_pack]
  cases hu : x.toModel.unpack with
  | notANumber => rw [hu] at h; exact absurd rfl h
  | infinity s => exact Option.some_ne_none _
  | zero s => exact Option.some_ne_none _
  | finite s m e hm => exact Option.some_ne_none _

theorem isNaN_withSign (negative : Bool) (h : x.isNaN = false) :
    (withSign negative x).isNaN = false := by
  rw [withSign]
  split
  · exact isNaN_neg h
  · exact h

end Signs

/-! ### Numbers that are read -/

section Literals

theorem isSize_zero : IsSize 0.0 := rfl

theorem isSize_infinity : IsSize infinity := rfl

theorem isPositive_ofNormal {m : Nat} {e : Int} (h : IsNormal m e) : isPositive (ofNormal h) = true :=
  isPositive_iff.mpr ⟨m, e, h.pos, unpack_pack_unpacked h⟩

theorem isPositive_ofNat {k : Nat} (hpos : 0 < k) (hlt : k < 2 ^ 53) :
    isPositive (Float.ofNat k) = true := by
  rw [ofNat_eq_ofNormal hpos hlt, isPositive_ofNormal]

theorem isSize_ofNat {k : Nat} (hlt : k < 2 ^ 53) : IsSize (Float.ofNat k) := by
  rcases Nat.eq_zero_or_pos k with rfl | hpos
  · exact isSize_zero
  · exact isSize_of_isPositive (isPositive_ofNat hpos hlt)

/-- The powers of ten that are kept in a table are above zero. -/
theorem isPositive_power (i : Nat) (hi : i < Float.exactlyRepresentablePowersOfTen.size) :
    isPositive Float.exactlyRepresentablePowersOfTen[i] = true := by
  have hall : Float.exactlyRepresentablePowersOfTen.toList.all isPositive = true := rfl
  exact List.all_eq_true.mp hall _ (Array.getElem_mem_toList hi)

theorem isSize_toFloat {n : Nat} (hn : n < 2 ^ 53) : IsSize n.toUInt64.toFloat := by
  rcases Nat.eq_zero_or_pos n with rfl | hpos
  · rfl
  · change sign? (UnpackedFloat.unpack .binary64 (UnpackedFloat.pack .binary64
      (UnpackedFloat.ofUInt64 .binary64 n.toUInt64))) = _
    rw [sign?_unpack_pack, unpacked_ofUInt64 hpos hn]
    rfl

theorem sign?_ofScientific (n : Nat) (k : Int) :
    sign? (UnpackedFloat.ofScientific .binary64 n k) = some .positive := by
  rw [UnpackedFloat.ofScientific]
  split
  · rfl
  · split
    · rfl
    · split
      · rfl
      · split
        · exact sign?_roundWithAccuracy .exact
        · exact sign?_roundWithAccuracy _

theorem isSize_ofScientific (n : Nat) (isBelow : Bool) (k : Nat) :
    IsSize (Float.ofScientific n isBelow k) := by
  rw [Float.ofScientific]
  split
  next hfast =>
    dsimp only
    split
    · exact (isSize_toFloat hfast.1).div (isPositive_power _ _)
    · exact (isSize_toFloat hfast.1).mul (isPositive_power _ _)
  next =>
    change sign? (UnpackedFloat.unpack .binary64 (UnpackedFloat.pack .binary64
      (UnpackedFloat.ofScientific .binary64 n _))) = _
    rw [sign?_unpack_pack, sign?_ofScientific]

/-- **A decimal literal denotes a number.** -/
theorem isSize_value (n : Nat) (k : Int) : IsSize (Decimal.value n k) := by
  unfold Decimal.value
  dsimp only
  split
  · exact isSize_zero
  · split
    · exact isSize_infinity
    · split
      · exact isSize_zero
      · exact isSize_ofScientific _ _ _

end Literals

/-! ### Rounding that loses nothing -/

section Exact

variable {a b k s : Nat}

/-- How far a product or a quotient is moved up is enough for its digits. -/
theorem roundWithAccuracy_natural (hpos : 0 < k) (hlt : k < 2 ^ 53) (hgap : gap k ≤ s) :
    roundWithAccuracy .binary64 .positive (k * 2 ^ s) (-s) .exact
      = unpacked (isNormal_gap hpos hlt) := by
  have hround := roundWithAccuracy_exact (isNormal_gap hpos hlt) (s - gap k)
  have hdigits : k * 2 ^ gap k * 2 ^ (s - gap k) = k * 2 ^ s := by
    rw [Nat.mul_assoc, ← Nat.pow_add, Nat.add_sub_cancel' hgap]
  have hplace : (-gap k : Int) - (s - gap k : Nat) = -s := by omega
  rwa [hdigits, hplace] at hround

/-- A natural number is rounded to the double that it is, wherever its digits stand. -/
theorem round_natural (hpos : 0 < k) (hlt : k < 2 ^ 53) :
    UnpackedFloat.round .binary64 .positive (k * 2 ^ s) (-s) = unpacked (isNormal_gap hpos hlt) := by
  have hsum := log2_add_gap hpos hlt
  have htarget : Format.binary64.targetExponent (totalExponent (k * 2 ^ s) (-s)) = -gap k := by
    have hmin : Format.binary64.minExponent = -1074 := rfl
    have hbits : Format.binary64.mantissaBits = 53 := rfl
    rw [Format.targetExponent, totalExponent, log2_mul_two_pow (Nat.ne_of_gt hpos), hmin, hbits]
    omega
  have hmoved : decreaseExponent (k * 2 ^ s) (-s) (-gap k)
      = (k * 2 ^ max s (gap k), (-(max s (gap k) : Nat) : Int)) := by
    have hshift : (-(s : Int) - (-gap k : Int)).toNat = max s (gap k) - s := by omega
    rw [decreaseExponent, hshift, Nat.shiftLeft_eq, Nat.mul_assoc, ← Nat.pow_add,
      Nat.add_sub_cancel' (Nat.le_max_left _ _)]
    exact congrArg _ (by omega)
  rw [UnpackedFloat.round, htarget, hmoved]
  exact roundWithAccuracy_natural hpos hlt (Nat.le_max_right _ _)

theorem normalize_natural (hpos : 0 < k) (hlt : k < 2 ^ 53) :
    UnpackedFloat.normalize .binary64 (k * 2 ^ s : Nat) (-s) .positive
      = unpacked (isNormal_gap hpos hlt) := by
  have hsign : compare ((k * 2 ^ s : Nat) : Int) 0 = .gt :=
    Int.compare_eq_gt.mpr (by exact_mod_cast Nat.mul_pos hpos (Nat.two_pow_pos s))
  rw [UnpackedFloat.normalize, hsign]
  exact round_natural hpos hlt

end Exact

/-! ### Arithmetic that is exact -/

section Arithmetic

variable {a b k : Nat}

/-- What is rounded to a natural number is that number. -/
theorem ofNat_of_rounded {u : UnpackedFloat} (hpos : 0 < k) (hlt : k < 2 ^ 53)
    (hu : u = unpacked (isNormal_gap hpos hlt)) : Float.ofModel (pack u) = Float.ofNat k := by
  rw [hu, ofNat_eq_ofNormal hpos hlt]
  rfl

theorem gap_mul (ha : 0 < a) (hb : 0 < b) : gap (a * b) ≤ gap a + gap b := by
  have hle : 2 ^ (a.log2 + b.log2) ≤ a * b := by
    rw [Nat.pow_add]
    exact Nat.mul_le_mul (Nat.log2_self_le (Nat.ne_of_gt ha)) (Nat.log2_self_le (Nat.ne_of_gt hb))
  have hlog := (Nat.le_log2 (Nat.ne_of_gt (Nat.mul_pos ha hb))).mpr hle
  unfold gap
  omega

/-- **A product that is small enough is exact.** -/
theorem ofNat_mul (ha : a < 2 ^ 53) (hb : b < 2 ^ 53) (hlt : a * b < 2 ^ 53) :
    Float.ofNat a * Float.ofNat b = Float.ofNat (a * b) := by
  change Float.ofModel (pack (UnpackedFloat.mul .binary64 (Float.ofNat a).toModel.unpack
    (Float.ofNat b).toModel.unpack)) = _
  rcases Nat.eq_zero_or_pos a with rfl | hapos
  · rw [unpack_zero, Nat.zero_mul]
    rcases Nat.eq_zero_or_pos b with rfl | hbpos
    · rfl
    · rw [unpack_ofNat hbpos hb]
      rfl
  · rcases Nat.eq_zero_or_pos b with rfl | hbpos
    · rw [unpack_ofNat hapos ha, unpack_zero, Nat.mul_zero]
      rfl
    · have hpos := Nat.mul_pos hapos hbpos
      have hround := roundWithAccuracy_natural hpos hlt (gap_mul hapos hbpos)
      have hdigits : a * 2 ^ gap a * (b * 2 ^ gap b) = a * b * 2 ^ (gap a + gap b) := by
        rw [Nat.pow_add]
        ac_rfl
      have hplace : (-gap a : Int) + -gap b = -(gap a + gap b : Nat) := by omega
      rw [unpack_ofNat hapos ha, unpack_ofNat hbpos hb]
      refine ofNat_of_rounded hpos hlt ?_
      rw [← hround, ← hdigits, ← hplace]
      rfl

/-- Numbers are brought to the place of the last digit of both. -/
theorem decreaseExponent_gap (n : Nat) (h : gap a ≤ n) :
    decreaseExponent (a * 2 ^ gap a) (-gap a) (-n) = (a * 2 ^ n, (-n : Int)) := by
  have hshift : (-(gap a : Int) - -(n : Int)).toNat = n - gap a := by omega
  rw [decreaseExponent, hshift, Nat.shiftLeft_eq, Nat.mul_assoc, ← Nat.pow_add,
    Nat.add_sub_cancel' h]
  exact congrArg _ (by omega)

/-- **A sum that is small enough is exact.** -/
theorem ofNat_add (hlt : a + b < 2 ^ 53) : Float.ofNat a + Float.ofNat b = Float.ofNat (a + b) := by
  change Float.ofModel (pack (UnpackedFloat.add .binary64 (Float.ofNat a).toModel.unpack
    (Float.ofNat b).toModel.unpack)) = _
  have ha : a < 2 ^ 53 := by omega
  have hb : b < 2 ^ 53 := by omega
  rcases Nat.eq_zero_or_pos a with rfl | hapos
  · rw [unpack_zero, Nat.zero_add]
    rcases Nat.eq_zero_or_pos b with rfl | hbpos
    · rfl
    · rw [unpack_ofNat hbpos hb]
      exact ofNat_of_rounded hbpos hb rfl
  · rcases Nat.eq_zero_or_pos b with rfl | hbpos
    · rw [unpack_ofNat hapos ha, unpack_zero]
      exact ofNat_of_rounded hapos ha rfl
    · have hmin : min (-gap a : Int) (-gap b) = -(max (gap a) (gap b) : Nat) := by omega
      have hpos : 0 < a + b := by omega
      rw [unpack_ofNat hapos ha, unpack_ofNat hbpos hb]
      refine ofNat_of_rounded hpos hlt ?_
      rw [unpacked, unpacked, UnpackedFloat.add]
      simp only [hmin, decreaseExponent_gap _ (Nat.le_max_left (gap a) (gap b)),
        decreaseExponent_gap _ (Nat.le_max_right (gap a) (gap b)), Sign.apply]
      rw [← Int.natCast_add, ← Nat.add_mul]
      exact normalize_natural hpos hlt

/-- **A difference that is not negative is exact.** -/
theorem ofNat_sub (ha : a < 2 ^ 53) (hle : b ≤ a) :
    Float.ofNat a - Float.ofNat b = Float.ofNat (a - b) := by
  change Float.ofModel (pack (UnpackedFloat.sub .binary64 (Float.ofNat a).toModel.unpack
    (Float.ofNat b).toModel.unpack)) = _
  have hb : b < 2 ^ 53 := by omega
  rcases Nat.eq_zero_or_pos b with rfl | hbpos
  · rw [unpack_zero, Nat.sub_zero]
    rcases Nat.eq_zero_or_pos a with rfl | hapos
    · rfl
    · rw [unpack_ofNat hapos ha]
      exact ofNat_of_rounded hapos ha rfl
  · have hapos : 0 < a := by omega
    have hmin : min (-gap a : Int) (-gap b) = -(max (gap a) (gap b) : Nat) := by omega
    rw [unpack_ofNat hapos ha, unpack_ofNat hbpos hb, unpacked, unpacked, UnpackedFloat.sub]
    simp only [hmin, decreaseExponent_gap _ (Nat.le_max_left (gap a) (gap b)),
      decreaseExponent_gap _ (Nat.le_max_right (gap a) (gap b)), Sign.apply]
    rw [← Int.natCast_sub (Nat.mul_le_mul_right _ hle), ← Nat.sub_mul]
    rcases Nat.eq_zero_or_pos (a - b) with hzero | hpos
    · rw [hzero, Nat.zero_mul]
      rfl
    · exact ofNat_of_rounded hpos (by omega) (normalize_natural hpos (by omega))

/-- The quotient is taken with 53 digits more than both have. -/
theorem divCore_natural (ha : 0 < a) (ha' : a < 2 ^ 53) (hb : 0 < b) (hb' : b < 2 ^ 53) :
    divCore .binary64 (a * 2 ^ gap a) (-gap a) (b * 2 ^ gap b) (-gap b)
      = (a * 2 ^ (gap a + 53) / (b * 2 ^ gap b), (gap b : Int) - gap a - 53,
        accuracyOfFraction (a * 2 ^ (gap a + 53) % (b * 2 ^ gap b)) (b * 2 ^ gap b)) := by
  have hasum := log2_add_gap ha ha'
  have hbsum := log2_add_gap hb hb'
  have htarget : Format.binary64.targetExponent (totalExponent (a * 2 ^ gap a) (-gap a)
      - totalExponent (b * 2 ^ gap b) (-gap b)) = (gap b : Int) - gap a - 53 := by
    have hmin : Format.binary64.minExponent = -1074 := rfl
    have hbits : Format.binary64.mantissaBits = 53 := rfl
    rw [Format.targetExponent, totalExponent, totalExponent, log2_mul_two_pow (Nat.ne_of_gt ha),
      log2_mul_two_pow (Nat.ne_of_gt hb), hmin, hbits]
    omega
  have hmin : min (-(gap a : Int) - -(gap b : Int)) ((gap b : Int) - gap a - 53)
      = (gap b : Int) - gap a - 53 := by omega
  have hshift : (-(gap a : Int) - -(gap b : Int) - ((gap b : Int) - gap a - 53)).toNat = 53 := by omega
  rw [divCore]
  simp only [htarget, hmin, hshift, Nat.shiftLeft_eq, Nat.mul_assoc, ← Nat.pow_add]

theorem gap_div (hb : 0 < b) (hk : 0 < k) (hlt : b * k < 2 ^ 53) : gap k + gap b ≤ gap (b * k) + 53 := by
  have hlt' : b * k < 2 ^ (b.log2 + 1 + (k.log2 + 1)) := by
    rw [Nat.pow_add]
    exact Nat.mul_lt_mul'' Nat.lt_log2_self Nat.lt_log2_self
  have hlog := (Nat.log2_lt (Nat.ne_of_gt (Nat.mul_pos hb hk))).mpr hlt'
  have hblog := log2_add_gap hb (Nat.lt_of_le_of_lt (Nat.le_mul_of_pos_right b hk) hlt)
  have hklog := log2_add_gap hk (Nat.lt_of_le_of_lt (Nat.le_mul_of_pos_left k hb) hlt)
  have hbklog := log2_add_gap (Nat.mul_pos hb hk) hlt
  omega

/-- **A quotient without a remainder is exact.** -/
theorem ofNat_div (hb : 0 < b) (hb' : b < 2 ^ 53) (hlt : b * k < 2 ^ 53) :
    Float.ofNat (b * k) / Float.ofNat b = Float.ofNat k := by
  change Float.ofModel (pack (UnpackedFloat.div .binary64 (Float.ofNat (b * k)).toModel.unpack
    (Float.ofNat b).toModel.unpack)) = _
  rcases Nat.eq_zero_or_pos k with rfl | hk
  · rw [Nat.mul_zero, unpack_zero, unpack_ofNat hb hb']
    rfl
  · have hklt := Nat.lt_of_le_of_lt (Nat.le_mul_of_pos_left k hb) hlt
    have hgaps := gap_div hb hk hlt
    have hexact : b * k * 2 ^ (gap (b * k) + 53)
        = k * 2 ^ (gap (b * k) + 53 - gap b) * (b * 2 ^ gap b) := by
      have hexponent : gap (b * k) + 53 = gap (b * k) + 53 - gap b + gap b := by omega
      conv_lhs => rw [hexponent, Nat.pow_add]
      ac_rfl
    have hpos : 0 < b * 2 ^ gap b := Nat.mul_pos hb (Nat.two_pow_pos _)
    have hplace : (gap b : Int) - gap (b * k) - 53 = -(gap (b * k) + 53 - gap b : Nat) := by omega
    rw [unpack_ofNat (Nat.mul_pos hb hk) hlt, unpack_ofNat hb hb', unpacked, unpacked,
      UnpackedFloat.div, divCore_natural (Nat.mul_pos hb hk) hlt hb hb', hexact,
      Nat.mul_div_cancel _ hpos, Nat.mul_mod_left, hplace]
    exact ofNat_of_rounded hk hklt (roundWithAccuracy_natural hk hklt (by omega))

/-! ### Quotients with a remainder -/

theorem roundedMantissa_bounds (em : ExtendedMantissa) :
    em.mantissa ≤ em.roundedMantissa ∧ em.roundedMantissa ≤ em.mantissa + 1 := by
  unfold ExtendedMantissa.roundedMantissa Accuracy.roundToNearestEven
  split <;> omega

/-- A number that has one digit too many, at most, is brought to 53 digits. -/
theorem shiftToTargetExponent_bounds {m : Nat} {e : Int} (hle : 2 ^ 52 ≤ m) (hlt : m < 2 ^ 54)
    (hlow : -1074 ≤ e) (accuracy : Accuracy) :
    ∃ em f, shiftToTargetExponent .binary64 m e accuracy = (em, f) ∧
      2 ^ 52 ≤ em.mantissa ∧ em.mantissa < 2 ^ 53 ∧ e ≤ f ∧ f ≤ e + 1 := by
  have hmin : Format.binary64.minExponent = -1074 := rfl
  have hbits : (Format.binary64.mantissaBits : Int) = 53 := rfl
  have hkept : (ExtendedMantissa.ofMantissaAndAccuracy m accuracy).mantissa = m := by
    unfold ExtendedMantissa.ofMantissaAndAccuracy
    split <;> rfl
  have hne : m ≠ 0 := by omega
  have hle' := (Nat.le_log2 hne).mpr hle
  have hlt' := (Nat.log2_lt hne).mpr hlt
  rw [shiftToTargetExponent, shiftToExponent, Format.targetExponent, totalExponent, hmin, hbits]
  -- Of a mantissa of 53 digits nothing is cut off, of one of 54 digits the last.
  by_cases hlog : m.log2 = 52
  · have hshift : (max ((m.log2 : Int) + 1 + e - 53) (-1074) - e).toNat = 0 := by omega
    have hfits := (Nat.log2_lt hne).mp (show m.log2 < 53 by omega)
    rw [hshift]
    refine ⟨_, _, rfl, ?_, ?_, by omega, by omega⟩
    · change 2 ^ 52 ≤ (ExtendedMantissa.ofMantissaAndAccuracy m accuracy).mantissa
      omega
    · change (ExtendedMantissa.ofMantissaAndAccuracy m accuracy).mantissa < 2 ^ 53
      omega
  · have hshift : (max ((m.log2 : Int) + 1 + e - 53) (-1074) - e).toNat = 1 := by omega
    have hlarge := (Nat.le_log2 hne).mp (show 53 ≤ m.log2 by omega)
    rw [hshift]
    refine ⟨_, _, rfl, ?_, ?_, by omega, by omega⟩
    · change 2 ^ 52 ≤ (ExtendedMantissa.ofMantissaAndAccuracy m accuracy).mantissa / 2
      omega
    · change (ExtendedMantissa.ofMantissaAndAccuracy m accuracy).mantissa / 2 < 2 ^ 53
      omega

/-- Rounding a number of 53 or 54 digits moves its place by two at most. -/
theorem roundWithAccuracy_bounds {m : Nat} {e : Int} (hle : 2 ^ 52 ≤ m) (hlt : m < 2 ^ 54)
    (hlow : -1074 ≤ e) (hhigh : e ≤ 969) (accuracy : Accuracy) :
    ∃ n f, ∃ h : IsNormal n f, f ≤ e + 2 ∧
      roundWithAccuracy .binary64 .positive m e accuracy = unpacked h := by
  obtain ⟨em, f, hshift, hem, hem', hf, hf'⟩ := shiftToTargetExponent_bounds hle hlt hlow accuracy
  obtain ⟨hround, hround'⟩ := roundedMantissa_bounds em
  rw [roundWithAccuracy, hshift]
  by_cases hfits : em.roundedMantissa < 2 ^ 53
  · have h : IsNormal em.roundedMantissa f := ⟨by omega, hfits, by omega, by omega⟩
    have hagain := shiftToTargetExponent_exact h 0
    rw [Nat.pow_zero, Nat.mul_one, Int.natCast_zero, Int.sub_zero] at hagain
    refine ⟨_, _, h, by omega, ?_⟩
    simp only [hagain]
    rw [dif_neg (Nat.ne_of_gt h.pos)]
    rfl
  · have h : IsNormal (2 ^ 52) (f + 1) := ⟨Nat.le_refl _, by decide, by omega, by omega⟩
    have hagain := shiftToTargetExponent_exact h 1
    have hfull : em.roundedMantissa = 2 ^ 52 * 2 ^ 1 := by omega
    have hplace : f + 1 - (1 : Nat) = f := by omega
    rw [hplace, ← hfull] at hagain
    refine ⟨_, _, h, by omega, ?_⟩
    simp only [hagain]
    rfl

theorem compare_large {m : Nat} {e : Int} (h : IsNormal m e) (he : e ≤ 0) :
    (9007199254740992.0 : Float).toModel.unpack.compare (unpacked h) = some .gt := by
  have hlarge : (9007199254740992.0 : Float).toModel.unpack
      = .finite .positive (2 ^ 52) 1 (Nat.two_pow_pos 52) := rfl
  have hcompare : compare (1 : Int) e = .gt := Int.compare_eq_gt.mpr (by omega)
  rw [hlarge, unpacked, UnpackedFloat.compare, hcompare]
  rfl

/-- **A quotient by two or more is below `2 ^ 53`.** -/
theorem quotient_lt (ha : a < 2 ^ 53) (hb : 2 ≤ b) (hb' : b < 2 ^ 53) :
    ¬9007199254740992.0 ≤ Float.ofNat a / Float.ofNat b := by
  have hbpos : 0 < b := by omega
  intro hle
  rw [le_iff] at hle
  change ((9007199254740992.0 : Float).toModel.unpack.compare (pack (UnpackedFloat.div .binary64
    (Float.ofNat a).toModel.unpack (Float.ofNat b).toModel.unpack)).unpack).any (·.isLE) = true at hle
  rcases Nat.eq_zero_or_pos a with rfl | hapos
  · rw [unpack_zero, unpack_ofNat hbpos hb'] at hle
    have hzero : UnpackedFloat.div .binary64 (.zero .positive)
        (unpacked (isNormal_gap hbpos hb')) = .zero .positive := rfl
    have hkept : (pack (.zero .positive)).unpack = .zero .positive := rfl
    rw [hzero, hkept] at hle
    exact Bool.false_ne_true hle
  -- Both mantissas are scaled to 53 digits, so that their quotient has 53 or 54: the result is
  -- normal, and its exponent is too small for 2 ^ 53.
  · have hlog : 1 ≤ b.log2 := (Nat.le_log2 (by omega)).mpr hb
    have hsum := log2_add_gap hbpos hb'
    have hgap : gap a ≤ 52 := Nat.sub_le ..
    have hdividend := isNormal_gap hapos ha
    have hdivisor := isNormal_gap hbpos hb'
    have hdigits : a * 2 ^ (gap a + 53) = a * 2 ^ gap a * 2 ^ 53 := by rw [Nat.pow_add, Nat.mul_assoc]
    have hlow : 2 ^ 52 ≤ a * 2 ^ (gap a + 53) / (b * 2 ^ gap b) := by
      rw [Nat.le_div_iff_mul_le hdivisor.pos, hdigits]
      have hle := hdividend.le
      have hlt := hdivisor.lt
      omega
    have hhigh : a * 2 ^ (gap a + 53) / (b * 2 ^ gap b) < 2 ^ 54 := by
      rw [Nat.div_lt_iff_lt_mul hdivisor.pos, hdigits]
      have hle := hdivisor.le
      have hlt := hdividend.lt
      omega
    obtain ⟨m, e, h, he, hround⟩ := roundWithAccuracy_bounds (e := (gap b : Int) - gap a - 53)
      hlow hhigh (by omega) (by omega)
      (accuracyOfFraction (a * 2 ^ (gap a + 53) % (b * 2 ^ gap b)) (b * 2 ^ gap b))
    have hquotient : (pack (UnpackedFloat.div .binary64 (Float.ofNat a).toModel.unpack
        (Float.ofNat b).toModel.unpack)).unpack = unpacked h := by
      rw [unpack_ofNat hapos ha, unpack_ofNat hbpos hb', unpacked, unpacked, UnpackedFloat.div,
        divCore_natural hapos ha hbpos hb']
      dsimp only
      change (pack (roundWithAccuracy .binary64 .positive _ _ _)).unpack = _
      rw [hround]
      exact unpack_pack_unpacked h
    rw [hquotient, compare_large h (by omega)] at hle
    exact Bool.false_ne_true hle

/-! ### Remainders and integer parts -/

theorem ofParts_zero (e : Int) : ofParts 0 e = 0.0 := rfl

theorem ofParts_natural (hlt : k < 2 ^ 53) (zeros : Nat) :
    ofParts (k * 2 ^ zeros) (-zeros) = Float.ofNat k := by
  rcases Nat.eq_zero_or_pos k with rfl | hpos
  · rw [Nat.zero_mul]
    rfl
  · rw [ofParts_zeros hpos hlt, ofNat_eq_ofNormal hpos hlt]

/-- **A remainder is exact.** -/
theorem remainder_ofNat (ha : a < 2 ^ 53) (hb : 0 < b) (hb' : b < 2 ^ 53) :
    remainder (Float.ofNat a) (Float.ofNat b) = Float.ofNat (a % b) := by
  have hne : b * 2 ^ gap b ≠ 0 := Nat.ne_of_gt (isNormal_gap hb hb').pos
  rcases Nat.eq_zero_or_pos a with rfl | hapos
  · have hsign := isNegative_ofNat (Nat.two_pow_pos 53)
    rw [remainder, magnitude?_zero, ofNat_eq_ofNormal hb hb', magnitude?_ofNormal]
    dsimp only
    rw [if_neg hne, Nat.zero_mul, Nat.zero_mod, ofParts_zero, hsign, Nat.zero_mod]
    rfl
  · have hmin : min (-(gap a : Int)) (-gap b) = -(max (gap a) (gap b) : Nat) := by omega
    have hup : ∀ c, gap c ≤ max (gap a) (gap b) →
        c * 2 ^ gap c * 2 ^ (-(gap c : Int) - -(max (gap a) (gap b) : Nat)).toNat
          = c * 2 ^ max (gap a) (gap b) := by
      intro c hc
      have hshift : (-(gap c : Int) - -(max (gap a) (gap b) : Nat)).toNat
          = max (gap a) (gap b) - gap c := by omega
      rw [hshift, Nat.mul_assoc, ← Nat.pow_add, Nat.add_sub_cancel' hc]
    rw [remainder, ofNat_eq_ofNormal hapos ha, ofNat_eq_ofNormal hb hb', magnitude?_ofNormal,
      magnitude?_ofNormal]
    dsimp only
    rw [if_neg hne, hmin, hup a (Nat.le_max_left _ _), hup b (Nat.le_max_right _ _),
      isNegative_ofNormal, Nat.mul_mod_mul_right, withSign, if_neg Bool.false_ne_true]
    exact ofParts_natural (Nat.lt_of_le_of_lt (Nat.mod_le a b) ha) _

theorem floor_ofNat (hlt : k < 2 ^ 53) : floor (Float.ofNat k) = Float.ofNat k := by
  rw [floor, trunc_ofNat hlt]
  exact if_neg fun hself => Nat.lt_irrefl k ((ofNat_lt hlt hlt).mp hself)

end Arithmetic

end Double

/-! ### Numbers of digits -/

namespace Radix

variable {radix d : Nat} {c : Char} {cs : List Char} {ds : List Nat} {x : Float}

theorem digit?_lt (h : digit? radix c = some d) : d < radix := by
  simp only [digit?, Option.ite_none_right_eq_some, Option.some.injEq] at h
  exact h.2 ▸ h.1

/-- Digits, with the most significant one first, are appended one by one. -/
theorem ofDigits_reverse (radix : Nat) (ds : List Nat) :
    Nat.ofDigits radix ds.reverse = ds.foldl (fun n d => n * radix + d) 0 := by
  rw [Nat.ofDigits_eq_foldr, List.foldr_reverse]
  refine List.foldl_ext _ _ _ fun n d _ => ?_
  rw [Nat.cast_id, Nat.add_comm, Nat.mul_comm]

theorem le_foldl (hradix : 0 < radix) (ds : List Nat) (n : Nat) :
    n ≤ ds.foldl (fun n d => n * radix + d) n := by
  induction ds generalizing n with
  | nil => exact Nat.le_refl n
  | cons d ds ih =>
    refine Nat.le_trans ?_ (ih _)
    exact Nat.le_trans (Nat.le_mul_of_pos_right n hradix) (Nat.le_add_right _ d)

/-- As long as the number stays below `2 ^ 53`, nothing is lost when a digit is appended. -/
theorem foldl_natural (hradix : 0 < radix) (hradix' : radix < 2 ^ 53) (n : Nat)
    (hlt : ds.foldl (fun n d => n * radix + d) n < 2 ^ 53) :
    ds.foldl (fun x d => x * radix.toFloat + d.toFloat) (Float.ofNat n)
      = Float.ofNat (ds.foldl (fun n d => n * radix + d) n) := by
  induction ds generalizing n with
  | nil => rfl
  | cons d ds ih =>
    have hstep : n * radix + d < 2 ^ 53 := Nat.lt_of_le_of_lt (le_foldl hradix ds _) hlt
    have hn : n < 2 ^ 53 := by
      have hle := Nat.le_mul_of_pos_right n hradix
      omega
    rw [List.foldl_cons, List.foldl_cons, Nat.toFloat, Nat.toFloat,
      Double.ofNat_mul hn hradix' (by omega), Double.ofNat_add hstep]
    exact ih _ hlt

/-- **Digits make up the number that they denote**, if that is below `2 ^ 53`. -/
theorem value_natural (hradix : 0 < radix) (hradix' : radix < 2 ^ 53)
    (hlt : Nat.ofDigits radix ds.reverse < 2 ^ 53) :
    value radix ds = Float.ofNat (Nat.ofDigits radix ds.reverse) := by
  rw [ofDigits_reverse] at hlt ⊢
  exact foldl_natural hradix hradix' 0 hlt

theorem isSize_foldl (hradix : 0 < radix) (hradix' : radix < 2 ^ 53) (hds : ∀ d ∈ ds, d < radix)
    (hx : Double.IsSize x) :
    Double.IsSize (ds.foldl (fun x d => x * radix.toFloat + d.toFloat) x) := by
  induction ds generalizing x with
  | nil => exact hx
  | cons d ds ih =>
    obtain ⟨hd, hds⟩ := List.forall_mem_cons.mp hds
    refine ih hds ((hx.mul (Double.isPositive_ofNat hradix hradix')).add (Double.isSize_ofNat ?_))
    omega

theorem isSize_value (hradix : 0 < radix) (hradix' : radix < 2 ^ 53) (hds : ∀ d ∈ ds, d < radix) :
    Double.IsSize (value radix ds) :=
  isSize_foldl hradix hradix' hds Double.isSize_zero

/-- Characters that are digits are appended as such. -/
theorem append_digits (h : cs.map (digit? radix) = ds.map some) (x : Float) :
    append radix x cs = ds.foldl (fun x d => x * radix.toFloat + d.toFloat) x := by
  induction cs generalizing ds x with
  | nil =>
    cases ds with
    | nil => rfl
    | cons d ds => exact nomatch h
  | cons c cs ih =>
    cases ds with
    | nil => exact nomatch h
    | cons d ds =>
      obtain ⟨hc, hcs⟩ := List.cons.inj h
      rw [append, hc]
      exact ih hcs _

/-- One character that is no digit is enough. -/
theorem append_other (h : ∃ c ∈ cs, digit? radix c = none) (x : Float) :
    append radix x cs = Double.nan := by
  induction cs generalizing x with
  | nil =>
    obtain ⟨c, hc, -⟩ := h
    exact absurd hc List.not_mem_nil
  | cons c cs ih =>
    rw [append]
    cases hc : digit? radix c with
    | none => rfl
    | some d =>
      obtain ⟨c', hc', hnone⟩ := h
      rcases List.mem_cons.mp hc' with rfl | hmem
      · rw [hnone] at hc
        exact nomatch hc
      · exact ih ⟨c', hmem, hnone⟩ _

/-- Either all characters are digits or there is one that is not. -/
theorem digits_cases (radix : Nat) (cs : List Char) :
    (∃ ds : List Nat, cs.map (digit? radix) = ds.map some) ∨ ∃ c ∈ cs, digit? radix c = none := by
  induction cs with
  | nil => exact .inl ⟨[], rfl⟩
  | cons c cs ih =>
    cases hc : digit? radix c with
    | none => exact .inr ⟨c, List.mem_cons_self, hc⟩
    | some d =>
      rcases ih with ⟨ds, hds⟩ | ⟨c', hc', hnone⟩
      · exact .inl ⟨d :: ds, by rw [List.map_cons, List.map_cons, hc, hds]⟩
      · exact .inr ⟨c', List.mem_cons_of_mem c hc', hnone⟩

theorem lt_of_digits (h : cs.map (digit? radix) = ds.map some) : ∀ d ∈ ds, d < radix := by
  intro d hd
  have hmem : some d ∈ cs.map (digit? radix) := h ▸ List.mem_map_of_mem hd
  obtain ⟨c, -, hc⟩ := List.mem_map.mp hmem
  exact digit?_lt hc

end Radix

end Scriptlet
