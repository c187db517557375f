import Scriptlet.Evaluation.Run
import Scriptlet.Proofs.NumberReading
import Scriptlet.Proofs.Outcomes

/-!
# Integers in other radices

An integer below `2 ^ 53` in size is written in a radix by division with remainder.  Every quotient and
every remainder is exact, so that the digits are those of the integer; its fraction is zero and below
half of the distance to the next double, so that there are no others.  Reading puts the digits together
again, which is exact as well.

## Main definitions

* `Radix.naturalDigits` — the digits of a natural number.
* `IsIntegerText` — the text of an integer in a radix.

## Main results

* `Double.zero_lt_halfStep` — the distance between neighbours is not rounded away.
* `Radix.divide_natural` — the loop finds the digits, and its bound suffices.
* `toRadix?_integer`, `IsIntegerText.read` — what is written, and how it is read.
* `radix_round_trip` — **written in a radix and read again, an integer is what it was**.
-/

namespace Scriptlet

open Float.Model Float.Model.UnpackedFloat

namespace Double

/-! ### Integers as doubles -/

section Integers

variable {n k : Int}

/-- The double of an integer is that of its size with its sign. -/
theorem ofInt_eq (n : Int) : Float.ofInt n = withSign (n < 0) (Float.ofNat n.natAbs) := by
  cases n with
  | ofNat k =>
    rw [withSign, decide_eq_false (by simp), if_neg Bool.false_ne_true]
    rfl
  | negSucc k =>
    rw [withSign, decide_eq_true (Int.negSucc_lt_zero k), if_pos rfl]
    rfl

theorem unpack_ofInt (hpos : 0 < n.natAbs) (hlt : n.natAbs < 2 ^ 53) :
    (Float.ofInt n).toModel.unpack
      = .finite (if n < 0 then .negative else .positive) (n.natAbs * 2 ^ gap n.natAbs)
          (-gap n.natAbs) (isNormal_gap hpos hlt).pos := by
  have hsize := unpack_ofNat hpos hlt
  rw [ofInt_eq, withSign]
  by_cases hneg : n < 0
  · rw [decide_eq_true hneg, if_pos rfl]
    change (pack (Float.ofNat n.natAbs).toModel.unpack.neg).unpack = _
    rw [hsize]
    simp only [if_pos hneg]
    exact unpack_pack_finite (isNormal_gap hpos hlt) .negative
  · rw [decide_eq_false hneg, if_neg Bool.false_ne_true, hsize]
    simp only [if_neg hneg]
    rfl

theorem abs_ofInt (hlt : n.natAbs < 2 ^ 53) : (Float.ofInt n).abs = Float.ofNat n.natAbs := by
  change Float.ofModel (pack (Float.ofInt n).toModel.unpack.abs) = _
  rcases Nat.eq_zero_or_pos n.natAbs with hzero | hpos
  · rw [Int.natAbs_eq_zero.mp hzero]
    rfl
  · rw [unpack_ofInt hpos hlt]
    exact ofNat_of_rounded hpos hlt rfl

theorem isFinite_ofInt (hlt : n.natAbs < 2 ^ 53) : (Float.ofInt n).isFinite = true := by
  change (Float.ofInt n).toModel.unpack.isFinite = true
  rcases Nat.eq_zero_or_pos n.natAbs with hzero | hpos
  · rw [Int.natAbs_eq_zero.mp hzero]
    rfl
  · rw [unpack_ofInt hpos hlt]
    rfl

theorem ofInt_lt_zero (hlt : n.natAbs < 2 ^ 53) : Float.ofInt n < 0.0 ↔ n < 0 := by
  have hnone : (0.0 : Float).toModel.unpack = .zero .positive := rfl
  rw [lt_iff, hnone]
  rcases Nat.eq_zero_or_pos n.natAbs with hzero | hpos
  · rw [Int.natAbs_eq_zero.mp hzero]
    exact iff_of_false (by decide) (Int.lt_irrefl 0)
  · rw [unpack_ofInt hpos hlt]
    by_cases hneg : n < 0
    · simp only [if_pos hneg]
      exact iff_of_true rfl hneg
    · simp only [if_neg hneg]
      exact iff_of_false (by simp [UnpackedFloat.compare]) hneg

/-- Different integers are different doubles. -/
theorem ofInt_injective (hn : n.natAbs < 2 ^ 53) (hk : k.natAbs < 2 ^ 53)
    (h : Float.ofInt n = Float.ofInt k) : n = k := by
  have habs : n.natAbs = k.natAbs := by
    have hpart := naturalPart?_ofNat hn
    rw [← abs_ofInt hn, h, abs_ofInt hk, naturalPart?_ofNat hk] at hpart
    exact (Option.some.inj hpart).symm
  have hsign : n < 0 ↔ k < 0 := by rw [← ofInt_lt_zero hn, h, ofInt_lt_zero hk]
  omega

end Integers

/-! ### Steps between neighbours -/

section Steps

variable {m : Nat} {e : Int} {k : Nat} {x y : Float}

/-- The next double has the next digits, or the least ones of the next place. -/
theorem exists_successor (h : IsNormal m e) (he : e < 971) :
    ∃ n f, ∃ hn : IsNormal n f, Float.ofBits ((ofNormal h).toBits + 1) = ofNormal hn := by
  have hbits := toNat_toBits_ofNormal h
  have hsucc : (ofNormal h).toBits + 1 = ((ofNormal h).toBits.toNat + 1).toUInt64 := by
    rw [← UInt64.toNat_inj]
    simp
  obtain ⟨hle, hlt, hlow, hhigh⟩ := h
  rw [hsucc]
  by_cases hfull : m + 1 = 2 ^ 53
  · have hn : IsNormal (2 ^ 52) (e + 1) := ⟨Nat.le_refl _, by decide, by omega, by omega⟩
    exact ⟨_, _, hn, ofBits_eq_ofNormal hn (by rw [hbits]; omega)⟩
  · have hn : IsNormal (m + 1) e := ⟨by omega, by omega, hlow, hhigh⟩
    exact ⟨_, _, hn, ofBits_eq_ofNormal hn (by rw [hbits]; omega)⟩

theorem sign?_normalize_ne_none (n : Int) (e : Int) (s : Sign) :
    sign? (UnpackedFloat.normalize .binary64 n e s) ≠ none := by
  unfold UnpackedFloat.normalize
  split
  next => exact ne_of_eq_of_ne (sign?_roundWithAccuracy .exact) (Option.some_ne_none _)
  next => exact Option.some_ne_none _
  next => exact ne_of_eq_of_ne (sign?_roundWithAccuracy .exact) (Option.some_ne_none _)

theorem isNaN_sub {n : Nat} {f : Int} (h : IsNormal m e) (hn : IsNormal n f) :
    (ofNormal h - ofNormal hn).isNaN = false := by
  rw [isNaN_iff_sign?]
  change sign? (UnpackedFloat.unpack .binary64 (UnpackedFloat.pack .binary64
    (UnpackedFloat.sub .binary64 (pack (unpacked h)).unpack (pack (unpacked hn)).unpack))) ≠ none
  have hunpack : ∀ {m : Nat} {e : Int} (h : IsNormal m e), (pack (unpacked h)).unpack = unpacked h :=
    fun h => unpack_pack_unpacked h
  rw [sign?_unpack_pack, hunpack, hunpack]
  exact sign?_normalize_ne_none _ _ _

theorem isNaN_half (h : x.isNaN = false) : (0.5 * x).isNaN = false := by
  rw [isNaN_iff_sign?] at h ⊢
  have hhalf : (0.5 : Float).toModel.unpack = .finite .positive (2 ^ 52) (-53) (Nat.two_pow_pos 52) := rfl
  change sign? (UnpackedFloat.unpack .binary64 (UnpackedFloat.pack .binary64
    (UnpackedFloat.mul .binary64 (0.5 : Float).toModel.unpack x.toModel.unpack))) ≠ none
  rw [sign?_unpack_pack, hhalf]
  cases hu : x.toModel.unpack with
  | notANumber => rw [hu] at h; exact absurd rfl h
  | infinity s => exact Option.some_ne_none _
  | zero s => exact Option.some_ne_none _
  | finite s m e hm =>
    exact ne_of_eq_of_ne (sign?_roundWithAccuracy .exact) (Option.some_ne_none _)

theorem unpack_least :
    (Float.ofBits 1).toModel.unpack = .finite .positive 1 (-1074) Nat.one_pos := rfl

theorem zero_lt_least : 0.0 < Float.ofBits 1 := by
  rw [lt_iff, unpack_least]
  rfl

/-- A number that is not below the smallest double is above zero. -/
theorem zero_lt_of_not_lt (h : x.isNaN = false) (hleast : ¬x < Float.ofBits 1) : 0.0 < x := by
  have hzero : (0.0 : Float).toModel.unpack = .zero .positive := rfl
  rw [isNaN_iff_sign?] at h
  rw [lt_iff, unpack_least] at hleast
  rw [lt_iff, hzero]
  cases hu : x.toModel.unpack with
  | notANumber => rw [hu] at h; exact absurd rfl h
  | infinity s =>
    rw [hu] at hleast
    cases s with
    | positive => rfl
    | negative => exact absurd rfl hleast
  | zero s => rw [hu] at hleast; exact absurd rfl hleast
  | finite s m e hm =>
    rw [hu] at hleast
    cases s with
    | positive => rfl
    | negative => exact absurd rfl hleast

/-- Half the distance from a natural number to the next double is something. -/
theorem zero_lt_halfStep (hlt : k < 2 ^ 53) : 0.0 < Radix.halfStep (Float.ofNat k) := by
  rcases Nat.eq_zero_or_pos k with rfl | hpos
  · exact zero_lt_least
  · rw [Radix.halfStep]
    split
    next => exact zero_lt_least
    next hleast =>
      -- The distance may have been rounded, but it is a number, and too small ones were replaced.
      refine zero_lt_of_not_lt (isNaN_half ?_) hleast
      have hgap : (-gap k : Int) < 971 := by omega
      rw [ofNat_eq_ofNormal hpos hlt]
      obtain ⟨n, f, hn, hsucc⟩ := exists_successor (isNormal_gap hpos hlt) hgap
      rw [hsucc]
      exact isNaN_sub hn (isNormal_gap hpos hlt)

end Steps

end Double

/-! ### The digits of natural numbers -/

namespace Radix

/-- The digits of a natural number, the most significant one first. -/
def naturalDigits (radix k : Nat) : List Nat := if k = 0 then [0] else (Nat.digits radix k).reverse

section Digits

variable {radix k d : Nat} {fuel : Nat}

theorem naturalDigits_of_lt (h : k < radix) : naturalDigits radix k = [k] := by
  rw [naturalDigits]
  split
  next hzero => rw [hzero]
  next hne =>
    rw [Nat.digits_of_lt radix k hne h]
    rfl

theorem naturalDigits_div (hradix : 2 ≤ radix) (h : radix ≤ k) :
    naturalDigits radix k = naturalDigits radix (k / radix) ++ [k % radix] := by
  have hquotient : 0 < k / radix := Nat.div_pos h (by omega)
  rw [naturalDigits, if_neg (by omega), naturalDigits, if_neg (Nat.ne_of_gt hquotient),
    Nat.digits_def' (by omega) (by omega), List.reverse_cons]

theorem ofDigits_naturalDigits (radix k : Nat) :
    Nat.ofDigits radix (naturalDigits radix k).reverse = k := by
  rw [naturalDigits]
  split
  next hzero =>
    rw [hzero]
    rfl
  next => rw [List.reverse_reverse, Nat.ofDigits_digits]

theorem naturalDigits_lt (hradix : 2 ≤ radix) (hd : d ∈ naturalDigits radix k) : d < radix := by
  rw [naturalDigits] at hd
  split at hd
  next => rw [List.mem_singleton.mp hd]; omega
  next => exact Nat.digits_lt_base (by omega) (List.mem_reverse.mp hd)

/-- The first digit is a zero in the text of zero only. -/
theorem head_naturalDigits (radix k : Nat) : ∃ d ds, naturalDigits radix k = d :: ds ∧
    (d = 0 → ds = []) := by
  rw [naturalDigits]
  split
  next => exact ⟨0, [], rfl, fun _ => rfl⟩
  next hne =>
    have hnil : Nat.digits radix k ≠ [] := Nat.digits_ne_nil_iff_ne_zero.mpr hne
    obtain ⟨d, ds, hds⟩ := List.exists_cons_of_ne_nil (List.reverse_ne_nil_iff.mpr hnil)
    refine ⟨d, ds, hds, fun hzero => absurd hzero ?_⟩
    have hlast := Nat.getLast_digit_ne_zero radix hne
    rw [← List.head_reverse (List.reverse_ne_nil_iff.mpr hnil)] at hlast
    simpa only [hds, List.head_cons] using hlast

/-- One round of the division is exact. -/
theorem divide_round (hradix : 2 ≤ radix) (hradix' : radix < 2 ^ 53) (hk : k < 2 ^ 53) (fuel : Nat)
    (acc : List Nat) : divide radix (fuel + 1) (Float.ofNat k) acc
      = if k < radix then some (k % radix :: acc)
        else divide radix fuel (Float.ofNat (k / radix)) (k % radix :: acc) := by
  have hrest : k % radix < 2 ^ 53 := Nat.lt_of_le_of_lt (Nat.mod_le k radix) hk
  have hquotient : k / radix < 2 ^ 53 := Nat.lt_of_le_of_lt (Nat.div_le_self k radix) hk
  have hexact : k - k % radix = radix * (k / radix) := by
    have hdivision := Nat.div_add_mod k radix
    omega
  have hnext : (Float.ofNat k - Float.ofNat (k % radix)) / Float.ofNat radix
      = Float.ofNat (k / radix) := by
    rw [Double.ofNat_sub hk (Nat.mod_le k radix), hexact]
    exact Double.ofNat_div (by omega) hradix' (by omega)
  have hzero : (0.0 : Float) = Float.ofNat 0 := rfl
  have hlast : Float.ofNat (k / radix) ≤ 0.0 ↔ k < radix := by
    rw [hzero, Double.ofNat_le hquotient (Nat.two_pow_pos 53), Nat.le_zero,
      Nat.div_eq_zero_iff_lt (by omega)]
  rw [divide, Nat.toFloat, Double.remainder_ofNat hk (by omega) hradix']
  simp only [hnext, hlast, Double.naturalPart?_ofNat hrest, Option.getD_some]

/-- **Division with remainder gives the digits**, and the bound of the loop is enough. -/
theorem divide_natural (hradix : 2 ≤ radix) (hradix' : radix < 2 ^ 53) (hk : k < 2 ^ 53)
    (hfuel : k < 2 ^ fuel) (acc : List Nat) :
    divide radix (fuel + 1) (Float.ofNat k) acc = some (naturalDigits radix k ++ acc) := by
  induction fuel generalizing k acc with
  | zero =>
    have hlt : k < radix := by omega
    rw [divide_round hradix hradix' hk, if_pos hlt, Nat.mod_eq_of_lt hlt, naturalDigits_of_lt hlt]
    rfl
  | succ fuel ih =>
    rw [divide_round hradix hradix' hk]
    split
    next hlt =>
      rw [Nat.mod_eq_of_lt hlt, naturalDigits_of_lt hlt]
      rfl
    next hle =>
      -- A quotient is at most half of the number, so that a bound in binary digits is enough.
      have hhalf : k / radix ≤ k / 2 := Nat.div_le_div_left hradix Nat.two_pos
      rw [Nat.pow_succ] at hfuel
      rw [ih (by omega) (by omega), naturalDigits_div (k := k) hradix (by omega), List.append_assoc]
      rfl

/-- **An integer is written with its digits.** -/
theorem integerDigits?_natural (hradix : 2 ≤ radix) (hradix' : radix < 2 ^ 53) (hk : k < 2 ^ 53) :
    integerDigits? radix (Float.ofNat k) = some (naturalDigits radix k) := by
  have hscale : scaleDown radix.toFloat 1100 (Float.ofNat k) 0 = some (Float.ofNat k, 0) := by
    rw [scaleDown, if_neg (Double.quotient_lt hk hradix hradix')]
  have hfuel : ∀ fuel, 53 ≤ fuel → k < 2 ^ fuel := fun fuel hle =>
    Nat.lt_of_lt_of_le hk (Nat.pow_le_pow_right Nat.two_pos hle)
  rw [integerDigits?, hscale]
  dsimp only
  rw [List.replicate_zero, divide_natural hradix hradix' hk (hfuel 1099 (by decide)), List.append_nil]

/-- An integer has no digits behind the point. -/
theorem fractionDigits?_natural (hk : k < 2 ^ 53) :
    fractionDigits? radix (Float.ofNat k) (Float.ofNat k - Float.ofNat k) = some ([], false) := by
  rw [Double.ofNat_sub hk (Nat.le_refl k), Nat.sub_self, fractionDigits?]
  exact if_pos (Double.zero_lt_halfStep hk)

end Digits

/-! ### The characters of digits -/

section Characters

variable {radix d : Nat} {c : Char} {cs : List Char} {ds : List Nat}

theorem digit?_of_lt (h : digit? 36 c = some d) (hd : d < radix) : digit? radix c = some d := by
  simp only [digit?, Option.ite_none_right_eq_some, Option.some.injEq] at h ⊢
  exact ⟨h.2 ▸ hd, h.2⟩

/-- The character of a digit is read as the digit. -/
theorem digit?_digitChar (hradix : radix ≤ 36) (hd : d < radix) :
    digit? radix (digitChar d) = some d := by
  have hall : ∀ d : Fin 36, digit? 36 (digitChar d) = some d.val := by decide
  exact digit?_of_lt (hall ⟨d, by omega⟩) hd

theorem map_digit? (hradix : radix ≤ 36) (hds : ∀ d ∈ ds, d < radix) :
    (ds.map digitChar).map (digit? radix) = ds.map some := by
  rw [List.map_map]
  exact List.map_congr_left fun d hd => digit?_digitChar hradix (hds d hd)

/-- The character of a digit is no blank and no sign. -/
theorem digitChar_plain (hd : d < 36) :
    isBlank (digitChar d) = false ∧ digitChar d ≠ '+' ∧ digitChar d ≠ '-' := by
  have hall : ∀ d : Fin 36, isBlank (digitChar d) = false ∧ digitChar d ≠ '+' ∧ digitChar d ≠ '-' := by
    decide
  exact hall ⟨d, hd⟩

/-- The letter of a mark is no hexadecimal digit. -/
theorem dropHexMark?_digits (h : cs.map (digit? 16) = ds.map some) : dropHexMark? cs = none := by
  have hdigit : ∀ c ∈ cs, digit? 16 c ≠ none := fun c hc hnone => by
    have hmem : digit? 16 c ∈ ds.map some := h ▸ List.mem_map_of_mem hc
    obtain ⟨d, -, hd⟩ := List.mem_map.mp hmem
    rw [hnone] at hd
    exact nomatch hd
  unfold dropHexMark?
  split
  next => exact absurd (by decide) (hdigit 'x' (by simp))
  next => exact absurd (by decide) (hdigit 'X' (by simp))
  next => rfl

theorem readDigits_digits (hten : radix ≠ 10) (hcs : cs ≠ [])
    (h : cs.map (digit? radix) = ds.map some) : readDigits radix cs = value radix ds := by
  have hall : ∀ c ∈ cs, (digit? radix c).isSome = true := fun c hc => by
    have hmem : digit? radix c ∈ ds.map some := h ▸ List.mem_map_of_mem hc
    obtain ⟨d, -, hd⟩ := List.mem_map.mp hmem
    rw [← hd, Option.isSome_some]
  have hread : cs.filterMap (digit? radix) = ds := by
    have hfilter := congrArg (List.filterMap id) h
    rwa [List.filterMap_map, List.filterMap_map, Function.id_comp, Function.id_comp,
      List.filterMap_some] at hfilter
  have hne : cs.isEmpty = false := Bool.eq_false_iff.mpr fun hnil => hcs (List.isEmpty_iff.mp hnil)
  rw [readDigits]
  simp only [List.takeWhile_eq_self_iff.mpr hall, hne, if_neg Bool.false_ne_true, if_neg hten, hread]

end Characters

end Radix

/-! ### Texts of integers -/

/-- The text of an integer: a minus if it is negative, and its digits, with no zero in front unless
that is all. -/
def IsIntegerText (radix : Nat) (n : Int) (cs : List Char) : Prop :=
  ∃ d ds, cs = (if n < 0 then ['-'] else []) ++ (d :: ds).map Radix.digitChar ∧
    (∀ e ∈ d :: ds, e < radix) ∧ (d = 0 → ds = []) ∧ Nat.ofDigits radix (d :: ds).reverse = n.natAbs

section Integers

variable {radix : Nat} {n : Int} {cs : List Char}

/-- An integer is written as its text. -/
theorem toRadix?_integer (hlow : 2 ≤ radix) (hhigh : radix ≤ 36) (hn : n.natAbs < 2 ^ 53) :
    ∃ s, Double.toRadix? (Float.ofInt n) radix = some s ∧ IsIntegerText radix n s.toList := by
  obtain ⟨d, ds, hds, hzero⟩ := Radix.head_naturalDigits radix n.natAbs
  have hlt : ∀ e ∈ d :: ds, e < radix := fun e he => Radix.naturalDigits_lt hlow (hds ▸ he)
  have hvalue : Nat.ofDigits radix (d :: ds).reverse = n.natAbs :=
    hds ▸ Radix.ofDigits_naturalDigits radix n.natAbs
  have hdigits := Radix.integerDigits?_natural hlow (by omega : radix < 2 ^ 53) hn
  have htext : Double.toRadix? (Float.ofInt n) radix = some (String.ofList
      (if n < 0 then '-' :: (d :: ds).map Radix.digitChar else (d :: ds).map Radix.digitChar)) := by
    rw [Double.toRadix?, Double.abs_ofInt hn, Double.floor_ofNat hn,
      Radix.fractionDigits?_natural hn]
    simp only [Double.ofInt_lt_zero hn, Option.bind_eq_bind, Option.bind_some, Option.pure_def]
    rw [if_neg Bool.false_ne_true, hdigits, Option.bind_some, hds]
    simp only [List.isEmpty_nil, if_pos, List.append_nil]
  refine ⟨_, htext, d, ds, ?_, hlt, hzero, hvalue⟩
  rw [String.toList_ofList]
  split <;> rfl

/-- Digits are not taken for the mark of a radix. -/
theorem behindMark_digits {ds : List Nat} (hlow : 2 ≤ radix)
    (h : cs.map (Radix.digit? radix) = ds.map some) : behindMark radix cs = (radix, cs) := by
  have hne : (radix : Int) ≠ 0 := by omega
  rw [behindMark]
  by_cases hsixteen : radix = 16
  · subst hsixteen
    rw [Radix.dropHexMark?_digits h]
    rfl
  · have hnot : ((radix : Int) = 0 || (radix : Int) = 16) = false := by
      simp only [Bool.or_eq_false_iff, decide_eq_false_iff_not]
      omega
    rw [hnot, if_neg Bool.false_ne_true, Int.toNat_natCast]

/-- The text of an integer is read as the integer. -/
theorem IsIntegerText.read (h : IsIntegerText radix n cs) (hlow : 2 ≤ radix) (hhigh : radix ≤ 36)
    (hten : radix ≠ 10) (hn : n.natAbs < 2 ^ 53) : readInteger cs radix = Float.ofInt n := by
  obtain ⟨d, ds, rfl, hlt, -, hvalue⟩ := h
  have hdigits := Radix.map_digit? hhigh hlt
  obtain ⟨hblank, hplus, hminus⟩ :=
    Radix.digitChar_plain (Nat.lt_of_lt_of_le (hlt d List.mem_cons_self) hhigh)
  have hne : (d :: ds).map Radix.digitChar ≠ [] := List.cons_ne_nil _ _
  have hhead : ∀ c ∈ ((d :: ds).map Radix.digitChar).head?, c ≠ '+' ∧ c ≠ '-' := by
    rintro c ⟨⟩
    exact ⟨hplus, hminus⟩
  -- A sign is written for a negative number only, and it is what the reader takes off first.
  have hsign : IsSign (if n < 0 then ['-'] else []) (n < 0) := by
    by_cases hneg : n < 0
    · rw [if_pos hneg, decide_eq_true hneg]
      exact .minus
    · rw [if_neg hneg, decide_eq_false hneg]
      exact .absent
  have hskip : skipBlanks ((if n < 0 then ['-'] else []) ++ (d :: ds).map Radix.digitChar)
      = (if n < 0 then ['-'] else []) ++ (d :: ds).map Radix.digitChar := by
    refine dropWhile_of_head ?_
    split
    next => rintro c ⟨⟩; decide
    next => rintro c ⟨⟩; exact hblank
  have hrange : ¬((radix : Int) ≠ 0 && ((radix : Int) < 2 || 36 < (radix : Int))) = true := by
    simp only [ne_eq, Bool.and_eq_true, Bool.or_eq_true, decide_eq_true_eq]
    omega
  -- Below 2 ^ 53 every digit is added without rounding.
  rw [readInteger, hskip, hsign.read hhead]
  simp only [if_neg hrange, behindMark_digits hlow hdigits]
  rw [Radix.readDigits_digits hten hne hdigits,
    Radix.value_natural (by omega) (by omega) (hvalue ▸ hn), hvalue, Double.ofInt_eq]

theorem Machine.toString_integer (m : Machine) (a : Agent) (hlow : 2 ≤ radix) (hhigh : radix ≤ 36)
    (hten : radix ≠ 10) (hn : n.natAbs < 2 ^ 53) :
    m.numberMethod .toString (.number (Float.ofInt n)) [.ofNat radix] a
      = .ok (.ofString (Double.toRadix (Float.ofInt n) radix)) a := by
  have hradix : radix < 2 ^ 53 := by omega
  have hnotLow : ¬Float.ofNat radix < 2 := fun hless =>
    Nat.not_lt.mpr hlow ((Double.ofNat_lt hradix (by decide)).mp hless)
  have hnotHigh : ¬36 < Float.ofNat radix := fun hless =>
    Nat.not_lt.mpr hhigh ((Double.ofNat_lt (by decide) hradix).mp hless)
  have hother : (Float.ofNat radix == 10) = false := Bool.eq_false_iff.mpr fun hsame =>
    hten ((Double.ofNat_beq hradix (by decide)).mp hsame)
  have hdigits : m.integerOr (.ofNat radix) 10 a = .ok (Float.ofNat radix) a :=
    m.toInteger_ofNat hradix a
  change m.radixText (Float.ofInt n) (.ofNat radix) a = _
  unfold Machine.radixText
  refine (Eval.bind_ok hdigits).trans ?_
  simp only [hnotLow, hnotHigh, hother, Double.isFinite_ofInt hn, Double.naturalPart?_ofNat hradix]
  rfl

theorem Machine.parseInt_string (m : Machine) (a : Agent) (s : String) (hhigh : radix ≤ 36) :
    m.globalFunction .parseInt [.ofString s, .ofNat radix] a
      = .ok (.number (readInteger s.toList radix)) a := by
  change EStateM.Result.ok (Value.number (readInteger (Text.ofString s).toString.toList
    (Double.toInt32 (Float.ofNat radix)))) a = _
  rw [Double.toInt32_ofNat (by omega), Text.toString_ofString]

/-- **Written in a radix and read again, an integer is what it was.**  The text is the sign and the
digits with no zero in front, the bounds of the loops suffice, and different integers have different
texts. -/
theorem radix_round_trip (m : Machine) (a : Agent) (hn : n.natAbs ≤ 2 ^ 53 - 1) (hlow : 2 ≤ radix)
    (hhigh : radix ≤ 36) (hten : radix ≠ 10) :
    ∃ s, Double.toRadix? (Float.ofInt n) radix = some s ∧ IsIntegerText radix n s.toList ∧
      m.numberMethod .toString (.number (Float.ofInt n)) [.ofNat radix] a = .ok (.ofString s) a ∧
      readInteger s.toList radix = Float.ofInt n ∧
      m.globalFunction .parseInt [.ofString s, .ofNat radix] a = .ok (.number (Float.ofInt n)) a ∧
      ∀ k : Int, k.natAbs ≤ 2 ^ 53 - 1 → Double.toRadix? (Float.ofInt k) radix = some s → k = n := by
  have hlt : n.natAbs < 2 ^ 53 := by omega
  obtain ⟨s, hs, htext⟩ := toRadix?_integer hlow hhigh hlt
  have hread := htext.read hlow hhigh hten hlt
  refine ⟨s, hs, htext, ?_, hread, ?_, fun k hk hsame => ?_⟩
  · rw [m.toString_integer a hlow hhigh hten hlt, Double.toRadix, hs, Option.getD_some]
  · rw [m.parseInt_string a s hhigh, hread]
  · have hk' : k.natAbs < 2 ^ 53 := by omega
    obtain ⟨t, ht, htext'⟩ := toRadix?_integer hlow hhigh hk'
    obtain rfl : t = s := Option.some.inj (ht.symm.trans hsame)
    exact Double.ofInt_injective hk' hlt ((htext'.read hlow hhigh hten hk').symm.trans hread)

end Integers

/-- A negative number in hexadecimal digits. -/
theorem radix_round_trip_hexadecimal :
    let m := Machine.ofDepth 0
    let a := Agent.new false
    IsIntegerText 16 (-255) "-ff".toList ∧
      m.numberMethod .toString (.number (Float.ofInt (-255))) [.ofNat 16] a = .ok (.ofString "-ff") a ∧
      m.globalFunction .parseInt [.ofString "-ff", .ofNat 16] a
        = .ok (.number (Float.ofInt (-255))) a := by
  intro m a
  have hwritten : Double.toRadix? (Float.ofInt (-255)) 16 = some "-ff" := by decide +kernel
  obtain ⟨s, hs, htext, hwrite, -, hread, -⟩ :=
    @radix_round_trip 16 (-255) m a (by decide) (by decide) (by decide) (by decide)
  obtain rfl : "-ff" = s := Option.some.inj (hwritten.symm.trans hs)
  exact ⟨htext, hwrite, hread⟩

end Scriptlet
