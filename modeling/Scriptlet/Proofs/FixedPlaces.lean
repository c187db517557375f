import Scriptlet.Proofs.RadixTexts

/-!
# Numbers with fixed places

A number is written with a given number of decimal places by cutting its expansion there and, if the
first digit left out is five or more, adding one to what is kept.  The one is carried through nines, from
the places behind the point to those in front of it, and may need another digit in front of all.  What
comes of it is the integer nearest to the number of units of the last place, the greater one of two.

The expansion of a double is finite, and no more of it is looked at than one digit behind the last place.

## Main definitions

* `Decimal.IsExpansion`, `Decimal.expansion` — digits in front of a point and behind it, and their number.
* `Decimal.IsFixedText` — a natural number written as that many units of a decimal place.

## Main results

* `Decimal.ofDigits_increment` — **adding one to the digits adds one to the number**.
* `Decimal.ofDigits_roundTo` — **what is kept is rounded**, a half up.
* `Decimal.IsFixedText.unique` — a number of units has one text.
* `Double.expansion_eq` — the expansion of a double is exact.
* `toFixed_rounds` — **numbers with fixed places are rounded correctly**.
-/

namespace Scriptlet

namespace Decimal

/-- The natural number with the given decimal digits, the most significant one first. -/
def ofDigits (ds : List Nat) : Nat := Nat.ofDigits 10 ds.reverse

/-- There is a digit, and a zero in front only if it is all. -/
def IsWhole (ds : List Nat) : Prop := ∃ e es, ds = e :: es ∧ (e = 0 → es = [])

/-- Decimal digits in front of a point and behind it. -/
structure IsExpansion (integer fraction : List Nat) : Prop where
  isWhole : IsWhole integer
  integer_lt : ∀ d ∈ integer, d < 10
  fraction_lt : ∀ d ∈ fraction, d < 10

/-- The number with the given digits in front of the point and behind it. -/
def expansion (integer fraction : List Nat) : ℚ :=
  ofDigits (integer ++ fraction) / 10 ^ fraction.length

/-- The text of `n` units of the last of the places behind the point.  Without places there is no
point. -/
def IsFixedText (n places : Nat) (cs : List Char) : Prop :=
  ∃ whole part,
    cs = whole.map digitChar ++ (if places = 0 then [] else '.' :: part.map digitChar) ∧
    IsExpansion whole part ∧ part.length = places ∧ ofDigits (whole ++ part) = n

/-! ### Digits -/

section Digits

variable {d n : Nat} {ds es : List Nat}

theorem ofDigits_append (ds es : List Nat) :
    ofDigits (ds ++ es) = ofDigits ds * 10 ^ es.length + ofDigits es := by
  rw [ofDigits, List.reverse_append, Nat.ofDigits_append, List.length_reverse, Nat.mul_comm,
    Nat.add_comm]
  rfl

theorem ofDigits_cons (d : Nat) (ds : List Nat) :
    ofDigits (d :: ds) = d * 10 ^ ds.length + ofDigits ds := by
  rw [← List.singleton_append, ofDigits_append]
  rfl

theorem ofDigits_zeros (n : Nat) : ofDigits (List.replicate n 0) = 0 := by
  rw [ofDigits, List.reverse_replicate, Nat.ofDigits_replicate_zero]

theorem ofDigits_lt (h : ∀ d ∈ ds, d < 10) : ofDigits ds < 10 ^ ds.length := by
  have hlt := Nat.ofDigits_lt_base_pow_length (b := 10) (l := ds.reverse) (by decide)
    fun d hd => h d (List.mem_reverse.mp hd)
  rwa [List.length_reverse] at hlt

/-- Digits without a zero in front are those of their number. -/
theorem IsWhole.eq_naturalDigits (h : IsWhole ds) (hds : ∀ d ∈ ds, d < 10) :
    ds = Radix.naturalDigits 10 (ofDigits ds) := by
  obtain ⟨e, es, rfl, hzero⟩ := h
  by_cases he : e = 0
  · obtain rfl := hzero he
    obtain rfl := he
    rfl
  · have hlast : ∀ hne : (e :: es).reverse ≠ [], (e :: es).reverse.getLast hne ≠ 0 := by
      intro hne
      rwa [List.getLast_reverse]
    have hdigits := Nat.digits_ofDigits 10 (by decide) (e :: es).reverse
      (fun d hd => hds d (List.mem_reverse.mp hd)) hlast
    have hpos : ofDigits (e :: es) ≠ 0 := by
      rw [ofDigits_cons]
      have := Nat.mul_pos (Nat.pos_of_ne_zero he) (Nat.pow_pos (n := es.length) (a := 10) (by decide))
      omega
    rw [Radix.naturalDigits, if_neg hpos, ofDigits, hdigits, List.reverse_reverse]

/-- **A number of units has one text.** -/
theorem IsFixedText.unique {places : Nat} {cs cs' : List Char} (h : IsFixedText n places cs)
    (h' : IsFixedText n places cs') : cs = cs' := by
  obtain ⟨whole, part, rfl, hexpansion, hlength, hvalue⟩ := h
  obtain ⟨whole', part', rfl, hexpansion', hlength', hvalue'⟩ := h'
  have hlt := ofDigits_lt hexpansion.fraction_lt
  have hlt' := ofDigits_lt hexpansion'.fraction_lt
  rw [ofDigits_append, hlength] at hvalue
  rw [ofDigits_append, hlength'] at hvalue'
  rw [hlength] at hlt
  rw [hlength'] at hlt'
  -- The places behind the point are the remainder modulo a power of ten, the digits before it the
  -- quotient.
  have hpos : 0 < 10 ^ places := Nat.pow_pos (by decide)
  have hwhole : ofDigits whole = ofDigits whole' := by
    have hdiv : ∀ {x y}, y < 10 ^ places → x * 10 ^ places + y = n → x = n / 10 ^ places := by
      rintro x y hy rfl
      rw [Nat.mul_comm, Nat.mul_add_div hpos, Nat.div_eq_of_lt hy, Nat.add_zero]
    rw [hdiv hlt hvalue, hdiv hlt' hvalue']
  have hpart : ofDigits part = ofDigits part' := by
    rw [hwhole] at hvalue
    omega
  have hsame : part = part' := by
    refine List.reverse_injective (Nat.ofDigits_inj_of_len_eq (b := 10) (by decide) ?_ ?_ ?_ hpart)
    · rw [List.length_reverse, List.length_reverse, hlength, hlength']
    · exact fun d hd => hexpansion.fraction_lt d (List.mem_reverse.mp hd)
    · exact fun d hd => hexpansion'.fraction_lt d (List.mem_reverse.mp hd)
  rw [hexpansion.isWhole.eq_naturalDigits hexpansion.integer_lt,
    hexpansion'.isWhole.eq_naturalDigits hexpansion'.integer_lt, hwhole, hsame]

end Digits

/-! ### Adding one -/

section Increment

variable {ds : List Nat}

theorem ofDigits_incrementReversed (ds : List Nat) :
    Nat.ofDigits 10 (incrementReversed ds) = Nat.ofDigits 10 ds + 1 := by
  induction ds with
  | nil => rfl
  | cons d ds ih =>
    rw [incrementReversed]
    split
    next hnine =>
      rw [Nat.ofDigits_cons, Nat.ofDigits_cons, ih]
      omega
    next =>
      rw [Nat.ofDigits_cons, Nat.ofDigits_cons]
      omega

/-- **Adding one to the digits adds one to the number.** -/
theorem ofDigits_increment (ds : List Nat) : ofDigits (increment ds) = ofDigits ds + 1 := by
  rw [ofDigits, increment, List.reverse_reverse, ofDigits_incrementReversed, ofDigits]

theorem incrementReversed_lt (h : ∀ d ∈ ds, d < 10) : ∀ d ∈ incrementReversed ds, d < 10 := by
  induction ds with
  | nil => exact List.forall_mem_singleton.mpr (by decide)
  | cons d ds ih =>
    obtain ⟨hd, hds⟩ := List.forall_mem_cons.mp h
    rw [incrementReversed]
    split
    next => exact List.forall_mem_cons.mpr ⟨by decide, ih hds⟩
    next => exact List.forall_mem_cons.mpr ⟨by omega, hds⟩

theorem increment_lt (h : ∀ d ∈ ds, d < 10) : ∀ d ∈ increment ds, d < 10 := fun d hd =>
  incrementReversed_lt (fun d hd => h d (List.mem_reverse.mp hd)) d (List.mem_reverse.mp hd)

/-- There is one more digit only if the one has been carried through all of them. -/
theorem incrementReversed_cases (ds : List Nat) :
    (incrementReversed ds).length = ds.length ∨
      incrementReversed ds = List.replicate ds.length 0 ++ [1] := by
  induction ds with
  | nil => exact .inr rfl
  | cons d ds ih =>
    rw [incrementReversed]
    split
    next =>
      refine ih.imp (fun h => ?_) fun h => ?_
      · rw [List.length_cons, List.length_cons, h]
      · rw [h, List.length_cons, List.replicate_succ, List.cons_append]
    next => exact .inl rfl

theorem increment_cases (ds : List Nat) :
    (increment ds).length = ds.length ∨ increment ds = 1 :: List.replicate ds.length 0 := by
  rw [increment, List.length_reverse]
  refine (incrementReversed_cases ds.reverse).imp (fun h => ?_) fun h => ?_
  · rw [h, List.length_reverse]
  · rw [h, List.reverse_append, List.reverse_replicate, List.length_reverse]
    rfl

/-- The digits in front of the point have no zero in front when one has been added either. -/
theorem isWhole_increment {integer : List Nat} (h : IsWhole integer)
    (hlt : ∀ d ∈ integer ++ ds, d < 10) :
    IsWhole ((increment (integer ++ ds)).take ((increment (integer ++ ds)).length - ds.length)) := by
  obtain ⟨e, es, rfl, hzero⟩ := h
  -- An increment carries through to a new first digit only where every digit was a nine.
  rcases increment_cases (e :: es ++ ds) with hlength | hall
  · have hvalue := ofDigits_increment (e :: es ++ ds)
    have hdigits := increment_lt hlt
    rw [hlength, List.length_append, Nat.add_sub_cancel]
    cases hincrement : increment (e :: es ++ ds) with
    | nil =>
      rw [hincrement] at hlength
      cases hlength
    | cons d rest =>
      rw [hincrement, List.cons_append, List.length_cons, List.length_cons] at hlength
      rw [hincrement, List.cons_append] at hvalue
      rw [hincrement] at hdigits
      refine ⟨d, rest.take es.length, rfl, fun hd => ?_⟩
      -- The number has not become less, so that its first digit is still there.
      by_contra hne
      have he : 0 < e := Nat.pos_of_ne_zero fun he => hne (by rw [hzero he]; rfl)
      have hrest := ofDigits_lt (List.forall_mem_cons.mp hdigits).2
      have hlength' : rest.length = (es ++ ds).length := by omega
      rw [ofDigits_cons, ofDigits_cons, hd, hlength'] at hvalue
      rw [hlength'] at hrest
      have := Nat.le_mul_of_pos_left (10 ^ (es ++ ds).length) he
      omega
  · rw [hall, List.length_cons, List.length_replicate, List.length_append, Nat.add_assoc,
      Nat.add_comm ds.length 1, ← Nat.add_assoc, Nat.add_sub_cancel]
    exact ⟨1, _, rfl, nofun⟩

end Increment

/-! ### Rounding -/

section Rounding

variable {integer fraction ds : List Nat} {places : Nat}

/-- The digits up to the last place, without rounding. -/
def kept (integer fraction : List Nat) (places : Nat) : List Nat :=
  integer ++ (fraction.take places ++ List.replicate (places - fraction.length) 0)

theorem roundTo_eq (integer fraction : List Nat) (places : Nat) :
    roundTo integer fraction places = match fraction[places]? with
      | some d => if 5 ≤ d then increment (kept integer fraction places)
        else kept integer fraction places
      | none => kept integer fraction places := rfl

theorem kept_lt (h : IsExpansion integer fraction) (places : Nat) :
    ∀ d ∈ kept integer fraction places, d < 10 := by
  refine List.forall_mem_append.mpr ⟨h.integer_lt, List.forall_mem_append.mpr ⟨?_, ?_⟩⟩
  · exact fun d hd => h.fraction_lt d (List.mem_of_mem_take hd)
  · intro d hd
    rw [List.eq_of_mem_replicate hd]
    decide

/-- The digits that are kept make up one digit for each place. -/
theorem length_places (fraction : List Nat) (places : Nat) :
    (fraction.take places ++ List.replicate (places - fraction.length) 0).length = places := by
  rw [List.length_append, List.length_take, List.length_replicate]
  omega

/-- What is rounded is what is kept, or one unit more. -/
theorem roundTo_cases (integer fraction : List Nat) (places : Nat) :
    roundTo integer fraction places = kept integer fraction places ∨
      roundTo integer fraction places = increment (kept integer fraction places) := by
  rw [roundTo_eq]
  split
  · split
    · exact .inr rfl
    · exact .inl rfl
  · exact .inl rfl

/-- There is a digit in front of the point. -/
theorem places_lt_length (h : IsWhole integer) (fraction : List Nat) (places : Nat) :
    places < (roundTo integer fraction places).length := by
  obtain ⟨e, es, rfl, -⟩ := h
  have hkept : places < (kept (e :: es) fraction places).length := by
    rw [kept, List.length_append, length_places, List.length_cons]
    omega
  rcases roundTo_cases (e :: es) fraction places with heq | heq
  · rwa [heq]
  · rw [heq]
    rcases increment_cases (kept (e :: es) fraction places) with hlength | hall
    · rwa [hlength]
    · rw [hall, List.length_cons, List.length_replicate]
      omega

theorem roundTo_lt (h : IsExpansion integer fraction) (places : Nat) :
    ∀ d ∈ roundTo integer fraction places, d < 10 := by
  rcases roundTo_cases integer fraction places with heq | heq
  · exact heq ▸ kept_lt h places
  · exact heq ▸ increment_lt (kept_lt h places)

/-- The digits in front of the point have no zero in front. -/
theorem isWhole_roundTo (h : IsExpansion integer fraction) (places : Nat) :
    IsWhole ((roundTo integer fraction places).take
      ((roundTo integer fraction places).length - places)) := by
  have hplaces := length_places fraction places
  rcases roundTo_cases integer fraction places with heq | heq
  · rw [heq, kept, List.length_append, hplaces, Nat.add_sub_cancel, List.take_left]
    exact h.isWhole
  · have hwhole := isWhole_increment h.isWhole (kept_lt h places)
    rw [hplaces] at hwhole
    rwa [heq]

/-- A number of tenths is rounded by comparing the first of its digits with five. -/
theorem floor_add_half {n d v k : Nat} (hd : d < 10) (hv : v < 10 ^ k) :
    ⌊(n + (d * 10 ^ k + v) / 10 ^ (k + 1) + 1 / 2 : ℚ)⌋₊ = if 5 ≤ d then n + 1 else n := by
  have hpos : (0 : ℚ) < 10 ^ k := by positivity
  have hv' : (v : ℚ) < 10 ^ k := by exact_mod_cast hv
  have hv₀ : (0 : ℚ) ≤ v := Nat.cast_nonneg v
  have hscale : ((d * 10 ^ k + v) / 10 ^ (k + 1) : ℚ) = (d + v / 10 ^ k) / 10 := by
    rw [pow_succ]
    field_simp
  have hlow : (0 : ℚ) ≤ v / 10 ^ k := div_nonneg hv₀ hpos.le
  have hhigh : (v / 10 ^ k : ℚ) < 1 := (div_lt_one hpos).mpr hv'
  rw [hscale]
  -- The next digit alone decides, since what is behind it is less than one unit of its place.
  split
  next hfive =>
    have hd₁ : (5 : ℚ) ≤ d := by exact_mod_cast hfive
    have hd₂ : (d : ℚ) ≤ 9 := by exact_mod_cast Nat.le_of_lt_succ hd
    refine Nat.floor_eq_on_Ico _ _ ⟨?_, ?_⟩
    · push_cast
      linarith
    · push_cast
      linarith
  next hless =>
    have hd₁ : (0 : ℚ) ≤ d := Nat.cast_nonneg d
    have hd₂ : (d : ℚ) ≤ 4 := by exact_mod_cast (by omega : d ≤ 4)
    refine Nat.floor_eq_on_Ico _ _ ⟨?_, ?_⟩
    · linarith
    · linarith

/-- The digits up to a place make up the integral number of units, and those behind it the rest. -/
theorem expansion_mul (integer front : List Nat) (d : Nat) (rest : List Nat) :
    expansion integer (front ++ d :: rest) * 10 ^ front.length
      = ofDigits (integer ++ front)
        + (d * 10 ^ rest.length + ofDigits rest) / 10 ^ (rest.length + 1) := by
  rw [expansion, ← List.append_assoc, ofDigits_append, ofDigits_cons, List.length_append,
    List.length_cons, pow_add]
  push_cast
  field_simp
  ring

/-- Places that nothing is written at hold zeros. -/
theorem expansion_mul_zeros (integer fraction : List Nat) (k : Nat) :
    expansion integer fraction * 10 ^ (fraction.length + k)
      = ofDigits (integer ++ fraction ++ List.replicate k 0) := by
  rw [expansion, ofDigits_append (integer ++ fraction), ofDigits_zeros, List.length_replicate, pow_add]
  push_cast
  field_simp
  ring

/-- **What is kept is rounded**, a half up. -/
theorem ofDigits_roundTo (hfraction : ∀ d ∈ fraction, d < 10) :
    ofDigits (roundTo integer fraction places)
      = ⌊expansion integer fraction * 10 ^ places + 1 / 2⌋₊ := by
  rw [roundTo_eq]
  cases hd : fraction[places]? with
  | none =>
    -- Nothing is left out, so that the number is an integral number of units.
    have hle : fraction.length ≤ places := List.getElem?_eq_none_iff.mp hd
    obtain ⟨k, rfl⟩ := Nat.exists_eq_add_of_le hle
    rw [expansion_mul_zeros, kept, List.take_of_length_le hle, Nat.add_sub_cancel_left,
      ← List.append_assoc]
    exact (Nat.floor_eq_on_Ico _ _ ⟨by linarith, by linarith⟩).symm
  | some d =>
    obtain ⟨hlt, rfl⟩ := List.getElem?_eq_some_iff.mp hd
    have hcut : fraction.take places ++ fraction[places] :: fraction.drop (places + 1) = fraction := by
      rw [← List.drop_eq_getElem_cons hlt, List.take_append_drop]
    have hrest : ∀ d ∈ fraction.drop (places + 1), d < 10 := fun d hd =>
      hfraction d (List.mem_of_mem_drop hd)
    have hkept : kept integer fraction places = integer ++ fraction.take places := by
      rw [kept, Nat.sub_eq_zero_of_le hlt.le, List.replicate_zero, List.append_nil]
    have hunits := expansion_mul integer (fraction.take places) fraction[places]
      (fraction.drop (places + 1))
    rw [hcut, List.length_take_of_le hlt.le] at hunits
    rw [hunits, floor_add_half (hfraction _ (List.getElem_mem hlt)) (ofDigits_lt hrest), hkept]
    dsimp only
    split
    next => exact ofDigits_increment _
    next => rfl

/-- The point is put before the places. -/
theorem isFixedText_withPoint (hds : ∀ d ∈ ds, d < 10) (hlength : places < ds.length)
    (hwhole : IsWhole (ds.take (ds.length - places))) :
    IsFixedText (ofDigits ds) places (withPoint ds places) := by
  refine ⟨ds.take (ds.length - places), ds.drop (ds.length - places), ?_, ⟨hwhole, ?_, ?_⟩, ?_, ?_⟩
  · rw [withPoint]
    split
    next => exact (List.append_nil _).symm
    next => rfl
  · exact fun d hd => hds d (List.mem_of_mem_take hd)
  · exact fun d hd => hds d (List.mem_of_mem_drop hd)
  · rw [List.length_drop]
    omega
  · rw [List.take_append_drop]

/-- **Digits are rounded to the nearest text**: the greater one of two. -/
theorem isFixedText_roundTo (h : IsExpansion integer fraction) (places : Nat) :
    IsFixedText ⌊expansion integer fraction * 10 ^ places + 1 / 2⌋₊ places
      (withPoint (roundTo integer fraction places) places) := by
  rw [← ofDigits_roundTo h.fraction_lt]
  exact isFixedText_withPoint (roundTo_lt h places) (places_lt_length h.isWhole fraction places)
    (isWhole_roundTo h places)

/-- No more is looked at than one digit behind the last place. -/
theorem roundTo_take {count : Nat} (hcount : places < count) :
    roundTo integer (fraction.take count) places = roundTo integer fraction places := by
  have hkept : kept integer (fraction.take count) places = kept integer fraction places := by
    rw [kept, kept, List.take_take, Nat.min_eq_left hcount.le, List.length_take]
    congr 3
    omega
  rw [roundTo_eq, roundTo_eq, hkept, List.getElem?_take_of_lt hcount]

end Rounding

/-! ### The digits of fractions -/

section Fractions

variable {n num den count : Nat}

theorem integerDigits_eq (n : Nat) : integerDigits n = Radix.naturalDigits 10 n := by
  have hdigit : ∀ d < 10, d.digitChar.toNat - 48 = d := by decide
  induction n using Nat.strongRecOn with
  | _ n ih =>
    rcases Nat.lt_or_ge n 10 with hlt | hge
    · rw [integerDigits, Nat.toDigits_of_lt_base hlt, Radix.naturalDigits_of_lt hlt, List.map_singleton,
        hdigit n hlt]
    · have hmod : n % 10 < 10 := Nat.mod_lt n (by decide)
      rw [integerDigits, Nat.toDigits_of_base_le (by decide) hge, List.map_append, List.map_singleton,
        hdigit _ hmod, Radix.naturalDigits_div (by decide) hge, ← ih (n / 10) (by omega)]
      rfl

theorem length_fractionDigits (count num den : Nat) :
    (fractionDigits count num den).length = count := by
  induction count generalizing num with
  | zero => rfl
  | succ count ih => rw [fractionDigits, List.length_cons, ih]

theorem fractionDigits_lt (h : num < den) (count : Nat) : ∀ d ∈ fractionDigits count num den, d < 10 := by
  induction count generalizing num with
  | zero => exact fun d hd => nomatch hd
  | succ count ih =>
    have hpos : 0 < den := Nat.zero_lt_of_lt h
    refine List.forall_mem_cons.mpr ⟨?_, ih (Nat.mod_lt _ hpos)⟩
    rw [Nat.div_lt_iff_lt_mul hpos]
    omega

theorem take_fractionDigits {fewer : Nat} (h : fewer ≤ count) (num den : Nat) :
    (fractionDigits count num den).take fewer = fractionDigits fewer num den := by
  induction fewer generalizing count num with
  | zero => rfl
  | succ fewer ih =>
    obtain ⟨count, rfl⟩ := Nat.exists_eq_add_of_le' (Nat.zero_lt_of_lt h)
    rw [fractionDigits, List.take_succ_cons, ih (Nat.le_of_succ_le_succ h), fractionDigits]

/-- Long division finds the number that the fraction has at the last place. -/
theorem ofDigits_fractionDigits (h : num < den) (count : Nat) :
    ofDigits (fractionDigits count num den) = num * 10 ^ count / den := by
  have hpos : 0 < den := Nat.zero_lt_of_lt h
  induction count generalizing num with
  | zero => exact (Nat.div_eq_of_lt ((Nat.mul_one num).symm ▸ h)).symm
  | succ count ih =>
    rw [fractionDigits, ofDigits_cons, ih (Nat.mod_lt _ hpos), length_fractionDigits]
    calc num * 10 / den * 10 ^ count + num * 10 % den * 10 ^ count / den
        = (num * 10 % den * 10 ^ count + den * (num * 10 / den * 10 ^ count)) / den := by
          rw [Nat.add_mul_div_left _ _ hpos, Nat.add_comm]
      _ = (den * (num * 10 / den) + num * 10 % den) * 10 ^ count / den := by
          congr 1
          ring
      _ = num * 10 ^ (count + 1) / den := by
          rw [Nat.div_add_mod, Nat.pow_succ]
          congr 1
          ring

theorem isExpansion_digits (hpos : 0 < den) (count num : Nat) :
    IsExpansion (integerDigits (num / den)) (fractionDigits count (num % den) den) where
  isWhole := by
    rw [integerDigits_eq]
    exact Radix.head_naturalDigits 10 _
  integer_lt := by
    rw [integerDigits_eq]
    exact fun d hd => Radix.naturalDigits_lt (by decide) hd
  fraction_lt := fractionDigits_lt (Nat.mod_lt _ hpos) count

/-- Enough digits make up the whole fraction. -/
theorem expansion_digits (hpos : 0 < den) (hden : den ∣ 10 ^ count) (num : Nat) :
    expansion (integerDigits (num / den)) (fractionDigits count (num % den) den) = num / den := by
  obtain ⟨k, hk⟩ := hden
  have hmod := Nat.mod_lt num hpos
  have hwhole : ofDigits (integerDigits (num / den)) = num / den := by
    rw [integerDigits_eq]
    exact Radix.ofDigits_naturalDigits 10 _
  have hpart : ofDigits (fractionDigits count (num % den) den) = num % den * k := by
    rw [ofDigits_fractionDigits hmod, hk, Nat.mul_left_comm, Nat.mul_div_cancel_left _ hpos]
  have hvalue : (num / den) * 10 ^ count + num % den * k = num * k := by
    rw [hk, ← Nat.mul_assoc, ← Nat.add_mul, Nat.mul_comm _ den, Nat.div_add_mod]
  have hk₀ : (k : ℚ) ≠ 0 := by
    rintro h
    rw [Nat.cast_eq_zero.mp h, Nat.mul_zero] at hk
    exact absurd hk (Nat.pow_pos (by decide)).ne'
  have hden₀ : (den : ℚ) ≠ 0 := by exact_mod_cast hpos.ne'
  have hscale : (10 ^ count : ℚ) = den * k := by exact_mod_cast hk
  rw [expansion, ofDigits_append, hwhole, hpart, length_fractionDigits, hvalue, hscale]
  push_cast
  field_simp

end Fractions

end Decimal

/-! ### Doubles -/

namespace Double

variable {m n places : Nat} {e : Int} {x : Float}

/-- The digits of `m · 2 ^ e` in front of the point. -/
def wholeDigits (m : Nat) (e : Int) : List Nat :=
  Decimal.integerDigits (m * 2 ^ e.toNat / 2 ^ (-e).toNat)

/-- The first digits of `m · 2 ^ e` behind the point. -/
def partDigits (m : Nat) (e : Int) (count : Nat) : List Nat :=
  Decimal.fractionDigits count (m * 2 ^ e.toNat % 2 ^ (-e).toNat) (2 ^ (-e).toNat)

theorem isExpansion (m : Nat) (e : Int) (count : Nat) :
    Decimal.IsExpansion (wholeDigits m e) (partDigits m e count) :=
  Decimal.isExpansion_digits (Nat.two_pow_pos _) count _

/-- **The expansion is exact** if it has as many digits as there are halvings. -/
theorem expansion_eq {count : Nat} (h : -e ≤ count) :
    Decimal.expansion (wholeDigits m e) (partDigits m e count) = m * 2 ^ e := by
  have hden : 2 ^ (-e).toNat ∣ 10 ^ count := by
    have hle : (-e).toNat ≤ count := by omega
    exact (Nat.pow_dvd_pow 2 hle).trans (pow_dvd_pow_of_dvd (by decide : 2 ∣ 10) count)
  rw [wholeDigits, partDigits, Decimal.expansion_digits (Nat.two_pow_pos _) hden]
  have hsplit : e = (e.toNat : Int) - ((-e).toNat : Int) := by omega
  conv_rhs => rw [hsplit, zpow_sub₀ (by norm_num), zpow_natCast, zpow_natCast]
  push_cast
  ring

/-- No more of the expansion is computed than is looked at. -/
theorem fixedChars_eq {count : Nat} (h : places < count) :
    fixedChars m e places
      = Decimal.withPoint (Decimal.roundTo (wholeDigits m e) (partDigits m e count) places) places := by
  rw [partDigits, ← Decimal.roundTo_take (Nat.lt_succ_self places), Decimal.take_fractionDigits h]
  rfl

/-- **A double is rounded correctly.** -/
theorem isFixedText_fixedChars (m : Nat) (e : Int) (places : Nat) :
    Decimal.IsFixedText ⌊(m * 2 ^ e * 10 ^ places + 1 / 2 : ℚ)⌋₊ places (fixedChars m e places) := by
  have hexact : -e ≤ (max (places + 1) (-e).toNat : Nat) := by omega
  rw [fixedChars_eq (Nat.lt_of_lt_of_le (Nat.lt_succ_self places) (Nat.le_max_left _ (-e).toNat)),
    ← expansion_eq hexact]
  exact Decimal.isFixedText_roundTo (isExpansion m e _) places

/-- There are no more than 1074 halvings in a double. -/
theorem exponent_ge (h : magnitude? x = some (m, e)) : -1074 ≤ e := by
  unfold magnitude? at h
  dsimp only at h
  split at h
  · cases h
  · split at h
    · cases h
      exact Int.le_refl _
    · next hzero =>
      cases h
      omega

/-- The text of a double that is not too great. -/
theorem toFixed_eq (h : magnitude? x = some (m, e)) (hx : ¬1e21 ≤ x.abs) (places : Nat) :
    toFixed x places = String.ofList
      (if isNegative x then '-' :: fixedChars m e places else fixedChars m e places) := by
  rw [toFixed, h]
  exact if_neg hx

end Double

section Methods

variable {m : Machine} {a b : Agent} {v : Value} {places : Nat}

theorem Machine.numberMethod_toFixed (x : Float) (hplaces : places ≤ 100)
    (hv : m.toInteger v a = .ok (Float.ofNat places) b) :
    m.numberMethod .toFixed (.number x) [v] a = .ok (.ofString (Double.toFixed x places)) b := by
  have hlt : places < 2 ^ 53 := by omega
  have hlow : ¬Float.ofNat places < 0 := fun hless =>
    Nat.not_lt_zero places ((Double.ofNat_lt hlt (by decide)).mp hless)
  have hhigh : ¬100 < Float.ofNat places := fun hless =>
    Nat.not_lt.mpr hplaces ((Double.ofNat_lt (by decide) hlt).mp hless)
  change m.fixedText x v a = _
  unfold Machine.fixedText
  refine (Eval.bind_ok hv).trans ?_
  simp only [hlow, hhigh, Double.naturalPart?_ofNat hlt]
  rfl

/-- **Numbers with fixed places are rounded correctly.**  Of all expansions, the text is that of the
number of units that is nearest, the greater one if there are two; it has a digit in front of the point and
all places behind it, and no zero in front unless that is the whole part.  The expansion of a double is
exact, and its text is made from it. -/
theorem toFixed_rounds (m : Machine) (a : Agent) :
    (∀ integer fraction places, Decimal.IsExpansion integer fraction →
      places < (Decimal.roundTo integer fraction places).length ∧
      ∀ cs, cs = Decimal.withPoint (Decimal.roundTo integer fraction places) places ↔
        Decimal.IsFixedText ⌊Decimal.expansion integer fraction * 10 ^ places + 1 / 2⌋₊ places cs) ∧
    ∀ x k e, Double.magnitude? x = some (k, e) →
      Decimal.IsExpansion (Double.wholeDigits k e) (Double.partDigits k e 1074) ∧
      Decimal.expansion (Double.wholeDigits k e) (Double.partDigits k e 1074) = k * 2 ^ e ∧
      ∀ places, places ≤ 100 →
        Double.fixedChars k e places = Decimal.withPoint (Decimal.roundTo (Double.wholeDigits k e)
          (Double.partDigits k e 1074) places) places ∧
        Decimal.IsFixedText ⌊(k * 2 ^ e * 10 ^ places + 1 / 2 : ℚ)⌋₊ places
          (Double.fixedChars k e places) ∧
        (¬1e21 ≤ x.abs → ∀ v b, m.toInteger v a = .ok (Float.ofNat places) b →
          m.numberMethod .toFixed (.number x) [v] a = .ok (.ofString (String.ofList
            (if Double.isNegative x then '-' :: Double.fixedChars k e places
              else Double.fixedChars k e places))) b) := by
  refine ⟨fun integer fraction places h => ?_, fun x k e h => ?_⟩
  · have htext := Decimal.isFixedText_roundTo h places
    refine ⟨Decimal.places_lt_length h.isWhole fraction places, fun cs => ⟨?_, fun h => h.unique htext⟩⟩
    rintro rfl
    exact htext
  · have hexact : -e ≤ (1074 : Nat) := by
      have := Double.exponent_ge h
      omega
    refine ⟨Double.isExpansion k e 1074, Double.expansion_eq hexact, fun places hplaces => ?_⟩
    refine ⟨Double.fixedChars_eq (by omega), Double.isFixedText_fixedChars k e places, ?_⟩
    intro hx v b hv
    rw [m.numberMethod_toFixed x hplaces hv, Double.toFixed_eq h hx]

/-- A one that is carried through the point into another digit. -/
theorem toFixed_rounds_carrying :
    let m := Machine.ofDepth 0
    let a := Agent.new false
    Decimal.IsFixedText 100 1 "10.0".toList ∧
      m.numberMethod .toFixed (.number 9.96875) [.ofNat 1] a = .ok (.ofString "10.0") a := by
  intro m a
  obtain ⟨hdigits, hdoubles⟩ := toFixed_rounds m a
  have hexpansion : Decimal.IsExpansion [9] [9, 6, 8, 7, 5] :=
    ⟨⟨9, [], rfl, fun _ => rfl⟩, by decide, by decide⟩
  have hunits : ⌊Decimal.expansion [9] [9, 6, 8, 7, 5] * 10 ^ 1 + 1 / 2⌋₊ = 100 := by
    have hdigits : Decimal.ofDigits ([9] ++ [9, 6, 8, 7, 5]) = 996875 := rfl
    rw [Decimal.expansion, hdigits]
    exact Nat.floor_eq_on_Ico _ _ ⟨by norm_num, by norm_num⟩
  have htext := ((hdigits [9] [9, 6, 8, 7, 5] 1 hexpansion).2 "10.0".toList).mp (by decide +kernel)
  rw [hunits] at htext
  have hmagnitude : Double.magnitude? 9.96875 = some (5611907348168704, -49) := by decide +kernel
  obtain ⟨-, -, hplaces⟩ := hdoubles _ _ _ hmagnitude
  have hfixed := (hplaces 1 (by decide)).2.2 (by decide +kernel) (.ofNat 1) a
    (m.toInteger_ofNat (by decide) a)
  have hchars : Double.fixedChars 5611907348168704 (-49) 1 = "10.0".toList := by decide +kernel
  have hsign : Double.isNegative 9.96875 = false := by decide +kernel
  rw [hchars, hsign, if_neg Bool.false_ne_true, String.ofList_toList] at hfixed
  exact ⟨htext, hfixed⟩

end Methods

end Scriptlet
