import Scriptlet.Proofs.NumberGrammar

/-!
# Scanning numbers byte by byte

Where a literal ends is found in the bytes of a text.  All bytes of a character that is not ASCII are
different from those of the characters that literals are made of, so an offset that a scan arrives at
has as many characters in front of it as bytes: every offset is within bounds, and every piece begins
and ends with a character.

## Main definitions

* `Spells` — a property of bytes that is one of ASCII characters.
* `IsOffset` — an offset with nothing but ASCII characters in front of it.

## Main results

* `IsOffset.skipBytes?`, `IsOffset.keepBytes?` — at such an offset a text can be cut.
* `isLiteral?_eq` — **the bytes that are a decimal literal are those of one**.
* `literalEnd?_eq` — **the end that is found is that of the longest decimal literal**.
-/

namespace Scriptlet

open Pipeline (bytes bytes_cons)

/-! ### First bytes -/

section FirstBytes

variable {cs : List Char} {c : Char}

/-- A character that is not ASCII starts with a byte that is not. -/
theorem utf8EncodeChar_large (h : 0x80 ≤ c.toNat) :
    ∃ b bs, String.utf8EncodeChar c = b :: bs ∧ 0x80 ≤ b.toNat := by
  have hlarge : ¬c.val.toNat ≤ 0x7f := by
    change ¬c.toNat ≤ 0x7f
    omega
  unfold String.utf8EncodeChar
  simp only [if_neg hlarge]
  split
  · exact ⟨_, _, rfl, by rw [UInt8.toNat_ofNat']; omega⟩
  · split
    · exact ⟨_, _, rfl, by rw [UInt8.toNat_ofNat']; omega⟩
    · exact ⟨_, _, rfl, by rw [UInt8.toNat_ofNat']; omega⟩

/-- A property of bytes and one of characters are the same property of ASCII numbers. -/
structure Spells (s : Nat → Prop) (q : UInt8 → Bool) (p : Char → Bool) : Prop where
  byte : ∀ b, q b = true ↔ s b.toNat
  char : ∀ c, p c = true ↔ s c.toNat
  ascii : ∀ n, s n → n < 0x80

section Spelled

variable {s : Nat → Prop} {q : UInt8 → Bool} {p : Char → Bool}

/-- The first byte has the property if the first character has. -/
theorem Spells.head (h : Spells s q p) (cs : List Char) :
    ((bytes cs)[0]?).any q = cs.head?.any p := by
  cases cs with
  | nil => rfl
  | cons c cs =>
    rw [bytes_cons, List.head?_cons, Option.any_some, Bool.eq_iff_iff]
    by_cases hc : c.toNat < 0x80
    · rw [utf8EncodeChar_ascii hc, List.singleton_append, List.getElem?_cons_zero, Option.any_some,
        h.byte, h.char, UInt8.toNat_ofNat_of_lt' (by unfold UInt8.size; omega)]
    · obtain ⟨b, bs, hb, hlarge⟩ := utf8EncodeChar_large (Nat.le_of_not_lt hc)
      rw [hb, List.cons_append, List.getElem?_cons_zero, Option.any_some, h.byte, h.char]
      refine iff_of_false (fun hs => ?_) fun hs => hc (h.ascii _ hs)
      have hsmall := h.ascii _ hs
      omega

/-- As many bytes in front have the property as characters. -/
theorem Spells.takeWhile (h : Spells s q p) (cs : List Char) :
    ((bytes cs).takeWhile q).length = (cs.takeWhile p).length := by
  induction cs with
  | nil => rfl
  | cons c cs ih =>
    have hhead := h.head (c :: cs)
    rw [List.head?_cons, Option.any_some] at hhead
    cases hp : p c with
    | true =>
      have hc := h.ascii _ ((h.char c).mp hp)
      rw [bytes_cons, utf8EncodeChar_ascii hc, List.singleton_append] at hhead ⊢
      rw [List.getElem?_cons_zero, Option.any_some, hp] at hhead
      rw [List.takeWhile_cons_of_pos hhead, List.takeWhile_cons_of_pos hp, List.length_cons,
        List.length_cons, ih]
    | false =>
      rw [hp] at hhead
      rw [List.takeWhile_cons_of_neg (Bool.eq_false_iff.mp hp)]
      cases hbs : bytes (c :: cs) with
      | nil => rfl
      | cons b bs =>
        rw [hbs, List.getElem?_cons_zero, Option.any_some] at hhead
        rw [List.takeWhile_cons_of_neg (Bool.eq_false_iff.mp hhead)]
        rfl

end Spelled

theorem char_eq_iff (c d : Char) : c = d ↔ c.toNat = d.toNat := by
  rw [← Char.toNat_inj]

theorem byte_eq_iff (b d : UInt8) : b = d ↔ b.toNat = d.toNat := UInt8.toNat_inj.symm

theorem spells_digit : Spells (fun n => 48 ≤ n ∧ n ≤ 57) isDigitByte isDigit where
  byte b := by
    rw [isDigitByte, Bool.and_eq_true, decide_eq_true_eq, decide_eq_true_eq, UInt8.le_iff_toNat_le,
      UInt8.le_iff_toNat_le]
    rfl
  char c := isDigit_iff
  ascii n h := by omega

theorem spells_sign : Spells (fun n => n = 43 ∨ n = 45) isSignByte (fun c => c == '+' || c == '-') where
  byte b := by
    rw [isSignByte, Bool.or_eq_true, beq_iff_eq, beq_iff_eq, byte_eq_iff, byte_eq_iff]
    rfl
  char c := by
    rw [Bool.or_eq_true, beq_iff_eq, beq_iff_eq, char_eq_iff, char_eq_iff]
    rfl
  ascii n h := by omega

theorem spells_exponent :
    Spells (fun n => n = 101 ∨ n = 69) isExponentByte (fun c => c == 'e' || c == 'E') where
  byte b := by
    rw [isExponentByte, Bool.or_eq_true, beq_iff_eq, beq_iff_eq, byte_eq_iff, byte_eq_iff]
    rfl
  char c := by
    rw [Bool.or_eq_true, beq_iff_eq, beq_iff_eq, char_eq_iff, char_eq_iff]
    rfl
  ascii n h := by omega

theorem spells_point : Spells (fun n => n = 46) isPointByte (fun c => c == '.') where
  byte b := by
    rw [isPointByte, beq_iff_eq, byte_eq_iff]
    rfl
  char c := by
    rw [beq_iff_eq, char_eq_iff]
    rfl
  ascii n h := by omega

end FirstBytes

/-! ### Offsets -/

/-- The offset is behind ASCII characters, and what follows stands there. -/
def IsOffset (cs : List Char) (i : Nat) (rest : List Char) : Prop :=
  ∃ front, cs = front ++ rest ∧ (∀ c ∈ front, c.toNat < 0x80) ∧ front.length = i

namespace IsOffset

variable {cs rest more : List Char} {i : Nat} {c : Char}

theorem start (cs : List Char) : IsOffset cs 0 cs :=
  ⟨[], rfl, fun _ hc => absurd hc List.not_mem_nil, rfl⟩

theorem append (front : List Char) (h : IsOffset cs i (front ++ rest))
    (hfront : ∀ c ∈ front, c.toNat < 0x80) : IsOffset cs (i + front.length) rest := by
  obtain ⟨before, rfl, hbefore, rfl⟩ := h
  refine ⟨before ++ front, (List.append_assoc ..).symm, ?_, List.length_append⟩
  exact List.forall_mem_append.mpr ⟨hbefore, hfront⟩

theorem step (h : IsOffset cs i (c :: rest)) (hc : c.toNat < 0x80) : IsOffset cs (i + 1) rest :=
  append [c] h fun _ hd => by rwa [List.mem_singleton.mp hd]

theorem digits (h : IsOffset cs i rest) :
    IsOffset cs (i + (rest.takeWhile isDigit).length) (rest.dropWhile isDigit) := by
  refine append _ (by rwa [List.takeWhile_append_dropWhile]) fun c hc => ?_
  have hdigit := isDigit_iff.mp (List.mem_takeWhile_imp hc)
  omega

theorem bytes_eq (h : IsOffset cs i rest) : ∃ bs, bytes cs = bs ++ bytes rest ∧ bs.length = i := by
  obtain ⟨front, rfl, hfront, rfl⟩ := h
  refine ⟨bytes front, List.flatMap_append, ?_⟩
  rw [bytes_ascii hfront, List.length_map]

/-- Where a text is reached, its bytes can be cut. -/
theorem bytesFrom? (h : IsOffset cs i rest) : bytesFrom? (bytes cs) i = some (bytes rest) := by
  obtain ⟨bs, hbs, rfl⟩ := h.bytes_eq
  rw [Scriptlet.bytesFrom?, hbs, if_pos (by rw [List.length_append]; exact Nat.le_add_right _ _),
    List.drop_left]

theorem any {s : Nat → Prop} {q : UInt8 → Bool} {p : Char → Bool} (h : IsOffset cs i rest)
    (hspells : Spells s q p) : ((bytes cs)[i]?).any q = rest.head?.any p := by
  obtain ⟨bs, hbs, rfl⟩ := h.bytes_eq
  rw [hbs, List.getElem?_append_right (Nat.le_refl _), Nat.sub_self, hspells.head]

theorem digitsFrom? (h : IsOffset cs i rest) :
    digitsFrom? (bytes cs) i = some (rest.takeWhile isDigit).length := by
  rw [Scriptlet.digitsFrom?, h.bytesFrom?, Option.map_some, spells_digit.takeWhile]

/-- The end is reached when nothing follows. -/
theorem eq_length_iff (h : IsOffset cs i rest) : i = (bytes cs).length ↔ rest = [] := by
  obtain ⟨bs, hbs, rfl⟩ := h.bytes_eq
  rw [hbs, List.length_append, Nat.left_eq_add, List.length_eq_zero_iff]
  cases rest with
  | nil => exact iff_of_true rfl rfl
  | cons c rest =>
    refine iff_of_false (fun hnil => ?_) (List.cons_ne_nil c rest)
    rw [bytes_cons] at hnil
    exact String.utf8EncodeChar_ne_nil (List.append_eq_nil_iff.mp hnil).1

/-- **A text can be cut behind ASCII characters.** -/
theorem skipBytes? (h : IsOffset cs i rest) : skipBytes? i cs = some rest := by
  obtain ⟨front, rfl, hfront, rfl⟩ := h
  have hskip := skipBytes?_append front rest
  rwa [bytes_ascii hfront, List.length_map] at hskip

theorem keepBytes? (h : IsOffset cs i rest) : ∃ front, cs = front ++ rest ∧ keepBytes? i cs = some front := by
  obtain ⟨front, rfl, hfront, rfl⟩ := h
  have hkeep := keepBytes?_append front rest
  rw [bytes_ascii hfront, List.length_map] at hkeep
  exact ⟨front, rfl, hkeep⟩

/-! ### Parts of literals -/

theorem sign (h : IsOffset cs i rest) :
    IsOffset cs (i + if ((bytes cs)[i]?).any isSignByte then 1 else 0) (readSign rest).2 := by
  rw [h.any spells_sign]
  cases rest with
  | nil => exact h
  | cons c rest =>
    by_cases hplus : c = '+'
    · subst hplus
      exact h.step (by decide)
    · by_cases hminus : c = '-'
      · subst hminus
        exact h.step (by decide)
      · have hnone : (((c :: rest).head?).any fun c => c == '+' || c == '-') = false := by
          rw [List.head?_cons, Option.any_some, Bool.or_eq_false_iff, beq_eq_false_iff_ne,
            beq_eq_false_iff_ne]
          exact ⟨hplus, hminus⟩
        have hhead : ∀ d ∈ (c :: rest).head?, d ≠ '+' ∧ d ≠ '-' := fun d hd => by
          rw [← Option.mem_some_iff.mp hd]
          exact ⟨hplus, hminus⟩
        have hsame := IsSign.absent.read hhead
        rw [List.nil_append] at hsame
        rw [hnone, hsame]
        exact h

/-- Behind the mark of an exponent and its sign the digits are counted. -/
theorem exponentDigits (h : IsOffset cs i (c :: rest)) (hc : c = 'e' ∨ c = 'E') :
    IsOffset cs (i + 1 + if ((bytes cs)[i + 1]?).any isSignByte then 1 else 0) (readSign rest).2 :=
  (h.step (by rcases hc with rfl | rfl <;> decide)).sign

theorem marked (h : IsOffset cs i (c :: rest)) (hc : c = 'e' ∨ c = 'E') :
    ((bytes cs)[i]?).any isExponentByte = true := by
  rw [h.any spells_exponent, List.head?_cons, Option.any_some, Bool.or_eq_true, beq_iff_eq,
    beq_iff_eq]
  exact hc

end IsOffset

/-- An exponent is announced where one may be read. -/
theorem exponent_cases (cs : List Char) :
    (∃ c rest, (c = 'e' ∨ c = 'E') ∧ cs = c :: rest) ∨
      (cs.head?.any fun c => c == 'e' || c == 'E') = false ∧ readExponent cs = (0, cs) := by
  by_cases hcs : ∀ c ∈ cs.head?, ¬(c = 'e' ∨ c = 'E')
  · refine .inr ⟨?_, readExponent_unmarked hcs⟩
    cases cs with
    | nil => rfl
    | cons c cs =>
      rw [List.head?_cons, Option.any_some, Bool.eq_false_iff, ne_eq, Bool.or_eq_true, beq_iff_eq,
        beq_iff_eq]
      exact hcs c rfl
  · push Not at hcs
    obtain ⟨c, hc, hmark⟩ := hcs
    obtain ⟨rest, rfl⟩ := List.head?_eq_some_iff.mp hc
    exact .inl ⟨c, rest, hmark, rfl⟩

section Scans

variable {cs rest more : List Char} {i : Nat}

/-- A point behind the digits, and digits behind the point. -/
theorem IsOffset.point (h : IsOffset cs i rest) (hmore : rest.dropWhile isDigit = '.' :: more) :
    ((bytes cs)[i + (rest.takeWhile isDigit).length]?).any isPointByte = true ∧
      IsOffset cs (i + (rest.takeWhile isDigit).length + 1) more := by
  have hdigits := h.digits
  rw [hmore] at hdigits
  exact ⟨hdigits.any spells_point, hdigits.step (by decide)⟩

theorem IsOffset.whole (h : IsOffset cs i rest)
    (hwhole : ∀ c ∈ (rest.dropWhile isDigit).head?, c ≠ '.') :
    ((bytes cs)[i + (rest.takeWhile isDigit).length]?).any isPointByte = false := by
  rw [h.digits.any spells_point]
  cases hrest : rest.dropWhile isDigit with
  | nil => rfl
  | cons c rest =>
    rw [List.head?_cons, Option.any_some, beq_eq_false_iff_ne]
    exact hwhole c (by rw [hrest]; rfl)

/-- What is counted as digits of an exponent is what is read as such. -/
theorem exponent_end (h : IsOffset cs i rest) :
    ∃ stop, IsOffset cs stop (readExponent rest).2 ∧
      (if ((bytes cs)[i]?).any isExponentByte then
        (digitsFrom? (bytes cs) (i + 1 + if ((bytes cs)[i + 1]?).any isSignByte then 1 else 0)).bind
          fun exponent => some (some (if exponent = 0 then i
            else i + 1 + (if ((bytes cs)[i + 1]?).any isSignByte then 1 else 0) + exponent))
      else some (some i)) = some (some stop) := by
  rcases exponent_cases rest with ⟨c, rest, hc, rfl⟩ | ⟨hnone, hsame⟩
  · have hdigits := h.exponentDigits hc
    rw [if_pos (h.marked hc), hdigits.digitsFrom?, Option.bind_some, readExponent_marked hc]
    cases hds : (readSign rest).2.takeWhile isDigit with
    | nil =>
      -- The mark and the sign are given back.
      exact ⟨i, h, rfl⟩
    | cons d ds =>
      have hstop := hdigits.digits
      rw [hds] at hstop
      exact ⟨_, hstop, rfl⟩
  · rw [h.any spells_exponent, hnone, if_neg Bool.false_ne_true, hsame]
    exact ⟨i, h, rfl⟩

theorem decide_length (xs : List Char) : decide (xs.length = 0) = xs.isEmpty := by
  cases xs <;> rfl

/-- **The end that is found is that of the longest decimal literal.** -/
theorem literalEnd?_eq (h : IsOffset cs i rest) :
    literalEnd? (bytes cs) i = some none ∧ readLiteral? rest = none ∨
      ∃ stop l more, literalEnd? (bytes cs) i = some (some stop) ∧
        readLiteral? rest = some (l, more) ∧ IsOffset cs stop more := by
  unfold literalEnd?
  rcases point_cases rest with ⟨more, hmore⟩ | hwhole
  · obtain ⟨hpoint, hfraction⟩ := h.point hmore
    obtain ⟨stop, hstop, hend⟩ := exponent_end hfraction.digits
    rw [readLiteral?_point hmore]
    simp only [Option.bind_eq_bind, h.digitsFrom?, Option.bind_some, hpoint, if_true,
      hfraction.digitsFrom?, decide_length]
    split
    next => exact .inl ⟨rfl, rfl⟩
    next => exact .inr ⟨stop, _, _, hend, rfl, hstop⟩
  · obtain ⟨stop, hstop, hend⟩ := exponent_end h.digits
    rw [readLiteral?_whole hwhole]
    simp only [Option.bind_eq_bind, h.digitsFrom?, Option.bind_some, h.whole hwhole,
      if_neg Bool.false_ne_true, decide_length, decide_true, Bool.and_true]
    split
    next => exact .inl ⟨rfl, rfl⟩
    next => exact .inr ⟨stop, _, _, hend, rfl, hstop⟩

/-- Whether the bytes end with the digits of the exponent. -/
theorem exponent_ends (h : IsOffset cs i rest) :
    ∃ b, (b = true ↔ (readExponent rest).2 = []) ∧
      (if ((bytes cs)[i]?).any isExponentByte then
        (digitsFrom? (bytes cs) (if ((bytes cs)[i + 1]?).any isSignByte then i + 2 else i + 1)).bind
          fun exponent => some (decide (exponent ≠ 0) &&
            decide ((if ((bytes cs)[i + 1]?).any isSignByte then i + 2 else i + 1) + exponent
              = (bytes cs).length))
      else some (decide (i = (bytes cs).length))) = some b := by
  rcases exponent_cases rest with ⟨c, rest, hc, rfl⟩ | ⟨hnone, hsame⟩
  · have hstart : (if ((bytes cs)[i + 1]?).any isSignByte then i + 2 else i + 1)
        = i + 1 + if ((bytes cs)[i + 1]?).any isSignByte then 1 else 0 := by
      split <;> rfl
    have hdigits := h.exponentDigits hc
    rw [if_pos (h.marked hc), hstart, hdigits.digitsFrom?, Option.bind_some, readExponent_marked hc]
    cases hds : (readSign rest).2.takeWhile isDigit with
    | nil => exact ⟨false, iff_of_false Bool.false_ne_true (List.cons_ne_nil _ _), rfl⟩
    | cons d ds =>
      have hstop := hdigits.digits
      rw [hds] at hstop
      refine ⟨_, ?_, rfl⟩
      rw [Bool.and_eq_true, decide_eq_true_eq, decide_eq_true_eq, hstop.eq_length_iff]
      exact and_iff_right (Nat.succ_ne_zero _)
  · rw [h.any spells_exponent, hnone, if_neg Bool.false_ne_true, hsame]
    exact ⟨_, by rw [decide_eq_true_eq, h.eq_length_iff], rfl⟩

/-- **The bytes that are a decimal literal are those of one.** -/
theorem isLiteral?_eq (cs : List Char) :
    ∃ b, isLiteral? (bytes cs) = some b ∧ (b = true ↔ ∃ l, readLiteral? cs = some (l, [])) := by
  have h := IsOffset.start cs
  unfold isLiteral?
  rcases point_cases cs with ⟨more, hmore⟩ | hwhole
  · obtain ⟨hpoint, hfraction⟩ := h.point hmore
    obtain ⟨b, hb, hends⟩ := exponent_ends hfraction.digits
    rw [Nat.zero_add] at hpoint hfraction hends
    rw [readLiteral?_point hmore]
    simp only [Option.bind_eq_bind, spells_digit.takeWhile, Option.bind_some, hpoint, if_true,
      hfraction.digitsFrom?, decide_length]
    split
    next => exact ⟨false, rfl, iff_of_false Bool.false_ne_true fun ⟨l, hl⟩ => nomatch hl⟩
    next =>
      refine ⟨b, hends, hb.trans ⟨fun hnil => ⟨_, by rw [hnil]⟩, fun ⟨l, hl⟩ => ?_⟩⟩
      exact (Prod.mk.inj (Option.some.inj hl)).2
  · obtain ⟨b, hb, hends⟩ := exponent_ends h.digits
    have hnone := h.whole hwhole
    rw [Nat.zero_add] at hnone hends
    rw [readLiteral?_whole hwhole]
    simp only [Option.bind_eq_bind, spells_digit.takeWhile, Option.bind_some, hnone,
      if_neg Bool.false_ne_true, decide_length, decide_true, Bool.and_true]
    split
    next => exact ⟨false, rfl, iff_of_false Bool.false_ne_true fun ⟨l, hl⟩ => nomatch hl⟩
    next =>
      refine ⟨b, hends, hb.trans ⟨fun hnil => ⟨_, by rw [hnil]⟩, fun ⟨l, hl⟩ => ?_⟩⟩
      exact (Prod.mk.inj (Option.some.inj hl)).2

end Scans

end Scriptlet
