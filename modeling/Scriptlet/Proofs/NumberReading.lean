import Scriptlet.Builtin.Constructors
import Scriptlet.Proofs.ExactArithmetic
import Scriptlet.Proofs.NumberScans
import Scriptlet.Proofs.Outcomes

/-!
# Reading numbers from texts

A text denotes a number as a whole if it is a literal without the blanks at its ends, and it starts
with the longest decimal literal in front of it without the blanks in front.  Both ways of reading
leave the digits to a reader of decimal literals, of which nothing is assumed but that it reads what is
such a literal.

A text that denotes a decimal number as a whole starts with this number: nothing but blanks can follow,
and no literal ends with a blank.

## Main definitions

* `ReadsUnsigned`, `ReadsSigned` — what is assumed of the reader.

## Main results

* `readNumber_grammar` — **a text denotes a number as a whole if the grammar derives it**.
* `readDecimal_longest` — **the longest decimal literal in front is read**, and a text that denotes a
  number as a whole starts with it.
* `readers_skip_blanks` — **blanks and nothing else are skipped**.
-/

namespace Scriptlet

open Pipeline (bytes bytes_cons)

/-! ### The reader of decimal literals -/

/-- Decimal literals without sign are read. -/
def ReadsUnsigned (literal? : List Char → Option Float) : Prop :=
  ∀ cs n k, IsDecimal cs n k → literal? cs = some (Decimal.value n k)

/-- Decimal literals are read, and a minus in front negates. -/
def ReadsSigned (literal? : List Char → Option Float) : Prop :=
  ∀ sign negative cs n k, IsSign sign negative → IsDecimal cs n k →
    literal? (sign ++ cs) = some (Double.withSign negative (Decimal.value n k))

section Reader

variable {literal? : List Char → Option Float}

theorem ReadsSigned.unsigned (h : ReadsSigned literal?) : ReadsUnsigned literal? :=
  fun cs n k hcs => h [] false cs n k .absent hcs

/-- The reader at hand reads decimal literals. -/
theorem readsSigned_read? : ReadsSigned Decimal.read? := by
  intro sign negative cs n k hsign hcs
  obtain ⟨l, hl, hn, hk⟩ := hcs.read
  rw [Decimal.read?, hsign.read (IsUnsigned.decimal hcs).not_sign]
  simp only [hl, Literal.value]
  rw [hn, hk]

end Reader

/-! ### Signs in front -/

section Signs

variable {cs p q : List Char} {x y : Float}

theorem IsUnsigned.ne_nil (h : IsUnsigned cs x) : cs ≠ [] := by
  cases h with
  | infinity => exact List.cons_ne_nil _ _
  | decimal h =>
    rintro rfl
    obtain ⟨c, hc, -⟩ := h.head
    exact nomatch hc

/-- A literal in front of a text has the sign that is read, and its rest stands behind that sign. -/
theorem IsSigned.of_front (h : IsSigned q y) (hq : q <+: cs) :
    ∃ sign u x, q = sign ++ u ∧ cs = sign ++ (readSign cs).2 ∧ IsSign sign (readSign cs).1 ∧
      IsUnsigned u x ∧ u <+: (readSign cs).2 ∧ y = Double.withSign (readSign cs).1 x := by
  obtain ⟨hsign, hu⟩ := h
  obtain ⟨tail, rfl⟩ := hq
  obtain ⟨c, u, rfl⟩ := List.exists_cons_of_ne_nil hu.ne_nil
  have hhead : ∀ d ∈ (c :: (u ++ tail)).head?, d ≠ '+' ∧ d ≠ '-' := fun d hd => hu.not_sign d hd
  rw [List.append_assoc, List.cons_append, hsign.read hhead]
  exact ⟨_, _, _, rfl, rfl, hsign, hu, List.prefix_append _ _, rfl⟩

theorem isUnsigned_iff : IsUnsigned cs x ↔
    cs = infinityWord ∧ x = Double.infinity ∨ ∃ n k, IsDecimal cs n k ∧ x = Decimal.value n k := by
  constructor
  · rintro (_ | h)
    · exact .inl ⟨rfl, rfl⟩
    · exact .inr ⟨_, _, h, rfl⟩
  · rintro (⟨rfl, rfl⟩ | ⟨n, k, h, rfl⟩)
    · exact .infinity
    · exact .decimal h

theorem infinityWord_head (hcs : infinityWord <+: cs) (hp : IsUnsigned p x) (h : p <+: cs) :
    p = infinityWord := by
  cases hp with
  | infinity => rfl
  | decimal hp =>
    obtain ⟨tail, rfl⟩ := hcs
    obtain ⟨rest, hrest⟩ := h
    obtain ⟨c, hc, hdigit⟩ := hp.head
    obtain ⟨p, rfl⟩ := List.head?_eq_some_iff.mp hc
    obtain ⟨rfl, -⟩ := List.cons.inj hrest
    exact absurd hdigit (by decide)

/-- Visible characters of ASCII are no blanks. -/
theorem isBlank_of_visible {c : Char} (h : 32 < c.toNat ∧ c.toNat < 127) : isBlank c = false := by
  refine Bool.eq_false_iff.mpr fun hblank => ?_
  rw [isBlank, isBlankPoint_iff] at hblank
  simp only [isListedBlank, List.contains_cons, List.contains_nil, Bool.or_eq_true, Bool.and_eq_true,
    beq_iff_eq, decide_eq_true_eq, Bool.or_false] at hblank
  omega

theorem visible_of_digits {ds : List Char} (h : ∀ c ∈ ds, isDigit c = true) :
    ∀ c ∈ ds, 32 < c.toNat ∧ c.toNat < 127 := fun c hc => by
  have hdigit := isDigit_iff.mp (h c hc)
  omega

theorem IsSign.visible {sign : List Char} {negative : Bool} (h : IsSign sign negative) :
    ∀ c ∈ sign, 32 < c.toNat ∧ c.toNat < 127 := by
  cases h with
  | absent => exact List.forall_mem_nil _
  | plus => exact List.forall_mem_singleton.mpr (by decide)
  | minus => exact List.forall_mem_singleton.mpr (by decide)

theorem IsExponent.visible {es : List Char} {k : Int} (h : IsExponent es k) :
    ∀ c ∈ es, 32 < c.toNat ∧ c.toNat < 127 := by
  cases h with
  | absent => exact fun c hc => nomatch hc
  | marked hmark hsign hds =>
    refine List.forall_mem_cons.mpr ⟨by rcases hmark with rfl | rfl <;> decide, ?_⟩
    exact List.forall_mem_append.mpr ⟨hsign.visible, visible_of_digits hds.2⟩

theorem IsDecimal.visible {n : Nat} {k : Int} (h : IsDecimal cs n k) :
    ∀ c ∈ cs, 32 < c.toNat ∧ c.toNat < 127 := by
  have hpoint : 32 < '.'.toNat ∧ '.'.toNat < 127 := by decide
  cases h with
  | whole hds hes => exact List.forall_mem_append.mpr ⟨visible_of_digits hds.2, hes.visible⟩
  | point hds hfs hes =>
    exact List.forall_mem_append.mpr ⟨visible_of_digits hds.2, List.forall_mem_cons.mpr
      ⟨hpoint, List.forall_mem_append.mpr ⟨visible_of_digits hfs, hes.visible⟩⟩⟩
  | fraction hfs hes =>
    exact List.forall_mem_cons.mpr
      ⟨hpoint, List.forall_mem_append.mpr ⟨visible_of_digits hfs.2, hes.visible⟩⟩

/-- No blank is in a literal. -/
theorem IsSigned.not_blank (h : IsSigned cs x) : ∀ c ∈ cs, isBlank c = false := by
  obtain ⟨hsign, hu⟩ := h
  refine fun c hc => isBlank_of_visible (List.forall_mem_append.mpr ⟨hsign.visible, ?_⟩ c hc)
  cases hu with
  | infinity =>
    have hword : infinityWord.all (fun c => 32 < c.toNat && c.toNat < 127) = true := by decide
    exact fun c hc => by simpa using List.all_eq_true.mp hword c hc
  | decimal hu => exact hu.visible

/-- What a literal starts with. -/
theorem IsSigned.head (h : IsSigned cs x) :
    ∃ c ∈ cs.head?, isDigit c = true ∨ c ∈ ['+', '-', '.', 'I'] := by
  obtain ⟨hsign, hu⟩ := h
  cases hsign with
  | plus => exact ⟨'+', rfl, .inr (by decide)⟩
  | minus => exact ⟨'-', rfl, .inr (by decide)⟩
  | absent =>
    rw [List.nil_append]
    cases hu with
    | infinity => exact ⟨'I', rfl, .inr (by decide)⟩
    | decimal hu =>
      obtain ⟨c, hc, hdigit | rfl⟩ := hu.head
      · exact ⟨c, hc, .inl hdigit⟩
      · exact ⟨'.', hc, .inr (by decide)⟩

end Signs

/-! ### Radix literals -/

section Radixes

variable {cs ps : List Char} {c mark : Char} {radix n : Nat} {ds : List Nat} {x y : Float}

theorem radixMark?_iff : radixMark? ps = some radix ↔ ∃ mark, ps = ['0', mark] ∧ IsMark mark radix := by
  unfold IsMark
  constructor
  · intro h
    unfold radixMark? at h
    split at h <;> first | cases h; exact ⟨_, rfl, by decide⟩ | exact nomatch h
  · rintro ⟨mark, rfl, hmark⟩
    simp only [List.mem_cons, Prod.mk.injEq, List.not_mem_nil, or_false] at hmark
    rcases hmark with ⟨rfl, rfl⟩ | ⟨rfl, rfl⟩ | ⟨rfl, rfl⟩ | ⟨rfl, rfl⟩ | ⟨rfl, rfl⟩ | ⟨rfl, rfl⟩ <;> rfl

theorem IsMark.letter (h : IsMark mark radix) :
    mark.toNat < 0x80 ∧ isDigit mark = false ∧ mark ≠ '.' ∧ ¬(mark = 'e' ∨ mark = 'E') := by
  unfold IsMark at h
  simp only [List.mem_cons, Prod.mk.injEq, List.not_mem_nil, or_false] at h
  rcases h with ⟨rfl, -⟩ | ⟨rfl, -⟩ | ⟨rfl, -⟩ | ⟨rfl, -⟩ | ⟨rfl, -⟩ | ⟨rfl, -⟩ <;> decide

theorem IsMark.bounds (h : IsMark mark radix) : 2 ≤ radix ∧ radix ≤ 16 := by
  unfold IsMark at h
  simp only [List.mem_cons, Prod.mk.injEq, List.not_mem_nil, or_false] at h
  omega

/-- A letter announces one radix. -/
theorem IsMark.unique {radix' : Nat} (h : IsMark mark radix) (h' : IsMark mark radix') :
    radix = radix' := by
  have hradix := radixMark?_iff.mpr ⟨mark, rfl, h⟩
  rw [radixMark?_iff.mpr ⟨mark, rfl, h'⟩] at hradix
  exact (Option.some.inj hradix).symm

theorem IsRadixLiteral.unique {radix' : Nat} {ds' : List Nat} (h : IsRadixLiteral cs radix ds)
    (h' : IsRadixLiteral cs radix' ds') : radix = radix' ∧ ds = ds' := by
  obtain ⟨hmark, -, hds⟩ := h
  obtain ⟨hmark', -, hds'⟩ := h'
  obtain rfl := hmark.unique hmark'
  exact ⟨rfl, List.map_injective_iff.mpr (Option.some_injective Nat) (hds.symm.trans hds')⟩

theorem IsRadixLiteral.starts (h : IsRadixLiteral cs radix ds) :
    ∃ mark rest, cs = '0' :: mark :: rest ∧ IsMark mark radix := by
  cases h with
  | mk hmark _ => exact ⟨_, _, rfl, hmark⟩

theorem IsMark.reaches (h : IsMark mark radix) (cs : List Char) :
    IsOffset ('0' :: mark :: cs) 2 cs :=
  ((IsOffset.start _).step (by decide)).step h.letter.1

/-- The mark of a radix is looked for in the first two bytes. -/
theorem radixMark?_keepBytes? : (keepBytes? 2 cs).bind radixMark? = some radix ↔
    ∃ mark rest, cs = '0' :: mark :: rest ∧ IsMark mark radix := by
  rw [Option.bind_eq_some_iff]
  constructor
  · rintro ⟨ps, hkeep, hps⟩
    obtain ⟨mark, rfl, hmark⟩ := radixMark?_iff.mp hps
    obtain ⟨rest, rfl, -⟩ := keepBytes?_eq_some hkeep
    exact ⟨mark, rest, rfl, hmark⟩
  · rintro ⟨mark, rest, rfl, hmark⟩
    obtain ⟨front, hfront, hkeep⟩ := (hmark.reaches rest).keepBytes?
    have hsame : ['0', mark] ++ rest = front ++ rest := hfront
    exact ⟨front, hkeep, radixMark?_iff.mpr ⟨mark, (List.append_cancel_right hsame).symm, hmark⟩⟩

/-- What begins with the mark of a radix is no decimal literal. -/
theorem IsMark.not_signed (h : IsMark mark radix) (cs : List Char) (x : Float) :
    ¬IsSigned ('0' :: mark :: cs) x := by
  intro hsigned
  obtain ⟨-, hdigit, hpoint, hexponent⟩ := h.letter
  obtain ⟨y, hu, -⟩ := isSigned_iff.mp hsigned
  change IsUnsigned ('0' :: mark :: cs) y at hu
  cases hu with
  | decimal hu =>
    obtain ⟨l, hl, -⟩ := hu.read
    have hdrop : ('0' :: mark :: cs).dropWhile isDigit = mark :: cs := by
      rw [List.dropWhile_cons_of_pos (by decide),
        List.dropWhile_cons_of_neg (Bool.eq_false_iff.mp hdigit)]
    have hwhole : ∀ c ∈ (('0' :: mark :: cs).dropWhile isDigit).head?, c ≠ '.' := by
      rw [hdrop]
      intro c hc
      rwa [← Option.mem_some_iff.mp hc]
    have hnone : ∀ c ∈ (mark :: cs).head?, ¬(c = 'e' ∨ c = 'E') := fun c hc => by
      rwa [← Option.mem_some_iff.mp hc]
    rw [readLiteral?_whole hwhole, hdrop, readExponent_unmarked hnone] at hl
    split at hl
    next => exact nomatch hl
    next => exact absurd (Prod.mk.inj (Option.some.inj hl)).2 (List.cons_ne_nil _ _)

end Radixes

/-! ### Numbers as a whole -/

section Whole

variable {literal? : List Char → Option Float} {cs : List Char} {x : Float}

theorem spells_minus : Spells (fun n => n = 45) (fun b => b == 0x2D) (fun c => c == '-') where
  byte b := by
    rw [beq_iff_eq, byte_eq_iff]
    rfl
  char c := by
    rw [beq_iff_eq, char_eq_iff]
    rfl
  ascii n h := by omega

theorem readSign_negative (cs : List Char) : cs.head?.any (fun c => c == '-') = (readSign cs).1 := by
  obtain ⟨sign, hcs, hsign⟩ := readSign_spec cs
  unfold readSign
  split
  next => rfl
  next => rfl
  next hplus hminus =>
    cases cs with
    | nil => rfl
    | cons c cs =>
      rw [List.head?_cons, Option.any_some, beq_eq_false_iff_ne]
      exact fun hc => hminus cs (by rw [hc])

/-- The first byte tells the sign, and the text can be cut behind it. -/
theorem first_byte (hne : cs ≠ []) : ∃ first, (bytes cs)[0]? = some first ∧
    (if isSignByte first then skipBytes? 1 cs else some cs) = some (readSign cs).2 ∧
    (first == 0x2D) = (readSign cs).1 := by
  have hstart := IsOffset.start cs
  cases hbs : bytes cs with
  | nil => exact absurd (hstart.eq_length_iff.mp (by rw [hbs]; rfl)) hne
  | cons first bs =>
    have hsign := hstart.sign
    have hminus := hstart.any spells_minus
    rw [hbs, List.getElem?_cons_zero, Option.any_some, readSign_negative] at hminus
    rw [hbs, List.getElem?_cons_zero, Option.any_some, Nat.zero_add] at hsign
    refine ⟨first, rfl, ?_, hminus⟩
    split
    next hbyte =>
      rw [if_pos hbyte] at hsign
      exact hsign.skipBytes?
    next hbyte =>
      rw [if_neg hbyte] at hsign
      exact hstart.skipBytes?.symm.trans hsign.skipBytes?

theorem digitsOf_radix {radix : Nat} {ds : List Nat} (h : IsRadixLiteral cs radix ds) :
    0 < radix ∧ radix < 2 ^ 53 ∧ ∀ d ∈ ds, d < radix := by
  obtain ⟨hmark, -, hds⟩ := h
  have hbounds := hmark.bounds
  exact ⟨by omega, by omega, Radix.lt_of_digits hds⟩

theorem isNaN_nan : Double.nan.isNaN = true := rfl

theorem IsSigned.isNaN (h : IsSigned cs x) : x.isNaN = false := by
  obtain ⟨-, hu⟩ := h
  refine Double.isNaN_withSign _ ?_
  cases hu with
  | infinity => exact Double.isSize_infinity.isNaN
  | decimal => exact (Double.isSize_value _ _).isNaN

/-- Behind the mark of a radix, digits and nothing else are read. -/
theorem readUnblank?_mark {mark : Char} {radix : Nat} (literal? : List Char → Option Float)
    (hmark : IsMark mark radix) (cs : List Char) :
    ∃ x, readUnblank? literal? ('0' :: mark :: cs) = some x ∧
      ((∃ ds, AreDigitsOf radix cs ds ∧ x = Radix.value radix ds) ∨
        (∀ ds, ¬AreDigitsOf radix cs ds) ∧ x = Double.nan) := by
  have hradix := radixMark?_keepBytes?.mpr ⟨mark, cs, rfl, hmark⟩
  rw [readUnblank?, hradix]
  simp only [(hmark.reaches cs).skipBytes?, Option.bind_eq_bind, Option.bind_some]
  refine ⟨_, rfl, ?_⟩
  cases cs with
  | nil => exact .inr ⟨fun ds hds => hds.1 rfl, rfl⟩
  | cons c cs =>
    rcases Radix.digits_cases radix (c :: cs) with ⟨ds, hds⟩ | hother
    · exact .inl ⟨ds, ⟨List.cons_ne_nil c cs, hds⟩, Radix.append_digits hds 0.0⟩
    · refine .inr ⟨fun ds hds => ?_, Radix.append_other hother 0.0⟩
      obtain ⟨c', hc', hnone⟩ := hother
      have hmem : none ∈ ds.map some := hds.2 ▸ hnone ▸ List.mem_map_of_mem hc'
      obtain ⟨d, -, hd⟩ := List.mem_map.mp hmem
      exact nomatch hd

/-- Without such a mark, a decimal literal with a sign or without is read. -/
theorem readUnblank?_decimal (hread : ReadsUnsigned literal?) (hne : cs ≠ [])
    (hmark : (keepBytes? 2 cs).bind radixMark? = none) :
    ∃ x, readUnblank? literal? cs = some x ∧
      (IsSigned cs x ∨ (∀ y, ¬IsSigned cs y) ∧ x = Double.nan) := by
  obtain ⟨first, hfirst, hskip, hminus⟩ := first_byte hne
  obtain ⟨b, hb, hiff⟩ := isLiteral?_eq (readSign cs).2
  -- The slices taken for the sign are whole characters, so no cut falls inside one.
  have hwhole : readUnblank? literal? cs =
      if (readSign cs).2 = infinityWord then
        some (Double.withSign (readSign cs).1 Double.infinity)
      else if b then
        some (((literal? (readSign cs).2).map (Double.withSign (readSign cs).1)).getD Double.nan)
      else some Double.nan := by
    rw [bytes] at hfirst hb
    rw [readUnblank?, hmark]
    simp only [hfirst, Option.bind_eq_bind, Option.bind_some, hminus]
    split at hskip
    next hbyte => simp only [hbyte, if_true, hskip, Option.bind_some, hb]
    next hbyte =>
      rw [← Option.some.inj hskip] at hb ⊢
      simp only [hbyte, if_neg Bool.false_ne_true, Option.bind_some, hb]
  rw [hwhole]
  split
  next hword =>
    exact ⟨_, rfl, .inl (isSigned_iff.mpr ⟨_, hword ▸ .infinity, rfl⟩)⟩
  next hword =>
    split
    next htrue =>
      obtain ⟨n, k, hdecimal⟩ := readLiteral?_iff.mp (hiff.mp htrue)
      rw [hread _ _ _ hdecimal]
      exact ⟨_, rfl, .inl (isSigned_iff.mpr ⟨_, .decimal hdecimal, rfl⟩)⟩
    next hfalse =>
      refine ⟨_, rfl, .inr ⟨fun y hy => ?_, rfl⟩⟩
      obtain ⟨z, hz, -⟩ := isSigned_iff.mp hy
      rcases isUnsigned_iff.mp hz with ⟨hinfinity, -⟩ | ⟨n, k, hdecimal, -⟩
      · exact hword hinfinity
      · exact hfalse (hiff.mpr (readLiteral?_iff.mpr ⟨n, k, hdecimal⟩))

/-- What is read from a text without blanks at its ends is the number that the grammar derives. -/
theorem readUnblank?_grammar (hread : ReadsUnsigned literal?) (hne : cs ≠ []) :
    ∃ x, readUnblank? literal? cs = some x ∧ (x.isNaN = false ↔ IsNumeric cs) ∧
      (∀ y, IsSigned cs y → x = y) ∧
      ∀ radix ds, IsRadixLiteral cs radix ds → x = Radix.value radix ds := by
  have hnan : ¬Double.nan.isNaN = false := by rw [isNaN_nan]; decide
  -- A zero and a letter begin a radix literal and no decimal one, so the two grammars never compete.
  by_cases hmarked : ∃ mark rest, ∃ radix, cs = '0' :: mark :: rest ∧ IsMark mark radix
  · obtain ⟨mark, rest, radix, rfl, hmark⟩ := hmarked
    obtain ⟨x, hx, ⟨ds, hds, rfl⟩ | ⟨hnot, rfl⟩⟩ := readUnblank?_mark literal? hmark rest
    · have hliteral : IsRadixLiteral ('0' :: mark :: rest) radix ds := .mk hmark hds
      obtain ⟨hpos, hlt, hdigits⟩ := digitsOf_radix hliteral
      refine ⟨_, hx, iff_of_true (Radix.isSize_value hpos hlt hdigits).isNaN (.inr ⟨_, _, hliteral⟩),
        fun y hy => absurd hy (hmark.not_signed rest y), fun radix' ds' h => ?_⟩
      obtain ⟨rfl, rfl⟩ := hliteral.unique h
      rfl
    · have hradix : ∀ radix' ds, ¬IsRadixLiteral ('0' :: mark :: rest) radix' ds :=
        fun radix' ds h => by
          cases h with
          | mk hmark' hds => exact hnot ds (hmark.unique hmark' ▸ hds)
      refine ⟨_, hx, iff_of_false hnan ?_, fun y hy => absurd hy (hmark.not_signed rest y),
        fun radix' ds h => absurd h (hradix radix' ds)⟩
      rintro (⟨y, hy⟩ | ⟨radix', ds, h⟩)
      · exact hmark.not_signed rest y hy
      · exact hradix radix' ds h
  · have hnone : (keepBytes? 2 cs).bind radixMark? = none := by
      refine Option.eq_none_iff_forall_ne_some.mpr fun radix hradix => hmarked ?_
      obtain ⟨mark, rest, hcs, hmark⟩ := radixMark?_keepBytes?.mp hradix
      exact ⟨mark, rest, radix, hcs, hmark⟩
    have hradix : ∀ radix ds, ¬IsRadixLiteral cs radix ds := fun radix ds h => by
      obtain ⟨mark, rest, hcs, hmark⟩ := h.starts
      exact hmarked ⟨mark, rest, radix, hcs, hmark⟩
    obtain ⟨x, hx, hsigned | ⟨hnot, rfl⟩⟩ := readUnblank?_decimal hread hne hnone
    · exact ⟨x, hx, iff_of_true hsigned.isNaN (.inl ⟨x, hsigned⟩), fun y hy => hsigned.unique hy,
        fun radix ds h => absurd h (hradix radix ds)⟩
    · refine ⟨_, hx, iff_of_false hnan ?_, fun y hy => absurd hy (hnot y),
        fun radix ds h => absurd h (hradix radix ds)⟩
      rintro (⟨y, hy⟩ | ⟨radix, ds, h⟩)
      · exact hnot y hy
      · exact hradix radix ds h

/-- **A text denotes a number as a whole if the grammar derives it.**  Without the blanks at its ends
it is nothing, which is zero, or the literal of a number, or it denotes none.  A decimal literal is read
as what it denotes, and so is a literal of another radix as long as that is below `2 ^ 53`.  No piece of
the text is out of bounds or ends within a character.  All that is assumed of the reader of decimal
literals is that it reads those without sign. -/
theorem readNumber_grammar (hread : ReadsUnsigned literal?) (cs : List Char) :
    ∃ t x, TrimsBoth isBlank cs t ∧ readNumber? literal? cs = some x ∧ (t = [] → x = 0.0) ∧
      (t ≠ [] → (x.isNaN = false ↔ IsNumeric t)) ∧ (∀ y, IsSigned t y → x = y) ∧
      ∀ radix ds, IsRadixLiteral t radix ds → Nat.ofDigits radix ds.reverse < 2 ^ 53 →
        x = Float.ofNat (Nat.ofDigits radix ds.reverse) := by
  rw [readNumber?]
  by_cases hnil : trimBlanks cs = []
  · refine ⟨_, 0.0, trims_trimBlanks cs, by rw [hnil]; rfl, fun _ => rfl, fun hne => absurd hnil hne,
      fun y hy => ?_, fun radix ds h => ?_⟩
    · obtain ⟨c, hc, -⟩ := hy.head
      rw [hnil] at hc
      exact nomatch hc
    · rw [hnil] at h
      exact nomatch h
  · obtain ⟨x, hx, hnan, hsigned, hradix⟩ := readUnblank?_grammar hread hnil
    have hsome : (trimBlanks cs).isEmpty = false :=
      Bool.eq_false_iff.mpr fun hempty => hnil (List.isEmpty_iff.mp hempty)
    refine ⟨_, x, trims_trimBlanks cs, ?_, fun h => absurd h hnil, fun _ => hnan, hsigned,
      fun radix ds h hlt => ?_⟩
    · simp only [hsome, if_neg Bool.false_ne_true, hx]
    · obtain ⟨hpos, hradix', -⟩ := digitsOf_radix h
      rw [hradix radix ds h, Radix.value_natural hpos hradix' hlt]

/-- A hexadecimal literal with blanks at both ends. -/
theorem readNumber_hexadecimal : ReadsUnsigned Decimal.read? ∧
    readNumber? Decimal.read? " 0x1F ".toList = some (Float.ofNat 31) := by
  have hliteral : IsRadixLiteral ['0', 'x', '1', 'F'] 16 [1, 15] :=
    .mk (.head _) ⟨List.cons_ne_nil _ _, by decide⟩
  obtain ⟨t, x, ht, hx, -, -, -, hradix⟩ :=
    readNumber_grammar readsSigned_read?.unsigned " 0x1F ".toList
  obtain rfl : t = ['0', 'x', '1', 'F'] := (trims_iff.mp ht).trans (by decide)
  rw [hx, hradix 16 [1, 15] hliteral (by decide)]
  exact ⟨readsSigned_read?.unsigned, rfl⟩

end Whole

/-! ### Decimal numbers in front -/

section Front

variable {literal? : List Char → Option Float} {cs rest p q : List Char} {x y : Float}

/-- What a literal in front of a text is, if that does not go on with the word for infinity. -/
theorem IsSigned.decimal_of_front (h : IsSigned q y) (hq : q <+: cs)
    (hword : ¬infinityWord <+: (readSign cs).2) :
    ∃ sign u n k, q = sign ++ u ∧ cs = sign ++ (readSign cs).2 ∧ IsDecimal u n k ∧
      u <+: (readSign cs).2 := by
  obtain ⟨sign, u, x, hqu, hcs, -, hu, hstart, -⟩ := h.of_front hq
  rcases isUnsigned_iff.mp hu with ⟨rfl, -⟩ | ⟨n, k, hdecimal, -⟩
  · exact absurd hstart hword
  · exact ⟨sign, u, n, k, hqu, hcs, hdecimal, hstart⟩

/-- The longest literal in front is read. -/
theorem readDecimal?_front (hread : ReadsSigned literal?) (cs : List Char) :
    ∃ x, readDecimal? literal? cs = some x ∧
      ((∃ p, p <+: skipBlanks cs ∧ IsSigned p x ∧
          ∀ q y, q <+: skipBlanks cs → IsSigned q y → q <+: p) ∨
        (∀ q y, q <+: skipBlanks cs → ¬IsSigned q y) ∧ x = Double.nan) := by
  rw [readDecimal?]
  generalize skipBlanks cs = text
  obtain ⟨sign, htext, hsign⟩ := readSign_spec text
  have hreached := (IsOffset.start text).sign
  rw [Nat.zero_add] at hreached
  change ∃ x, (skipBytes? (if ((bytes text)[0]?).any isSignByte then 1 else 0) text).bind _ = some x ∧ _
  rw [hreached.skipBytes?, Option.bind_some]
  -- The word for infinity is looked for first, which no decimal literal begins with.
  by_cases hword : infinityWord <+: (readSign text).2
  · have hne : text ≠ [] := by
      rintro rfl
      exact absurd (List.prefix_nil.mp hword) (List.cons_ne_nil _ _)
    obtain ⟨first, hfirst, -, hminus⟩ := first_byte hne
    refine ⟨Double.withSign (readSign text).1 Double.infinity, ?_,
      .inl ⟨sign ++ infinityWord, ?_, .mk hsign .infinity, fun q y hq h => ?_⟩⟩
    · rw [if_pos (List.isPrefixOf_iff_prefix.mpr hword), ← hminus]
      exact congrArg (Option.bind · _) hfirst
    · rw [htext, List.prefix_append_right_inj]
      exact hword
    · obtain ⟨sign', u, x, rfl, htext', -, hu, hstart, -⟩ := h.of_front hq
      rw [infinityWord_head hword hu hstart, List.append_cancel_right (htext.symm.trans htext')]
  · rw [if_neg fun h => hword (List.isPrefixOf_iff_prefix.mp h)]
    rcases literalEnd?_eq hreached with ⟨hend, hnone⟩ | ⟨stop, l, more, hend, hsome, hstop⟩
    · refine ⟨Double.nan, congrArg (Option.bind · _) hend, .inr ⟨fun q y hq h => ?_, rfl⟩⟩
      obtain ⟨sign', u, n, k, -, -, hu, hstart⟩ := h.decimal_of_front hq hword
      exact readLiteral?_none hnone hu hstart
    · obtain ⟨p, hrest, hp, hlongest⟩ := readLiteral?_longest hsome
      obtain ⟨front, hfront, hkeep⟩ := hstop.keepBytes?
      have hpiece : front = sign ++ p := by
        refine List.append_cancel_right (hfront.symm.trans ?_)
        rw [List.append_assoc, ← hrest, ← htext]
      have hvalue := hread sign _ p _ _ hsign hp
      refine ⟨_, ?_, .inl ⟨sign ++ p, ?_, .mk hsign (.decimal hp), fun q y hq h => ?_⟩⟩
      · refine (congrArg (Option.bind · _) hend).trans ?_
        refine (congrArg (Option.bind · _) hkeep).trans ?_
        rw [Option.bind_some, hpiece, hvalue, Option.getD_some]
      · rw [← hpiece, hfront]
        exact List.prefix_append front more
      · obtain ⟨sign', u, n, k, rfl, htext', hu, hstart⟩ := h.decimal_of_front hq hword
        rw [List.append_cancel_right (htext'.symm.trans htext), List.prefix_append_right_inj]
        exact hlongest u n k hu hstart

/-- Nothing but blanks follows the literal that is all of a text without the blanks at its ends. -/
theorem signed_of_trimmed (hp : IsSigned p x) (h : p <+: skipBlanks cs)
    (htrimmed : trimBlanks cs <+: p) : p = trimBlanks cs := by
  obtain ⟨back, hskip, hback, -⟩ := trimsBack_rdropWhile isBlank (skipBlanks cs)
  change skipBlanks cs = trimBlanks cs ++ back at hskip
  -- If the literal were longer, it would go on with a blank.
  obtain ⟨more, rfl⟩ := htrimmed
  rw [hskip, List.prefix_append_right_inj] at h
  cases more with
  | nil => exact List.append_nil _
  | cons c more =>
    have hblank := hback c (h.subset List.mem_cons_self)
    rw [hp.not_blank c (List.mem_append_right _ List.mem_cons_self)] at hblank
    exact absurd hblank Bool.false_ne_true

/-- **The longest decimal literal in front is read**, blanks excepted, and not-a-number if there is
none.  A text that denotes a number as a whole, and has not the mark of a radix, starts with that
number.  No offset is out of bounds or within a character.  All that is assumed of the reader of decimal
literals is that it reads them, and that a minus negates. -/
theorem readDecimal_longest (hread : ReadsSigned literal?) (cs : List Char) :
    ∃ t x, TrimsFront isBlank cs t ∧ readDecimal? literal? cs = some x ∧
      ((∃ p, p <+: t ∧ IsSigned p x ∧ ∀ q y, q <+: t → IsSigned q y → q <+: p) ∨
        (∀ q y, q <+: t → ¬IsSigned q y) ∧ x = Double.nan) ∧
      ∀ u y, TrimsBoth isBlank cs u → u ≠ [] →
        (∀ mark radix rest, IsMark mark radix → u ≠ '0' :: mark :: rest) →
        readNumber? literal? cs = some y → y.isNaN = false → x = y := by
  obtain ⟨x, hx, hcases⟩ := readDecimal?_front hread cs
  refine ⟨_, x, trimsFront_dropWhile isBlank cs, hx, hcases, fun u y hu hne hmark hy hnan => ?_⟩
  obtain rfl : u = trimBlanks cs := (trims_iff.mp hu).trans (dropWhile_rdropWhile isBlank cs)
  obtain ⟨t, z, ht, hz, -, hiff, hsigned, -⟩ := readNumber_grammar hread.unsigned cs
  obtain rfl : t = trimBlanks cs := (trims_iff.mp ht).trans (dropWhile_rdropWhile isBlank cs)
  obtain rfl : y = z := Option.some.inj (hy.symm.trans hz)
  obtain ⟨w, hw⟩ | ⟨radix, ds, hradix⟩ := (hiff hne).mp hnan
  · have hstart : trimBlanks cs <+: skipBlanks cs := List.rdropWhile_prefix _ _
    rcases hcases with ⟨p, hp, hpx, hlongest⟩ | ⟨hnot, -⟩
    · obtain rfl := signed_of_trimmed hpx hp (hlongest _ w hstart hw)
      rw [hsigned w hw, hpx.unique hw]
    · exact absurd hw (hnot _ w hstart)
  · obtain ⟨mark, rest, hu, hradix⟩ := hradix.starts
    exact absurd hu (hmark mark radix rest hradix)

/-- What stands behind the number here is no exponent. -/
theorem readDecimal_unfinished : ReadsSigned Decimal.read? ∧
    ∃ p x, readDecimal? Decimal.read? " -2.5e+x".toList = some x ∧ IsSigned p x ∧
      "-2.5".toList <+: p ∧ p <+: "-2.5e+x".toList := by
  refine ⟨readsSigned_read?, ?_⟩
  have hwhole : AreDigits ['2'] := ⟨List.cons_ne_nil _ _, List.forall_mem_singleton.mpr rfl⟩
  have hfraction : ∀ c ∈ ['5'], isDigit c = true := List.forall_mem_singleton.mpr rfl
  have hliteral := IsSigned.mk .minus (.decimal (.point hwhole hfraction .absent))
  obtain ⟨t, x, ht, hx, hcases, -⟩ := readDecimal_longest readsSigned_read? " -2.5e+x".toList
  obtain rfl : t = "-2.5e+x".toList := ht.eq_dropWhile.trans (by decide)
  rcases hcases with ⟨p, hp, hpx, hlongest⟩ | ⟨hnot, -⟩
  · exact ⟨p, x, hx, hpx, hlongest _ _ (by decide) hliteral, hp⟩
  · exact absurd hliteral (hnot _ _ (by decide))

end Front

/-! ### What is skipped -/

section Skipped

variable {cs : List Char} {c : Char}

theorem readNumber_skipBlanks (cs : List Char) : readNumber (skipBlanks cs) = readNumber cs := by
  rw [readNumber, readNumber, readNumber?, readNumber?, trimBlanks_skipBlanks]

theorem readNumber_trimBlanks (cs : List Char) : readNumber (trimBlanks cs) = readNumber cs := by
  rw [readNumber, readNumber, readNumber?, readNumber?, trimBlanks_trimBlanks]

theorem readDecimal_skipBlanks (cs : List Char) : readDecimal (skipBlanks cs) = readDecimal cs := by
  rw [readDecimal, readDecimal, readDecimal?, readDecimal?, skipBlanks_skipBlanks]

theorem readInteger_skipBlanks (cs : List Char) (radix : Int) :
    readInteger (skipBlanks cs) radix = readInteger cs radix := by
  rw [readInteger, readInteger, skipBlanks_skipBlanks]

/-- A literal in front of a text starts with what the text starts with. -/
theorem IsSigned.head_of_front {p : List Char} {x : Float} (h : IsSigned p x) (hp : p <+: c :: cs) :
    isDigit c = true ∨ c ∈ ['+', '-', '.', 'I'] := by
  obtain ⟨d, hd, hstart⟩ := h.head
  obtain ⟨p, rfl⟩ := List.head?_eq_some_iff.mp hd
  rwa [(List.cons_prefix_cons.mp hp).1] at hstart

theorem trimBlanks_cons (hblank : isBlank c = false) (cs : List Char) :
    ∃ rest, trimBlanks (c :: cs) = c :: rest ∧ c :: rest <+: c :: cs := by
  have hneg := Bool.eq_false_iff.mp hblank
  have htrim : trimBlanks (c :: cs) = (c :: cs).rdropWhile isBlank := by
    rw [trimBlanks_eq, List.dropWhile_cons_of_neg hneg]
  have hstart := List.rdropWhile_prefix isBlank (c :: cs)
  rw [htrim]
  cases hrest : (c :: cs).rdropWhile isBlank with
  | nil => exact absurd (List.rdropWhile_eq_nil_iff.mp hrest c List.mem_cons_self) hneg
  | cons d rest =>
    rw [hrest] at hstart
    obtain ⟨rfl, -⟩ := List.cons_prefix_cons.mp hstart
    exact ⟨rest, rfl, hstart⟩

/-- A text that starts with a character that is no blank and begins no literal denotes no number, and
no decimal number is in front of it. -/
theorem not_number_of_head (hblank : isBlank c = false) (hdigit : isDigit c = false)
    (hc : c ∉ ['+', '-', '.', 'I']) (cs : List Char) :
    (readNumber (c :: cs)).isNaN = true ∧ (readDecimal (c :: cs)).isNaN = true := by
  have hsigned : ∀ p x, p <+: c :: cs → ¬IsSigned p x := fun p x hp h => by
    rcases h.head_of_front hp with hdigit' | hc'
    · rw [hdigit] at hdigit'
      exact Bool.false_ne_true hdigit'
    · exact hc hc'
  have hskip : skipBlanks (c :: cs) = c :: cs :=
    List.dropWhile_cons_of_neg (Bool.eq_false_iff.mp hblank)
  constructor
  · obtain ⟨t, x, ht, hx, -, hnan, -⟩ := readNumber_grammar readsSigned_read?.unsigned (c :: cs)
    obtain ⟨rest, hrest, hstart⟩ := trimBlanks_cons hblank cs
    obtain rfl : t = c :: rest :=
      ((trims_iff.mp ht).trans (dropWhile_rdropWhile isBlank _)).trans hrest
    rw [readNumber, hx, Option.getD_some, ← Bool.not_eq_false]
    intro hnumber
    rcases (hnan (List.cons_ne_nil _ _)).mp hnumber with ⟨y, hy⟩ | ⟨radix, ds, h⟩
    · exact hsigned _ y hstart hy
    · obtain ⟨mark, more, hcs, -⟩ := h.starts
      rw [(List.cons.inj hcs).1] at hdigit
      exact absurd hdigit (by decide)
  · obtain ⟨x, hx, ⟨p, hp, hpx, -⟩ | ⟨-, rfl⟩⟩ := readDecimal?_front readsSigned_read? (c :: cs)
    · rw [hskip] at hp
      exact absurd hpx (hsigned p x hp)
    · rw [readDecimal, hx, Option.getD_some, isNaN_nan]

theorem digit?_none {radix : Nat} (hradix : radix ≤ 36) (h : Radix.digit? 36 c = none) :
    Radix.digit? radix c = none := by
  simp only [Radix.digit?, ite_eq_right_iff, reduceCtorEq, imp_false] at h ⊢
  omega

/-- So it is with integers of any radix, for characters that are no digits of any. -/
theorem not_integer_of_head (hblank : isBlank c = false) (hdigit : Radix.digit? 36 c = none)
    (hc : c ∉ ['+', '-']) (cs : List Char) (radix : Int) :
    (readInteger (c :: cs) radix).isNaN = true := by
  have hskip : skipBlanks (c :: cs) = c :: cs :=
    List.dropWhile_cons_of_neg (Bool.eq_false_iff.mp hblank)
  have hhead : ∀ d ∈ (c :: cs).head?, d ≠ '+' ∧ d ≠ '-' := fun d hd => by
    rw [← Option.mem_some_iff.mp hd]
    exact ⟨fun h => hc (by rw [h]; decide), fun h => hc (by rw [h]; decide)⟩
  have hsign : readSign (c :: cs) = (false, c :: cs) := IsSign.absent.read hhead
  have hmark : dropHexMark? (c :: cs) = none := by
    have hzero : c ≠ '0' := by
      rintro rfl
      exact absurd hdigit (by decide)
    simp [dropHexMark?, hzero]
  have hempty : ∀ r ≤ 36, readDigits r (c :: cs) = Double.nan := fun r hr => by
    have hnone : ((c :: cs).takeWhile fun d => (Radix.digit? r d).isSome) = [] :=
      List.takeWhile_cons_of_neg (by rw [digit?_none hr hdigit]; exact Bool.false_ne_true)
    rw [readDigits, hnone]
    rfl
  rw [readInteger, hskip, hsign]
  by_cases hrange : (radix ≠ 0 && (radix < 2 || 36 < radix)) = true
  · simp only [hrange, if_pos, isNaN_nan]
  · have hradix : (behindMark radix (c :: cs)).1 ≤ 36 ∧ (behindMark radix (c :: cs)).2 = c :: cs := by
      simp only [ne_eq, Bool.and_eq_true, Bool.or_eq_true, decide_eq_true_eq] at hrange
      rw [behindMark, hmark]
      split_ifs <;> refine ⟨?_, rfl⟩ <;> dsimp only <;> omega
    simp only [hradix.2, hempty _ hradix.1, if_neg hrange]
    exact isNaN_nan

end Skipped

/-! ### The built-in functions -/

section BuiltIn

variable (m : Machine) (t : Text) (args : List Value)

theorem Machine.number_trimStart :
    m.callBuiltin (.constructor .number) .undefined (.text t.trimStart :: args)
      = m.callBuiltin (.constructor .number) .undefined (.text t :: args) := by
  change (return Value.number (readNumber t.trimStart.toString.toList) : Eval Value)
    = return Value.number (readNumber t.toString.toList)
  rw [Text.toList_trimStart, readNumber_skipBlanks]

theorem Machine.number_trim :
    m.callBuiltin (.constructor .number) .undefined (.text t.trim :: args)
      = m.callBuiltin (.constructor .number) .undefined (.text t :: args) := by
  change (return Value.number (readNumber t.trim.toString.toList) : Eval Value)
    = return Value.number (readNumber t.toString.toList)
  rw [Text.toList_trim, readNumber_trimBlanks]

theorem Machine.parseFloat_trimStart :
    m.callBuiltin (.global .parseFloat) .undefined (.text t.trimStart :: args)
      = m.callBuiltin (.global .parseFloat) .undefined (.text t :: args) := by
  change (return Value.number (readDecimal t.trimStart.toString.toList) : Eval Value)
    = return Value.number (readDecimal t.toString.toList)
  rw [Text.toList_trimStart, readDecimal_skipBlanks]

theorem Machine.parseInt_trimStart :
    m.callBuiltin (.global .parseInt) .undefined (.text t.trimStart :: args)
      = m.callBuiltin (.global .parseInt) .undefined (.text t :: args) := by
  change (do
      let x ← m.toNumber (argument args 0)
      return Value.number (readInteger t.trimStart.toString.toList (Double.toInt32 x)) : Eval Value)
    = do
      let x ← m.toNumber (argument args 0)
      return Value.number (readInteger t.toString.toList (Double.toInt32 x))
  simp only [Text.toList_trimStart, readInteger_skipBlanks]

/-- What is said of the calls is said of the numbers that are read. -/
theorem Machine.parseInt_eq_ok {a b : Agent} {v : Value}
    (h : m.callBuiltin (.global .parseInt) .undefined (.text t :: args) a = .ok v b) :
    ∃ radix, v = .number (readInteger t.toString.toList radix) := by
  change (do
      let x ← m.toNumber (argument args 0)
      return Value.number (readInteger t.toString.toList (Double.toInt32 x)) : Eval Value) a
    = .ok v b at h
  obtain ⟨x, c, -, hx⟩ := Eval.bind_eq_ok h
  cases hx
  exact ⟨_, rfl⟩

end BuiltIn

/-- **Blanks and nothing else are skipped**, the same ones by the methods that trim texts and by the
functions that read numbers.  The character U+0085 is skipped although the language does not list it:
what is left by the methods is what the language says unless that has this character at an end. -/
theorem readers_skip_blanks (m : Machine) (t : Text) (args : List Value) :
    (m.textMethod .trimStart (.text t) args = pure (.text t.trimStart) ∧
      m.textMethod .trimEnd (.text t) args = pure (.text t.trimEnd) ∧
      m.textMethod .trim (.text t) args = pure (.text t.trim)) ∧
    (∀ us, TrimsFront Text.isListedUnit t.units.toList us →
      (t.trimStart.units.toList = us ↔ 0x85 ∉ us.head?)) ∧
    (∀ us, TrimsBack Text.isListedUnit t.units.toList us →
      (t.trimEnd.units.toList = us ↔ 0x85 ∉ us.getLast?)) ∧
    (∀ us, TrimsBoth Text.isListedUnit t.units.toList us →
      (t.trim.units.toList = us ↔ 0x85 ∉ us.head? ∧ 0x85 ∉ us.getLast?)) ∧
    (t.trim = t.trimEnd.trimStart ∧ t.trim.trim = t.trim) ∧
    ((∀ b ∈ [Builtin.constructor .number, .global .parseInt, .global .parseFloat],
        m.callBuiltin b .undefined (.text t.trimStart :: args)
          = m.callBuiltin b .undefined (.text t :: args)) ∧
      m.callBuiltin (.constructor .number) .undefined (.text t.trim :: args)
        = m.callBuiltin (.constructor .number) .undefined (.text t :: args)) ∧
    ∀ c cs, t.toString.toList = c :: cs → isListedBlank c.toNat = false → c.toNat ≠ 0x85 →
      (isDigit c = false → c ∉ ['+', '-', '.', 'I'] →
        ∀ b ∈ [Builtin.constructor .number, .global .parseFloat], ∃ x, x.isNaN = true ∧
          m.callBuiltin b .undefined (.text t :: args) = pure (.number x)) ∧
      (Radix.digit? 36 c = none → c ∉ ['+', '-'] → ∀ a b v,
        m.callBuiltin (.global .parseInt) .undefined (.text t :: args) a = .ok v b →
          ∃ x, x.isNaN = true ∧ v = .number x) := by
  refine ⟨⟨rfl, rfl, rfl⟩, fun us h => ?_, fun us h => ?_, fun us h => ?_, ⟨t.trim_eq, t.trim_trim⟩,
    ⟨?_, m.number_trim t args⟩, fun c cs ht hlisted hnext => ?_⟩
  · rw [Text.units_trimStart, h.eq_iff Text.isBlankUnit_iff]
  · rw [Text.units_trimEnd, h.eq_iff Text.isBlankUnit_iff]
  · rw [Text.units_trim, h.eq_iff Text.isBlankUnit_iff]
  · exact List.forall_mem_cons.mpr ⟨m.number_trimStart t args, List.forall_mem_cons.mpr
      ⟨m.parseInt_trimStart t args, List.forall_mem_singleton.mpr (m.parseFloat_trimStart t args)⟩⟩
  -- Every blank the reader skips is listed except the next-line character.
  · have hblank : isBlank c = false := Bool.eq_false_iff.mpr fun h => by
      rcases isBlankPoint_iff.mp h with h | h
      · rw [hlisted] at h
        exact Bool.false_ne_true h
      · exact hnext h
    refine ⟨fun hdigit hc => ?_, fun hdigit hc a b v h => ?_⟩
    · obtain ⟨hnumber, hdecimal⟩ := not_number_of_head hblank hdigit hc cs
      rw [← ht] at hnumber hdecimal
      exact List.forall_mem_cons.mpr ⟨⟨_, hnumber, rfl⟩,
        List.forall_mem_singleton.mpr ⟨_, hdecimal, rfl⟩⟩
    · obtain ⟨radix, rfl⟩ := m.parseInt_eq_ok t args h
      exact ⟨_, ht ▸ not_integer_of_head hblank hdigit hc cs radix, rfl⟩

/-- The character U+0085 is removed, which the language does not list. -/
theorem trims_nextLine :
    ¬TrimsBoth Text.isListedUnit [0x85, 0x78] (Text.trim ⟨#[0x85, 0x78]⟩).units.toList := by
  rw [trims_iff]
  decide

end Scriptlet
