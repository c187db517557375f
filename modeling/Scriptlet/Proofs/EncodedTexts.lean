import Mathlib.Algebra.Ring.Nat
import Scriptlet.Proofs.PipelineOperators
import Scriptlet.Proofs.TextSequences
import Scriptlet.Text.Bytes

/-!
# Encoded texts

A library keeps code points in buffers, encoded byte by byte.  The buffers are known by what the
library says of them: the points in a buffer, lone surrogates among them, and what the operations
make of these.  A second half that comes to stand behind a first one is joined to it, so no buffer
holds a pair as two points, and the points are those of the units.

A buffer of as many bytes as code units holds ASCII, where bytes, characters and units are counted
alike.

## Main definitions

* `placeFrom?` — Unicode text searched.
* `Wtf8` — the library, with what it says of its buffers.
* `Wtf8.plain` — buffers that hold code units.

## Main results

* `skipBytes?_append`, `keepBytes?_append`, `keepBytes?_eq_some` — text is cut behind its characters.
* `charUnits_eq_map_bytes` — in ASCII text the units are the bytes.
* `placeFrom?_eq_some` — the search finds the first place.
* `Wtf8.lt_of_size_eq` — a buffer of as many bytes as units holds ASCII.
* `Wtf8.text?_isSome_iff` — the contents are Unicode text if all surrogates are paired.
-/

namespace Scriptlet

open Pipeline (bytes bytes_cons)

/-! ### Pieces of encoded text -/

/-- The first offset from `start` on where `needle` stands. -/
def placeFrom? {α : Type} [DecidableEq α] (xs needle : List α) (start : Nat) : Option Nat :=
  if xs.length < start ∨ xs.length - start < needle.length then none
  else (List.range' start (xs.length - needle.length + 1 - start)).find? fun i =>
    decide ((xs.drop i).take needle.length = needle)

/-- The code units of Unicode text. -/
def charUnits (cs : List Char) : List UInt16 := cs.flatMap fun c => pointUnits c.toNat

/-- All characters are ASCII. -/
def isAsciiText (cs : List Char) : Bool := cs.all (·.toNat < 0x80)

/-- The number of code units of Unicode text: where all characters are ASCII, of its bytes. -/
def unitCount (cs : List Char) : Nat :=
  if isAsciiText cs then (bytes cs).length else (charUnits cs).length

section Cuts

variable {cs ps : List Char} {c : Char} {n : Nat}

/-- A text is as long in bytes as its first character and the rest of it. -/
theorem length_bytes_cons (c : Char) (cs : List Char) :
    (bytes (c :: cs)).length = c.utf8Size + (bytes cs).length := by
  rw [bytes_cons, List.length_append, String.length_utf8EncodeChar]

/-- A character that fits in front is kept, and the count goes on behind it. -/
theorem keepBytes?_cons (h : c.utf8Size ≤ n) (cs : List Char) :
    keepBytes? n (c :: cs) = (keepBytes? (n - c.utf8Size) cs).map (c :: ·) := by
  have hpos := c.utf8Size_pos
  obtain ⟨n, rfl⟩ := Nat.exists_eq_succ_of_ne_zero (by omega : n ≠ 0)
  rw [keepBytes?, if_pos h]

/-- A character that fits in front is skipped, and the count goes on behind it. -/
theorem skipBytes?_cons (h : c.utf8Size ≤ n) (cs : List Char) :
    skipBytes? n (c :: cs) = skipBytes? (n - c.utf8Size) cs := by
  have hpos := c.utf8Size_pos
  obtain ⟨n, rfl⟩ := Nat.exists_eq_succ_of_ne_zero (by omega : n ≠ 0)
  rw [skipBytes?, if_pos h]

/-- Text can be cut behind any of its characters. -/
theorem keepBytes?_append (front rest : List Char) :
    keepBytes? (bytes front).length (front ++ rest) = some front := by
  induction front with
  | nil => cases rest <;> rfl
  | cons c front ih =>
    rw [length_bytes_cons, List.cons_append, keepBytes?_cons (Nat.le_add_right ..),
      Nat.add_sub_cancel_left, ih, Option.map_some]

/-- Skipping the bytes of a front leaves what is behind it. -/
theorem skipBytes?_append (front rest : List Char) :
    skipBytes? (bytes front).length (front ++ rest) = some rest := by
  induction front with
  | nil => cases rest <;> rfl
  | cons c front ih =>
    rw [length_bytes_cons, List.cons_append, skipBytes?_cons (Nat.le_add_right ..),
      Nat.add_sub_cancel_left, ih]

/-- What is kept are the first characters, and they have so many bytes. -/
theorem keepBytes?_eq_some (h : keepBytes? n cs = some ps) :
    ∃ rest, cs = ps ++ rest ∧ (bytes ps).length = n := by
  induction cs generalizing n ps with
  | nil =>
    cases n with
    | zero => cases h; exact ⟨[], rfl, rfl⟩
    | succ n => cases h
  | cons c cs ih =>
    -- A character is kept whole or not at all, and a cut inside one gives nothing.
    by_cases hsize : c.utf8Size ≤ n
    · rw [keepBytes?_cons hsize, Option.map_eq_some_iff] at h
      obtain ⟨ps, hps, rfl⟩ := h
      obtain ⟨rest, rfl, hlength⟩ := ih hps
      refine ⟨rest, rfl, ?_⟩
      rw [length_bytes_cons, hlength]
      omega
    · cases n with
      | zero => cases h; exact ⟨_, rfl, rfl⟩
      | succ n =>
        rw [keepBytes?, if_neg hsize] at h
        cases h

end Cuts

section Ascii

variable {cs : List Char} {c : Char} {n : Nat}

/-- A character below 0x80 takes one byte. -/
theorem utf8Size_ascii (h : c.toNat < 0x80) : c.utf8Size = 1 := by
  rw [Char.utf8Size_eq_one_iff, UInt32.le_iff_toNat_le]
  exact Nat.le_of_lt_succ h

/-- The byte of a character below 0x80 is its code. -/
theorem utf8EncodeChar_ascii (h : c.toNat < 0x80) :
    String.utf8EncodeChar c = [UInt8.ofNat c.toNat] :=
  String.utf8EncodeChar_eq_singleton (utf8Size_ascii h)

/-- Text below 0x80 has one byte for each character. -/
theorem bytes_ascii (h : ∀ c ∈ cs, c.toNat < 0x80) :
    bytes cs = cs.map fun c => UInt8.ofNat c.toNat := by
  induction cs with
  | nil => rfl
  | cons c cs ih =>
    obtain ⟨hc, hcs⟩ := List.forall_mem_cons.mp h
    rw [bytes_cons, utf8EncodeChar_ascii hc, ih hcs]
    rfl

/-- Text below 0x80 has one code unit for each character. -/
theorem charUnits_ascii (h : ∀ c ∈ cs, c.toNat < 0x80) :
    charUnits cs = cs.map fun c => c.toNat.toUInt16 := by
  induction cs with
  | nil => rfl
  | cons c cs ih =>
    obtain ⟨hc, hcs⟩ := List.forall_mem_cons.mp h
    rw [charUnits, List.flatMap_cons, pointUnits_of_lt (by omega)]
    exact congrArg _ (ih hcs)

/-- In ASCII text the units are the bytes. -/
theorem charUnits_eq_map_bytes (h : ∀ c ∈ cs, c.toNat < 0x80) :
    charUnits cs = (bytes cs).map UInt8.toUInt16 := by
  rw [charUnits_ascii h, bytes_ascii h, List.map_map]
  refine List.map_congr_left fun c hc => ?_
  have hlt := h c hc
  refine UInt16.toNat_inj.mp ?_
  rw [toNat_toUInt16 (by omega), Function.comp_apply, UInt8.toNat_toUInt16,
    UInt8.toNat_ofNat_of_lt' (by unfold UInt8.size; omega)]

/-- Bytes that are equal as code units are equal. -/
theorem toUInt16_injective : Function.Injective UInt8.toUInt16 :=
  fun _ _ h => UInt8.toUInt16_inj.mp h

/-- Bytes are in the same order as code units. -/
theorem compare_toUInt16 (x y : UInt8) : compare x.toUInt16 y.toUInt16 = compare x y := by
  change compareOfLessAndEq _ _ = compareOfLessAndEq _ _
  simp only [compareOfLessAndEq, UInt8.toUInt16_lt, UInt8.toUInt16_inj]

/-- In text below 0x80 every byte offset is between characters. -/
theorem skipBytes?_ascii (h : ∀ c ∈ cs, c.toNat < 0x80) (hn : n ≤ cs.length) :
    skipBytes? n cs = some (cs.drop n) := by
  have hfront : ∀ c ∈ cs.take n, c.toNat < 0x80 := fun c hc => h c (List.mem_of_mem_take hc)
  have hskip := skipBytes?_append (cs.take n) (cs.drop n)
  rwa [List.take_append_drop, bytes_ascii hfront, List.length_map, List.length_take_of_le hn] at hskip

/-- In text below 0x80 every number of bytes is one of characters. -/
theorem keepBytes?_ascii (h : ∀ c ∈ cs, c.toNat < 0x80) (hn : n ≤ cs.length) :
    keepBytes? n cs = some (cs.take n) := by
  have hfront : ∀ c ∈ cs.take n, c.toNat < 0x80 := fun c hc => h c (List.mem_of_mem_take hc)
  have hkeep := keepBytes?_append (cs.take n) (cs.drop n)
  rwa [List.take_append_drop, bytes_ascii hfront, List.length_map, List.length_take_of_le hn] at hkeep

/-- The length is right on both ways of counting. -/
theorem unitCount_eq (cs : List Char) : unitCount cs = (charUnits cs).length := by
  rw [unitCount]
  split
  next hascii =>
    have h : ∀ c ∈ cs, c.toNat < 0x80 := fun c hc =>
      of_decide_eq_true (List.all_eq_true.mp hascii c hc)
    rw [charUnits_eq_map_bytes h, List.length_map]
  next => rfl

end Ascii

section Searching

variable {α β : Type} {needle xs : List α} {start i : Nat}

/-- The search finds the first place. -/
theorem placeFrom?_eq_some [DecidableEq α] :
    placeFrom? xs needle start = some i ↔ StandsFirstAt needle xs start i := by
  rw [placeFrom?]
  split
  next hroom =>
    refine iff_of_false (Option.some_ne_none i).symm ?_
    rintro ⟨hstart, ⟨hfits, -⟩, -⟩
    omega
  next hroom =>
    rw [show xs.length - needle.length + 1 - start = xs.length + 1 - needle.length - start by omega]
    refine find?_standsFirst fun i _ => ?_
    rw [decide_eq_true_eq, List.prefix_iff_eq_take]
    exact eq_comm

/-- What stands behind an offset stands there in the whole list. -/
theorem standsAt_drop (h : start ≤ xs.length) :
    StandsAt needle (xs.drop start) i ↔ StandsAt needle xs (i + start) := by
  rw [StandsAt, StandsAt, List.length_drop, List.drop_drop, Nat.add_comm start i]
  refine and_congr_left fun _ => ?_
  omega

/-- A search from a place on is a search at the front of what is left there. -/
theorem standsFirstAt_drop (h : start ≤ xs.length) :
    StandsFirstAt needle (xs.drop start) 0 i ↔ StandsFirstAt needle xs start (i + start) := by
  rw [StandsFirstAt, StandsFirstAt, standsAt_drop h]
  constructor
  · rintro ⟨-, hi, hfirst⟩
    refine ⟨Nat.le_add_left start i, hi, fun j hj hlt hstands => ?_⟩
    refine hfirst (j - start) (Nat.zero_le _) (by omega) ((standsAt_drop h).mpr ?_)
    rwa [Nat.sub_add_cancel hj]
  · rintro ⟨-, hi, hfirst⟩
    refine ⟨Nat.zero_le i, hi, fun j _ hlt hstands => ?_⟩
    exact hfirst (j + start) (Nat.le_add_left start j) (by omega) ((standsAt_drop h).mp hstands)

/-- An occurrence is one in the images as well, under a map that tells elements apart. -/
theorem standsAt_map {f : α → β} (hf : Function.Injective f) :
    StandsAt (needle.map f) (xs.map f) i ↔ StandsAt needle xs i := by
  rw [StandsAt, StandsAt, List.length_map, List.length_map, ← List.map_drop,
    List.prefix_map_iff_of_injective hf]

/-- The first occurrence is the first one in the images as well. -/
theorem standsFirstAt_map {f : α → β} (hf : Function.Injective f) :
    StandsFirstAt (needle.map f) (xs.map f) start i ↔ StandsFirstAt needle xs start i := by
  simp only [StandsFirstAt, standsAt_map hf]

/-- Sequences compare as their images do under a map that keeps the order. -/
theorem compare_map {f : α → β} [Ord α] [Ord β] (hf : ∀ x y, compare (f x) (f y) = compare x y)
    (xs ys : List α) : compare (xs.map f) (ys.map f) = compare xs ys := by
  induction xs generalizing ys with
  | nil =>
    cases ys with
    | nil => exact List.compareLex_nil_nil.trans List.compareLex_nil_nil.symm
    | cons y ys => exact List.compareLex_nil_cons.trans List.compareLex_nil_cons.symm
  | cons x xs ih =>
    cases ys with
    | nil => exact List.compareLex_cons_nil.trans List.compareLex_cons_nil.symm
    | cons y ys =>
      have hcons {γ : Type} [Ord γ] (a b : γ) (as bs : List γ) :
          compare (a :: as) (b :: bs) = (compare a b).then (compare as bs) :=
        List.compareLex_cons_cons
      rw [List.map_cons, List.map_cons, hcons, hcons, hf, ih]

end Searching

/-! ### Buffers -/

/-- The number of bytes of a code point. -/
def pointSize (p : Nat) : Nat :=
  if p < 0x80 then 1 else if p < 0x800 then 2 else if p < 0x10000 then 3 else 4

section Sizes

variable {p : Nat} {ps : List Nat}

/-- A code point has one code unit in the first plane and two behind it. -/
theorem length_pointUnits (p : Nat) : (pointUnits p).length = if p < 0x10000 then 1 else 2 := by
  unfold pointUnits
  split <;> rfl

/-- A point has at least as many bytes as units. -/
theorem length_pointUnits_le (p : Nat) : (pointUnits p).length ≤ pointSize p := by
  rw [length_pointUnits, pointSize]
  split_ifs <;> omega

/-- From 0x80 on, a code point has fewer code units than bytes. -/
theorem length_pointUnits_lt (hp : 0x80 ≤ p) : (pointUnits p).length < pointSize p := by
  rw [length_pointUnits, pointSize]
  split_ifs <;> omega

/-- A text has no more code units than bytes. -/
theorem length_flatMap_pointUnits_le (ps : List Nat) :
    (ps.flatMap pointUnits).length ≤ (ps.map pointSize).sum := by
  induction ps with
  | nil => exact le_rfl
  | cons p ps ih =>
    rw [List.flatMap_cons, List.length_append, List.map_cons, List.sum_cons]
    exact Nat.add_le_add (length_pointUnits_le p) ih

/-- Only ASCII has a byte for each unit. -/
theorem lt_of_sum_pointSize_eq (h : (ps.map pointSize).sum = (ps.flatMap pointUnits).length) :
    ∀ p ∈ ps, p < 0x80 := by
  induction ps with
  | nil => exact fun p hp => nomatch hp
  | cons p ps ih =>
    rw [List.flatMap_cons, List.length_append, List.map_cons, List.sum_cons] at h
    have hfirst := length_pointUnits_le p
    have hrest := length_flatMap_pointUnits_le ps
    refine List.forall_mem_cons.mpr ⟨?_, ih (by omega)⟩
    by_contra hp
    have := length_pointUnits_lt (Nat.le_of_not_lt hp)
    omega

end Sizes

section Characters

variable {p : Nat} {ps : List Nat}

/-- No character is a surrogate. -/
theorem isSurrogatePoint_char (c : Char) : Text.isSurrogatePoint c.toNat = false := by
  have hvalid : c.toNat.isValidChar := c.valid
  rw [Bool.eq_false_iff, ne_eq, isSurrogatePoint_iff]
  omega

/-- A code point that is no surrogate is that of a character. -/
theorem toNat_ofNat (hp : p < 0x110000) (h : Text.isSurrogatePoint p = false) :
    (Char.ofNat p).toNat = p := by
  rw [Bool.eq_false_iff, ne_eq, isSurrogatePoint_iff] at h
  have hvalid : p.isValidChar := by
    unfold Nat.isValidChar
    omega
  rw [Char.ofNat, dif_pos hvalid]
  rfl

/-- Points without a surrogate are those of characters. -/
theorem map_toNat_ofNat (hps : ∀ p ∈ ps, p < 0x110000)
    (h : ¬∃ p ∈ ps, Text.isSurrogatePoint p = true) : (ps.map Char.ofNat).map Char.toNat = ps := by
  rw [List.map_map]
  refine (List.map_congr_left fun p hp => ?_).trans (List.map_id ps)
  exact toNat_ofNat (hps p hp) (Bool.eq_false_iff.mpr fun hsurrogate => h ⟨p, hp, hsurrogate⟩)

/-- Points are characters unless one is a surrogate. -/
theorem exists_chars_iff (hps : ∀ p ∈ ps, p < 0x110000) :
    (∃ cs : List Char, ps = cs.map Char.toNat) ↔ ¬∃ p ∈ ps, Text.isSurrogatePoint p = true := by
  constructor
  · rintro ⟨cs, rfl⟩ ⟨p, hp, hsurrogate⟩
    obtain ⟨c, -, rfl⟩ := List.mem_map.mp hp
    rw [isSurrogatePoint_char] at hsurrogate
    exact Bool.false_ne_true hsurrogate
  · exact fun h => ⟨ps.map Char.ofNat, (map_toNat_ofNat hps h).symm⟩

end Characters

/-- A library of buffers of encoded code points, lone surrogates among them, and what it says of
them. -/
structure Wtf8 where
  /-- The buffers. -/
  Buffer : Type
  /-- The code points in a buffer. -/
  points : Buffer → List Nat
  /-- The code units of its contents. -/
  units : Buffer → List UInt16
  /-- The number of bytes. -/
  size : Buffer → Nat
  /-- The contents, if they are Unicode text. -/
  text? : Buffer → Option (List Char)
  /-- The contents with U+FFFD for each lone surrogate. -/
  lossy : Buffer → List Char
  /-- The buffer without contents. -/
  empty : Buffer
  /-- The buffer that holds Unicode text. -/
  ofChars : List Char → Buffer
  /-- Puts a code point behind the contents. -/
  push : Buffer → Nat → Buffer
  /-- Puts a character behind the contents. -/
  pushChar : Buffer → Char → Buffer
  /-- Puts the contents of the second buffer behind those of the first. -/
  append : Buffer → Buffer → Buffer
  /-- Whether two buffers hold the same bytes. -/
  beq : Buffer → Buffer → Bool
  points_lt : ∀ b, ∀ p ∈ points b, p < 0x110000
  /-- No pair is stored as two code points. -/
  isJoined : ∀ b, IsJoined (points b)
  units_eq : ∀ b, units b = (points b).flatMap pointUnits
  size_eq : ∀ b, size b = ((points b).map pointSize).sum
  text?_eq_some : ∀ b cs, text? b = some cs ↔ points b = cs.map Char.toNat
  points_empty : points empty = []
  points_ofChars : ∀ cs, points (ofChars cs) = cs.map Char.toNat
  /-- The second half of a pair is joined to the first. -/
  points_push : ∀ b p, p < 0x110000 → points (push b p) = joinPoint (points b) p
  points_pushChar : ∀ b c, points (pushChar b c) = points b ++ [c.toNat]
  points_append : ∀ b c, points (append b c) = (points c).foldl joinPoint (points b)
  beq_iff : ∀ b c, beq b c = true ↔ points b = points c

namespace Wtf8

variable {W : Wtf8} {b c : W.Buffer} {p : Nat}

/-- The points of a buffer are those of its units. -/
theorem pointsOf_units (b : W.Buffer) : pointsOf (W.units b) = W.points b := by
  rw [W.units_eq, pointsOf_flatMap (W.points_lt b) (W.isJoined b)]

/-- Buffers of the same code units have the same points. -/
theorem units_inj : W.units b = W.units c ↔ W.points b = W.points c := by
  constructor
  · intro h
    rw [← pointsOf_units b, h, pointsOf_units c]
  · intro h
    rw [W.units_eq, W.units_eq, h]

@[simp] theorem units_empty : W.units W.empty = [] := by
  rw [W.units_eq, W.points_empty]
  rfl

/-- A buffer of characters has their code units. -/
theorem units_ofChars (cs : List Char) : W.units (W.ofChars cs) = charUnits cs := by
  rw [W.units_eq, W.points_ofChars, List.flatMap_map]
  rfl

/-- A point that is pushed comes behind as its code units. -/
theorem units_push (b : W.Buffer) (hp : p < 0x110000) :
    W.units (W.push b p) = W.units b ++ pointUnits p := by
  rw [W.units_eq, W.points_push b p hp, flatMap_joinPoint, ← W.units_eq]

/-- A character that is pushed comes behind as its code units. -/
theorem units_pushChar (b : W.Buffer) (c : Char) :
    W.units (W.pushChar b c) = W.units b ++ pointUnits c.toNat := by
  rw [W.units_eq, W.points_pushChar, List.flatMap_append, List.flatMap_singleton, ← W.units_eq]

/-- The code units of two buffers stand one behind the other. -/
theorem units_append (b c : W.Buffer) : W.units (W.append b c) = W.units b ++ W.units c := by
  have hfold (ps qs : List Nat) : (qs.foldl joinPoint ps).flatMap pointUnits =
      ps.flatMap pointUnits ++ qs.flatMap pointUnits := by
    induction qs generalizing ps with
    | nil => exact (List.append_nil _).symm
    | cons q qs ih =>
      rw [List.foldl_cons, ih, flatMap_joinPoint, List.flatMap_cons, List.append_assoc]
  rw [W.units_eq, W.units_eq, W.units_eq, W.points_append, hfold]

/-- A buffer with as many bytes as code units has points below 0x80 only. -/
theorem lt_of_size_eq (h : W.size b = (W.units b).length) : ∀ p ∈ W.points b, p < 0x80 := by
  rw [W.size_eq, W.units_eq] at h
  exact lt_of_sum_pointSize_eq h

/-- A buffer without bytes has no code units. -/
theorem units_of_size_eq_zero (h : W.size b = 0) : W.units b = [] := by
  have hle := length_flatMap_pointUnits_le (W.points b)
  rw [← W.size_eq, ← W.units_eq, h] at hle
  exact List.eq_nil_of_length_eq_zero (Nat.le_zero.mp hle)

/-- The contents are Unicode text if all surrogates are paired. -/
theorem text?_isSome_iff : (W.text? b).isSome = true ↔ ∀ i, ¬LoneAt (W.units b) i := by
  rw [← not_exists, exists_loneAt_iff, pointsOf_units, ← exists_chars_iff (W.points_lt b),
    Option.isSome_iff_exists]
  exact exists_congr (W.text?_eq_some b)

/-- A buffer that is text has the code units of its characters. -/
theorem charUnits_of_text? {cs : List Char} (h : W.text? b = some cs) :
    W.units b = charUnits cs := by
  rw [W.units_eq, (W.text?_eq_some b cs).mp h, List.flatMap_map]
  rfl

end Wtf8

/-! ### Buffers of units -/

section Plain

variable {us : List UInt16} {p : Nat}

/-- A character does not stand for the second half of a pair. -/
theorem isTrail_char (c : Char) : isTrail c.toNat = false := by
  have hchar := isSurrogatePoint_char c
  rw [Bool.eq_false_iff, ne_eq, isSurrogatePoint_iff] at hchar
  rw [Bool.eq_false_iff, ne_eq, isTrail_iff]
  omega

/-- A character is a code point. -/
theorem toNat_char_lt (c : Char) : c.toNat < 0x110000 := by
  have hvalid : c.toNat.isValidChar := c.valid
  omega

/-- Behind any points a character is a point of its own. -/
theorem joinPoint_char (ps : List Nat) (c : Char) :
    joinPoint ps c.toNat = ps ++ [c.toNat] := by
  obtain rfl | ⟨qs, q, rfl⟩ := List.eq_nil_or_concat ps
  · rfl
  rw [List.concat_eq_append]
  refine joinPoint_concat fun hpair => ?_
  rw [isTrail_char] at hpair
  exact Bool.false_ne_true hpair.2

/-- A point behind units is joined to their points. -/
theorem pointsOf_append_pointUnits (us : List UInt16) (hp : p < 0x110000) :
    pointsOf (us ++ pointUnits p) = joinPoint (pointsOf us) p := by
  refine (eq_of_flatMap_pointUnits (joinPoint_lt (pointsOf_lt us) hp)
    (isJoined_joinPoint (isJoined_pointsOf us) p) ?_).symm
  rw [flatMap_joinPoint, flatMap_pointsOf]

/-- The points of two pieces are those of the first, joined by those of the second. -/
theorem pointsOf_append (us vs : List UInt16) :
    pointsOf (us ++ vs) = (pointsOf vs).foldl joinPoint (pointsOf us) := by
  have hfold (ps : List Nat) (hps : ∀ p ∈ ps, p < 0x110000) (us : List UInt16) :
      pointsOf (us ++ ps.flatMap pointUnits) = ps.foldl joinPoint (pointsOf us) := by
    induction ps generalizing us with
    | nil => rw [List.flatMap_nil, List.append_nil, List.foldl_nil]
    | cons p ps ih =>
      obtain ⟨hp, hps⟩ := List.forall_mem_cons.mp hps
      rw [List.flatMap_cons, ← List.append_assoc, ih hps, pointsOf_append_pointUnits us hp,
        List.foldl_cons]
  rw [← hfold _ (pointsOf_lt vs), flatMap_pointsOf]

/-- The points of a text are its characters. -/
theorem pointsOf_charUnits (cs : List Char) : pointsOf (charUnits cs) = cs.map Char.toNat := by
  have hlt : ∀ p ∈ cs.map Char.toNat, p < 0x110000 := by
    intro p hp
    obtain ⟨c, -, rfl⟩ := List.mem_map.mp hp
    exact toNat_char_lt c
  have hjoined : IsJoined (cs.map Char.toNat) := by
    refine (List.isChain_map Char.toNat).mpr (List.pairwise_of_forall fun c d hpair => ?_).isChain
    rw [isTrail_char] at hpair
    exact Bool.false_ne_true hpair.2
  rw [← pointsOf_flatMap hlt hjoined, List.flatMap_map]
  rfl

/-- A text made of a string has the code units of its characters. -/
theorem Text.units_ofString (s : String) : (Text.ofString s).units.toList = charUnits s.toList := by
  have hall : ∀ (cs : List Char) (t : Text),
      (cs.foldl (fun t c => t.pushPoint c.toNat) t).units.toList = t.units.toList ++ charUnits cs := by
    intro cs
    induction cs with
    | nil => exact fun t => (List.append_nil _).symm
    | cons c cs ih =>
      intro t
      rw [List.foldl_cons, ih, toList_pushPoint, List.append_assoc]
      rfl
  exact hall s.toList empty

/-- Unicode text is read as it was encoded. -/
theorem Text.toString_ofString (s : String) : (Text.ofString s).toString = s := by
  rw [← String.toList_inj, toList_toString, toList_codePoints, units_ofString, pointsOf_charUnits,
    List.map_map]
  refine (List.map_congr_left fun c _ => ?_).trans (List.map_id _)
  rw [Function.comp_apply, charOfPoint, isSurrogatePoint_char, if_neg Bool.false_ne_true,
    Char.ofNat_toNat, id]

/-- Unicode text with given points. -/
def charsOf? (ps : List Nat) : Option (List Char) :=
  if ps.any Text.isSurrogatePoint then none else some (ps.map Char.ofNat)

/-- Points are read as characters exactly when they are those of characters. -/
theorem charsOf?_eq_some {ps : List Nat} (hps : ∀ p ∈ ps, p < 0x110000) (cs : List Char) :
    charsOf? ps = some cs ↔ ps = cs.map Char.toNat := by
  rw [charsOf?]
  split
  next h =>
    refine iff_of_false (Option.some_ne_none cs).symm fun hcs => ?_
    exact (exists_chars_iff hps).mp ⟨cs, hcs⟩ (List.any_eq_true.mp h)
  next h =>
    rw [Option.some_inj]
    constructor
    · rintro rfl
      exact (map_toNat_ofNat hps fun hsurrogate => h (List.any_eq_true.mpr hsurrogate)).symm
    · rintro rfl
      rw [List.map_map]
      exact (List.map_congr_left fun c _ => Char.ofNat_toNat c).trans (List.map_id cs)

/-- Buffers that hold the units themselves. -/
def Wtf8.plain : Wtf8 where
  Buffer := List UInt16
  points := pointsOf
  units := id
  size us := ((pointsOf us).map pointSize).sum
  text? us := charsOf? (pointsOf us)
  lossy us := (pointsOf us).map Text.charOfPoint
  empty := []
  ofChars := charUnits
  push us p := us ++ pointUnits p
  pushChar us c := us ++ pointUnits c.toNat
  append us vs := us ++ vs
  beq us vs := us == vs
  points_lt := pointsOf_lt
  isJoined := isJoined_pointsOf
  units_eq us := (flatMap_pointsOf us).symm
  size_eq _ := rfl
  text?_eq_some us cs := charsOf?_eq_some (pointsOf_lt us) cs
  points_empty := rfl
  points_ofChars := pointsOf_charUnits
  points_push us _ hp := pointsOf_append_pointUnits us hp
  points_pushChar us c := by
    rw [pointsOf_append_pointUnits us (toNat_char_lt c), joinPoint_char]
  points_append := pointsOf_append
  beq_iff us vs := by
    rw [beq_iff_eq]
    refine ⟨congrArg pointsOf, fun h => ?_⟩
    rw [← flatMap_pointsOf us, h, flatMap_pointsOf vs]

end Plain

end Scriptlet
