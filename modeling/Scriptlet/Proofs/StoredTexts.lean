import Scriptlet.Proofs.EncodedTexts

/-!
# Texts stored byte by byte

A text can be kept in a buffer, with its length in code units and, where it has lone surrogates, a
readable form beside it.  Where the buffer has as many bytes as the text has code units, the
operations work on the bytes; otherwise they go through the units.  Either way they answer what the
same operations on the sequences of code units answer, and they never stop: wherever bytes are cut,
a character ends.

## Main definitions

* `Stored` — a text in a buffer, with what is kept beside it.
* `Stored.ops` — the operations.

## Main results

* `Stored.map_bytes` — in a text with a byte for each unit, the bytes are the units.
* `texts_are_sequences` — **texts are sequences of code units, however they are stored**.
-/

namespace Scriptlet

open Pipeline (bytes)

/-! ### Stored texts -/

/-- The length in code units that is kept beside a buffer. -/
def Wtf8.length (W : Wtf8) (b : W.Buffer) : Nat :=
  match W.text? b with
  | some cs => unitCount cs
  | none => (W.units b).length

theorem Wtf8.length_eq {W : Wtf8} (b : W.Buffer) : W.length b = (W.units b).length := by
  rw [Wtf8.length]
  split
  next cs h => rw [unitCount_eq, Wtf8.charUnits_of_text? h]
  next => rfl

/-- A text in a buffer, with what is kept beside it. -/
structure Stored (W : Wtf8) where
  /-- The contents. -/
  data : W.Buffer
  /-- The contents with U+FFFD for each lone surrogate, if there are any. -/
  lossy : Option (List Char)
  /-- The number of code units. -/
  length : Nat
  lossy_eq : lossy = if (W.text? data).isSome then none else some (W.lossy data)
  length_eq : length = (W.units data).length

namespace Stored

variable {W : Wtf8}

/-- The text in a buffer. -/
def ofBuffer (b : W.Buffer) : Stored W where
  data := b
  lossy := match W.text? b with
    | some _ => none
    | none => some (W.lossy b)
  length := W.length b
  lossy_eq := by cases W.text? b <;> rfl
  length_eq := W.length_eq b

/-- Unicode text. -/
def ofChars (cs : List Char) : Stored W where
  data := W.ofChars cs
  lossy := none
  length := unitCount cs
  lossy_eq := by rw [(W.text?_eq_some _ cs).mpr (W.points_ofChars cs)]; rfl
  length_eq := by rw [W.units_ofChars, unitCount_eq]

/-- The text with given code units. -/
def ofUnits (us : List UInt16) : Stored W :=
  ofBuffer ((pointsOf us).foldl
    (fun b p => if Text.isSurrogatePoint p then W.push b p else W.pushChar b (Char.ofNat p))
    W.empty)

section Operations

variable (s t : Stored W) (i j n : Nat)

/-- The contents as Unicode text. -/
def str : List Char :=
  match s.lossy with
  | some cs => cs
  | none => (W.text? s.data).getD []

/-- The code units. -/
def units : List UInt16 := W.units s.data

/-- Whether there is a byte for each code unit. -/
def isAscii : Bool := W.size s.data == s.length

/-- Whether all surrogates are paired. -/
def isWellFormed : Bool := s.lossy.isNone

/-- The code unit at `i`: the byte there, if there is a byte for each unit. -/
def unitAt : Option (Option UInt16) :=
  if s.length ≤ i then some none
  else if s.isAscii then (bytes s.str)[i]?.map fun x => some x.toUInt16
  else some s.units[i]?

/-- The code unit at `i` as a text. -/
def charAt : Option (Option (Stored W)) := (s.unitAt i).map (Option.map fun u => ofUnits [u])

/-- The code units from `i` up to but not including `j`. -/
def substring : Option (Stored W) :=
  let stop := min j s.length
  if stop ≤ i then some (ofChars [])
  else if i = 0 ∧ stop = s.length then some s
  else if s.isAscii then
    ((skipBytes? i s.str).bind (keepBytes? (stop - i))).map ofChars
  else some (ofUnits ((s.units.drop i).take (stop - i)))

/-- The first offset from `start` on where `needle` stands. -/
def indexOf (needle : Stored W) (start : Nat) : Option (Option Nat) :=
  if s.length < start ∨ s.length - start < needle.length then some none
  else if s.isAscii && needle.isAscii then
    (skipBytes? start s.str).map fun rest =>
      (placeFrom? (bytes rest) (bytes needle.str) 0).map (· + start)
  else some (placeFrom? s.units needle.units start)

/-- Each code point as a text. -/
def codePoints : List (Stored W) := (W.points s.data).map fun p => ofBuffer (W.push W.empty p)

/-- Concatenation. -/
def append : Stored W :=
  if W.size t.data = 0 then s
  else if W.size s.data = 0 then t
  else ofBuffer (W.append (W.append W.empty s.data) t.data)

/-- The text written `n` times. -/
def replicate : Stored W := ofBuffer ((fun b => W.append b s.data)^[n] W.empty)

/-- Order by code units, or by bytes if both texts have one for each unit. -/
def compare : Ordering :=
  if s.isAscii && t.isAscii then Ord.compare (bytes s.str) (bytes t.str)
  else Ord.compare s.units t.units

end Operations

section Units

variable {s t : Stored W} {i j n start : Nat}

theorem length_units (s : Stored W) : s.units.length = s.length := s.length_eq.symm

theorem units_ofBuffer (b : W.Buffer) : (ofBuffer b).units = W.units b := rfl

theorem units_ofChars (cs : List Char) : (ofChars cs : Stored W).units = charUnits cs :=
  W.units_ofChars cs

/-- The text with given units has them. -/
theorem units_ofUnits (us : List UInt16) : (ofUnits us : Stored W).units = us := by
  have hfold (ps : List Nat) (hps : ∀ p ∈ ps, p < 0x110000) (b : W.Buffer) :
      W.units (ps.foldl (fun b p =>
        if Text.isSurrogatePoint p then W.push b p else W.pushChar b (Char.ofNat p)) b) =
      W.units b ++ ps.flatMap pointUnits := by
    induction ps generalizing b with
    | nil => exact (List.append_nil _).symm
    | cons p ps ih =>
      obtain ⟨hp, hps⟩ := List.forall_mem_cons.mp hps
      rw [List.foldl_cons, ih hps, List.flatMap_cons, ← List.append_assoc]
      congr 1
      split
      next => exact W.units_push b hp
      next h => rw [W.units_pushChar, toNat_ofNat hp (Bool.eq_false_iff.mpr h)]
  rw [ofUnits, units_ofBuffer, hfold _ (pointsOf_lt us), W.units_empty, flatMap_pointsOf,
    List.nil_append]

/-- A text with a byte for each unit is ASCII. -/
theorem charUnits_str (h : s.isAscii = true) :
    (∀ c ∈ s.str, c.toNat < 0x80) ∧ s.units = charUnits s.str := by
  rw [isAscii, beq_iff_eq, s.length_eq] at h
  have hlt := W.lt_of_size_eq h
  -- One-byte points are below 0x80, and so none of them is a surrogate.
  have hchars : ∃ cs : List Char, W.points s.data = cs.map Char.toNat := by
    refine (exists_chars_iff (W.points_lt s.data)).mpr ?_
    rintro ⟨p, hp, hsurrogate⟩
    have := hlt p hp
    rw [isSurrogatePoint_iff] at hsurrogate
    omega
  obtain ⟨cs, hcs⟩ := hchars
  have htext := (W.text?_eq_some s.data cs).mpr hcs
  have hlossy : s.lossy = none := by
    rw [s.lossy_eq, htext]
    rfl
  have hstr : s.str = cs := by
    rw [str, hlossy, htext]
    rfl
  rw [hstr]
  refine ⟨fun c hc => ?_, W.charUnits_of_text? htext⟩
  exact hlt c.toNat (hcs ▸ List.mem_map_of_mem hc)

/-- **In a text with a byte for each unit, the bytes are the units.** -/
theorem map_bytes (h : s.isAscii = true) : (bytes s.str).map UInt8.toUInt16 = s.units := by
  obtain ⟨hascii, hunits⟩ := charUnits_str h
  rw [hunits, charUnits_eq_map_bytes hascii]

theorem length_str (h : s.isAscii = true) : s.str.length = s.length := by
  obtain ⟨hascii, hunits⟩ := charUnits_str h
  rw [← length_units, hunits, charUnits_ascii hascii, List.length_map]

theorem unitAt_eq (s : Stored W) (i : Nat) : s.unitAt i = some s.units[i]? := by
  rw [unitAt]
  split
  next hend =>
    rw [List.getElem?_eq_none (by rwa [length_units])]
  next hlt =>
    split
    next hascii =>
      rw [← length_units, ← map_bytes hascii, List.length_map] at hlt
      rw [← map_bytes hascii, List.getElem?_map, List.getElem?_eq_getElem (Nat.lt_of_not_le hlt)]
      rfl
    next => rfl

theorem charAt_eq (s : Stored W) (i : Nat) :
    ∃ r, s.charAt i = some r ∧ r.map units = s.units[i]?.map ([·]) := by
  refine ⟨_, by rw [charAt, unitAt_eq]; rfl, ?_⟩
  rw [Option.map_map]
  exact congrArg (Option.map · _) (funext fun u => units_ofUnits [u])

/-- Cut to the length of the list, the end of a piece makes no difference. -/
theorem take_min_length (us : List UInt16) (i j : Nat) :
    (us.drop i).take (min j us.length - i) = (us.take j).drop i := by
  rw [List.drop_take, List.take_eq_take_iff, List.length_drop]
  omega

/-- The piece is cut out between two characters. -/
theorem slice_ascii (h : s.isAscii = true) (hij : i ≤ j) (hj : j ≤ s.length) :
    ∃ cs, (skipBytes? i s.str).bind (keepBytes? (j - i)) = some cs ∧
      charUnits cs = (s.units.drop i).take (j - i) := by
  obtain ⟨hascii, hunits⟩ := charUnits_str h
  rw [← length_str h] at hj
  have hrest : ∀ c ∈ s.str.drop i, c.toNat < 0x80 := fun c hc => hascii c (List.mem_of_mem_drop hc)
  refine ⟨(s.str.drop i).take (j - i), ?_, ?_⟩
  · rw [skipBytes?_ascii hascii (by omega), Option.bind_some,
      keepBytes?_ascii hrest (by rw [List.length_drop]; omega)]
  · rw [hunits, charUnits_ascii hascii, ← List.map_drop, ← List.map_take]
    exact charUnits_ascii fun c hc => hrest c (List.mem_of_mem_take hc)

theorem substring_eq (s : Stored W) (i j : Nat) :
    ∃ t, s.substring i j = some t ∧ t.units = (s.units.take j).drop i := by
  have hpiece := take_min_length s.units i j
  rw [length_units] at hpiece
  rw [substring]
  split
  next hempty =>
    refine ⟨_, rfl, ?_⟩
    rw [units_ofChars, ← hpiece, Nat.sub_eq_zero_of_le hempty, List.take_zero]
    rfl
  next hlt =>
    split
    next hwhole =>
      refine ⟨s, rfl, ?_⟩
      rw [← hpiece, hwhole.1, hwhole.2, List.drop_zero, Nat.sub_zero, ← length_units,
        List.take_length]
    next =>
      split
      next hascii =>
        obtain ⟨cs, hcs, hunits⟩ :=
          slice_ascii hascii (Nat.le_of_not_le hlt) (Nat.min_le_right j s.length)
        refine ⟨ofChars cs, by rw [hcs]; rfl, ?_⟩
        rw [units_ofChars, hunits, hpiece]
      next => exact ⟨_, rfl, by rw [units_ofUnits, hpiece]⟩

/-- The search through the bytes finds the place among the units. -/
theorem indexOf_ascii (hs : s.isAscii = true) (ht : t.isAscii = true) (hstart : start ≤ s.length) :
    ∃ rest, skipBytes? start s.str = some rest ∧
      ∀ i, (placeFrom? (bytes rest) (bytes t.str) 0).map (· + start) = some i ↔
        StandsFirstAt t.units s.units start i := by
  have hascii := (charUnits_str hs).1
  rw [← length_str hs] at hstart
  have hlength : start ≤ (bytes s.str).length := by rwa [bytes_ascii hascii, List.length_map]
  -- Among characters of one byte each, byte offsets are unit offsets.
  have hrest : bytes (s.str.drop start) = (bytes s.str).drop start := by
    rw [bytes_ascii hascii, bytes_ascii fun c hc => hascii c (List.mem_of_mem_drop hc),
      List.map_drop]
  refine ⟨s.str.drop start, skipBytes?_ascii hascii hstart, fun i => ?_⟩
  rw [hrest, ← map_bytes hs, ← map_bytes ht, standsFirstAt_map toUInt16_injective,
    Option.map_eq_some_iff]
  constructor
  · rintro ⟨k, hk, rfl⟩
    exact (standsFirstAt_drop hlength).mp (placeFrom?_eq_some.mp hk)
  · intro hi
    have hsum := Nat.sub_add_cancel hi.1
    refine ⟨i - start, placeFrom?_eq_some.mpr ((standsFirstAt_drop hlength).mpr ?_), hsum⟩
    rwa [hsum]

theorem indexOf_eq (s t : Stored W) (start : Nat) :
    ∃ r, s.indexOf t start = some r ∧ ∀ i, r = some i ↔ StandsFirstAt t.units s.units start i := by
  rw [indexOf]
  split
  next hroom =>
    refine ⟨none, rfl, fun i => iff_of_false (Option.some_ne_none i).symm ?_⟩
    rintro ⟨hstart, ⟨hfits, -⟩, -⟩
    rw [length_units, length_units] at hfits
    omega
  next hroom =>
    -- Texts of one-byte characters are searched by bytes, others by units.
    split
    next hascii =>
      rw [Bool.and_eq_true] at hascii
      have hstart : start ≤ s.length := by omega
      obtain ⟨rest, hrest, hplace⟩ := indexOf_ascii hascii.1 hascii.2 hstart
      exact ⟨_, by rw [hrest]; rfl, hplace⟩
    next => exact ⟨_, rfl, fun i => placeFrom?_eq_some⟩

theorem append_eq (s t : Stored W) : (s.append t).units = s.units ++ t.units := by
  rw [append]
  split
  next h => rw [units, units, W.units_of_size_eq_zero h, List.append_nil]
  next =>
    split
    next h => rw [units, units, W.units_of_size_eq_zero h, List.nil_append]
    next => rw [units_ofBuffer, W.units_append, W.units_append, W.units_empty, List.nil_append]; rfl

theorem replicate_eq (s : Stored W) (n : Nat) :
    (s.replicate n).units = (List.replicate n s.units).flatten := by
  rw [replicate, units_ofBuffer]
  induction n with
  | zero => exact W.units_empty
  | succ n ih =>
    rw [Function.iterate_succ_apply', W.units_append, ih, List.replicate_succ',
      List.flatten_append, List.flatten_singleton]
    rfl

theorem compare_eq (s t : Stored W) : s.compare t = Ord.compare s.units t.units := by
  rw [compare]
  split
  next h =>
    rw [Bool.and_eq_true] at h
    rw [← map_bytes h.1, ← map_bytes h.2, compare_map compare_toUInt16]
  next => rfl

theorem isWellFormed_iff (s : Stored W) :
    s.isWellFormed = true ↔ ∀ i, ¬LoneAt s.units i := by
  rw [units, ← W.text?_isSome_iff, isWellFormed, s.lossy_eq]
  cases W.text? s.data <;> exact Iff.rfl

end Units

/-- What stored texts can do. -/
def ops (W : Wtf8) : TextOps (Stored W) where
  units := units
  ofUnits := ofUnits
  length := length
  unitAt := unitAt
  charAt := charAt
  substring := substring
  indexOf := indexOf
  append := append
  replicate := replicate
  beq s t := W.beq s.data t.data
  compare := compare
  codePoints := codePoints
  isWellFormed := isWellFormed

theorem beq_iff (s t : Stored W) : (ops W).beq s t = true ↔ s.units = t.units :=
  (W.beq_iff s.data t.data).trans W.units_inj.symm

theorem ops_showsPoints (s : Stored W) : (ops W).ShowsPoints s := by
  change ((W.points s.data).map fun p => ofBuffer (W.push W.empty p)).map units = _
  rw [List.map_map, show pointsOf ((ops W).units s) = W.points s.data from W.pointsOf_units s.data]
  refine List.map_congr_left fun p hp => ?_
  rw [Function.comp_apply, units_ofBuffer, W.units_push _ (W.points_lt s.data p hp), W.units_empty,
    List.nil_append]

/-- Stored texts are sequences of code units. -/
theorem areSequences (W : Wtf8) : (ops W).AreSequences where
  units_ofUnits := units_ofUnits
  ofUnits_units s := (beq_iff _ s).mpr (units_ofUnits s.units)
  length_eq s := s.length_eq
  unitAt_eq := unitAt_eq
  charAt_eq := charAt_eq
  substring_eq := substring_eq
  indexOf_eq := indexOf_eq
  append_eq := append_eq
  replicate_eq := replicate_eq
  beq_iff := beq_iff
  compare_eq := compare_eq
  codePoints_append s :=
    (beq_iff _ s).mpr ((ops_showsPoints s).append append_eq (units_ofUnits []))
  codePoints_units s := (ops_showsPoints s).cases
  codePoints_whole s := (ops_showsPoints s).whole
  isWellFormed_iff := isWellFormed_iff

end Stored

/-- **Texts are sequences of code units, however they are stored.** -/
theorem texts_are_sequences :
    Text.ops.AreSequences ∧ ∀ W : Wtf8, (Stored.ops W).AreSequences :=
  ⟨Text.areSequences, Stored.areSequences⟩

/-- Two halves that are put together are the pair. -/
theorem texts_are_sequences_halves :
    ∃ high low : Stored Wtf8.plain,
      (Stored.ops Wtf8.plain).units high = [0xD83D] ∧
      (Stored.ops Wtf8.plain).units low = [0xDE00] ∧
      (Stored.ops Wtf8.plain).isWellFormed high = false ∧
      (Stored.ops Wtf8.plain).units ((Stored.ops Wtf8.plain).append high low) = [0xD83D, 0xDE00] ∧
      (Stored.ops Wtf8.plain).isWellFormed ((Stored.ops Wtf8.plain).append high low) = true := by
  have h := texts_are_sequences.2 Wtf8.plain
  have hhigh := h.units_ofUnits [0xD83D]
  have hlow := h.units_ofUnits [0xDE00]
  have hpair := (h.append_eq _ _).trans (congrArg₂ (· ++ ·) hhigh hlow)
  refine ⟨_, _, hhigh, hlow, ?_, hpair, ?_⟩
  · rw [Bool.eq_false_iff, ne_eq, h.isWellFormed_iff, hhigh]
    exact fun hnone => hnone 0 (loneAt_zero.mpr (.inl ⟨by decide, by rintro v ⟨⟩⟩))
  · rw [h.isWellFormed_iff, hpair, ← not_exists]
    exact mt (exists_loneAt_iff _).mp (by decide)

end Scriptlet
