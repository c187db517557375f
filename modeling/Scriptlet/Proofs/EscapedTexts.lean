import Scriptlet.Proofs.StoredTexts

/-!
# Spellings with escaped surrogates

Unicode text has no lone surrogates.  A text that has some is handed on as a spelling in which each of
them is U+FFFD with four hexadecimal digits behind it, and so is U+FFFD itself.  Digits that belong to
the text may follow an escape, and so may other escapes: an escape is always as long as it is.

A spelling is read from one U+FFFD to the next, and cut at offsets in bytes.  A cut is never between the
bytes of a character, whatever the spelling: where four bytes are read as a number they are four
characters.

## Main definitions

* `spelling` — code units as they are spelled.
* `Wtf8.pass?`, `Wtf8.passes?` — reading a spelling into a buffer, from one U+FFFD to the next.

## Main results

* `decoded_spelling` — what is spelled is read.
* `Wtf8.passes?_done` — **reading comes to an end and never stops at a cut**, for every spelling.
* `ofLiteral_spelling` — **texts are read from their spellings**.
-/

namespace Scriptlet

open Pipeline (bytes)
open Text (hexDigit? hexQuad? decodeEscaped)

/-! ### Spellings -/

/-- Four hexadecimal digits, with small letters. -/
def fourHexDigits (p : Nat) : List Char :=
  [p / 4096 % 16, p / 256 % 16, p / 16 % 16, p % 16].map Nat.digitChar

/-- The spelling of a code point: lone surrogates and U+FFFD are escaped. -/
def pointSpelling (p : Nat) : List Char :=
  if Text.isSurrogatePoint p || p == 0xFFFD then '\uFFFD' :: fourHexDigits p else [Char.ofNat p]

/-- The spelling of code units, pairs of surrogates as the characters that they are. -/
def spelling (us : List UInt16) : List Char := (pointsOf us).flatMap pointSpelling

/-- The code units that are read from a spelling. -/
def decoded (cs : List Char) : List UInt16 := (decodeEscaped .empty cs).units.toList

/-- The number that is escaped by the characters behind U+FFFD, with what follows, if they escape
one. -/
def escape? : List Char → Option (Nat × List Char)
  | a :: b :: c :: d :: rest => (hexQuad? a b c d).map (·, rest)
  | _ => none

section Decoding

variable {c : Char} {cs front rest : List Char} {acc : Text} {p : Nat}

/-- U+FFFD begins an escape or stands for itself. -/
theorem decodeEscaped_replacement (acc : Text) (cs : List Char) :
    decodeEscaped acc ('\uFFFD' :: cs) =
      match escape? cs with
      | some (p, rest) => decodeEscaped (acc.pushPoint p) rest
      | none => decodeEscaped (acc.pushPoint 0xFFFD) cs := by
  match cs with
  | [] | [_] | [_, _] | [_, _, _] => rfl
  | a :: b :: c :: d :: rest =>
    rw [decodeEscaped, escape?]
    cases hexQuad? a b c d <;> rfl

/-- Any other character stands for itself. -/
theorem decodeEscaped_cons (hc : c ≠ '\uFFFD') (acc : Text) (cs : List Char) :
    decodeEscaped acc (c :: cs) = decodeEscaped (acc.pushPoint c.toNat) cs := by
  rw [decodeEscaped]
  exact fun _ _ _ _ _ h _ => hc h

theorem escape?_eq_some : escape? cs = some (p, rest) ↔
    ∃ a b c d, cs = a :: b :: c :: d :: rest ∧ hexQuad? a b c d = some p := by
  constructor
  · intro h
    match cs with
    | a :: b :: c :: d :: rest =>
      rw [escape?, Option.map_eq_some_iff] at h
      obtain ⟨p, hp, hpair⟩ := h
      cases hpair
      exact ⟨a, b, c, d, rfl, hp⟩
  · rintro ⟨a, b, c, d, rfl, hp⟩
    rw [escape?, hp, Option.map_some]

/-- What has been read makes no difference to what is read next. -/
theorem decodeEscaped_behind {acc' : Text} {us : List UInt16}
    (h : acc'.units.toList = us ++ acc.units.toList) :
    (decodeEscaped acc' cs).units.toList = us ++ (decodeEscaped acc cs).units.toList := by
  have hpush (acc acc' : Text) (h : acc'.units.toList = us ++ acc.units.toList) (p : Nat) :
      (acc'.pushPoint p).units.toList = us ++ (acc.pushPoint p).units.toList := by
    rw [Text.toList_pushPoint, Text.toList_pushPoint, h, List.append_assoc]
  -- Both readers take the same steps, and each puts the same behind what it has.
  induction acc, cs using Text.decodeEscaped.induct generalizing acc' with
  | case1 acc => exact h
  | case2 acc a b c d rest p hp ih =>
    have hescape : escape? (a :: b :: c :: d :: rest) = some (p, rest) := by
      rw [escape?, hp, Option.map_some]
    rw [decodeEscaped_replacement, decodeEscaped_replacement, hescape]
    exact ih (hpush acc acc' h p)
  | case3 acc a b c d rest hnone ih =>
    have hescape : escape? (a :: b :: c :: d :: rest) = none := by
      rw [escape?, hnone, Option.map_none]
    rw [decodeEscaped_replacement, decodeEscaped_replacement, hescape]
    exact ih (hpush acc acc' h 0xFFFD)
  | case4 acc c rest hshort ih =>
    rw [decodeEscaped, decodeEscaped]
    · exact ih (hpush acc acc' h c.toNat)
    all_goals exact hshort

/-- What is read is put behind what has been read. -/
theorem toList_decodeEscaped (acc : Text) (cs : List Char) :
    (decodeEscaped acc cs).units.toList = acc.units.toList ++ decoded cs :=
  decodeEscaped_behind (List.append_nil _).symm

theorem decoded_nil : decoded [] = [] := rfl

theorem decoded_cons (hc : c ≠ '\uFFFD') (cs : List Char) :
    decoded (c :: cs) = pointUnits c.toNat ++ decoded cs := by
  rw [decoded, decodeEscaped_cons hc, toList_decodeEscaped, Text.toList_pushPoint]
  rfl

theorem decoded_escape (h : escape? cs = some (p, rest)) :
    decoded ('\uFFFD' :: cs) = pointUnits p ++ decoded rest := by
  rw [decoded, decodeEscaped_replacement, h, toList_decodeEscaped, Text.toList_pushPoint]
  rfl

theorem decoded_replacement (h : escape? cs = none) :
    decoded ('\uFFFD' :: cs) = pointUnits 0xFFFD ++ decoded cs := by
  rw [decoded, decodeEscaped_replacement, h, toList_decodeEscaped, Text.toList_pushPoint]
  rfl

/-- In front of the first U+FFFD all characters stand for themselves. -/
theorem decoded_front (h : '\uFFFD' ∉ front) (cs : List Char) :
    decoded (front ++ cs) = charUnits front ++ decoded cs := by
  induction front with
  | nil => rfl
  | cons c front ih =>
    rw [List.mem_cons, not_or] at h
    rw [List.cons_append, decoded_cons (Ne.symm h.1), ih h.2, ← List.append_assoc]
    rfl

/-- Digits are read as what they are, and none of them is a plus sign. -/
theorem hexDigit?_digitChar : ∀ d < 16,
    hexDigit? (Nat.digitChar d) = some d ∧ Nat.digitChar d ≠ '+' := by decide

theorem escape?_fourHexDigits (hp : p < 0x10000) (rest : List Char) :
    escape? (fourHexDigits p ++ rest) = some (p, rest) := by
  have hdigit (n : Nat) := hexDigit?_digitChar (n % 16) (Nat.mod_lt n (by decide))
  refine escape?_eq_some.mpr ⟨_, _, _, _, rfl, ?_⟩
  rw [hexQuad?, if_neg (hdigit _).2, (hdigit _).1, (hdigit _).1, (hdigit _).1, (hdigit _).1]
  refine congrArg some ?_
  omega

theorem decoded_pointSpelling (hp : p < 0x110000) (rest : List Char) :
    decoded (pointSpelling p ++ rest) = pointUnits p ++ decoded rest := by
  rw [pointSpelling]
  split
  · next hescaped =>
    rw [Bool.or_eq_true, isSurrogatePoint_iff, beq_iff_eq] at hescaped
    exact decoded_escape (escape?_fourHexDigits (by omega) rest)
  · next hplain =>
    rw [Bool.or_eq_true, not_or, beq_iff_eq, Bool.not_eq_true] at hplain
    have hvalue := toNat_ofNat hp hplain.1
    rw [List.singleton_append, decoded_cons _ rest, hvalue]
    exact fun hc => hplain.2 (hvalue.symm.trans (congrArg Char.toNat hc))

/-- What is spelled is read. -/
theorem decoded_spelling (us : List UInt16) : decoded (spelling us) = us := by
  have hall (ps : List Nat) (hps : ∀ p ∈ ps, p < 0x110000) :
      decoded (ps.flatMap pointSpelling) = ps.flatMap pointUnits := by
    induction ps with
    | nil => rfl
    | cons p ps ih =>
      obtain ⟨hp, hps⟩ := List.forall_mem_cons.mp hps
      rw [List.flatMap_cons, decoded_pointSpelling hp, ih hps, List.flatMap_cons]
  rw [spelling, hall _ (pointsOf_lt us), flatMap_pointsOf]

end Decoding

/-! ### Numbers in four bytes -/

/-- Appends a hexadecimal digit to a number of 32 bits, if it is one and there is room. -/
def appendHex? (n : Nat) (c : Char) : Option Nat :=
  (hexDigit? c).bind fun d => if n * 16 + d < 2 ^ 32 then some (n * 16 + d) else none

/-- The number of 32 bits that hexadecimal digits are the form of, a plus sign in front of them or
not. -/
def hexNumber? : List Char → Option Nat
  | [] | ['+'] => none
  | '+' :: ds => ds.foldlM appendHex? 0
  | ds => ds.foldlM appendHex? 0

/-- The code point that the first four bytes are the number of. -/
def cutPoint? (cs : List Char) : Option Nat :=
  ((keepBytes? 4 cs).bind hexNumber?).filter (· < 0x110000)

section Numbers

variable {cs rest : List Char} {a b c d : Char} {n p : Nat}

theorem hexDigit?_eq_some (h : hexDigit? c = some n) : c.toNat < 0x80 ∧ n < 16 := by
  have hle (x y : Char) : x ≤ y ↔ x.toNat ≤ y.toNat := UInt32.le_iff_toNat_le
  unfold Text.hexDigit? at h
  simp only [Bool.and_eq_true, decide_eq_true_eq, hle] at h
  have hzero : '0'.toNat = 48 ∧ '9'.toNat = 57 := ⟨rfl, rfl⟩
  have hsmall : 'a'.toNat = 97 ∧ 'f'.toNat = 102 := ⟨rfl, rfl⟩
  have hlarge : 'A'.toNat = 65 ∧ 'F'.toNat = 70 := ⟨rfl, rfl⟩
  split_ifs at h <;> cases h <;> omega

/-- Four digits are too few to be out of room. -/
theorem appendHex?_of_lt (h : n < 2 ^ 28) (c : Char) :
    appendHex? n c = (hexDigit? c).map (n * 16 + ·) := by
  rw [appendHex?]
  cases hdigit : hexDigit? c with
  | none => rfl
  | some d =>
    have hd := (hexDigit?_eq_some hdigit).2
    exact if_pos (by omega)

theorem appendHex?_ascii (h : appendHex? n c = some p) : c.toNat < 0x80 := by
  obtain ⟨d, hd, -⟩ := Option.bind_eq_some_iff.mp h
  exact (hexDigit?_eq_some hd).1

theorem foldlM_appendHex?_ascii (h : cs.foldlM appendHex? n = some p) : ∀ c ∈ cs, c.toNat < 0x80 := by
  induction cs generalizing n with
  | nil => exact fun c hc => nomatch hc
  | cons c cs ih =>
    rw [List.foldlM_cons] at h
    obtain ⟨m, hm, hrest⟩ := Option.bind_eq_some_iff.mp h
    exact List.forall_mem_cons.mpr ⟨appendHex?_ascii hm, ih hrest⟩

/-- A number is made of ASCII characters. -/
theorem hexNumber?_ascii (h : hexNumber? cs = some p) : ∀ c ∈ cs, c.toNat < 0x80 := by
  unfold hexNumber? at h
  split at h
  · cases h
  · cases h
  · exact List.forall_mem_cons.mpr ⟨by decide, foldlM_appendHex?_ascii h⟩
  · exact foldlM_appendHex?_ascii h

/-- Behind a number with room for it, a digit is read and then the rest. -/
theorem foldlM_appendHex?_cons (h : n < 2 ^ 28) (c : Char) (cs : List Char) :
    (c :: cs).foldlM appendHex? n =
      (hexDigit? c).bind fun d => cs.foldlM appendHex? (n * 16 + d) := by
  rw [List.foldlM_cons, appendHex?_of_lt h, Option.bind_eq_bind, Option.bind_map]
  rfl

theorem hexQuad?_eq (a b c d : Char) :
    hexQuad? a b c d =
      (if a = '+' then some 0 else hexDigit? a).bind fun h =>
        (hexDigit? b).bind fun x => (hexDigit? c).bind fun y => (hexDigit? d).bind fun z =>
          some (((h * 16 + x) * 16 + y) * 16 + z) := by
  unfold Text.hexQuad?
  split <;> rfl

/-- Four characters are read as a number at once or one by one. -/
theorem hexNumber?_four (a b c d : Char) : hexNumber? [a, b, c, d] = hexQuad? a b c d := by
  have hthree (h : Nat) (hh : h < 16) : [b, c, d].foldlM appendHex? h =
      (hexDigit? b).bind fun x => (hexDigit? c).bind fun y => (hexDigit? d).bind fun z =>
        some (((h * 16 + x) * 16 + y) * 16 + z) := by
    rw [foldlM_appendHex?_cons (by omega)]
    refine Option.bind_congr fun x hx => ?_
    have hx := (hexDigit?_eq_some hx).2
    rw [foldlM_appendHex?_cons (by omega)]
    refine Option.bind_congr fun y hy => ?_
    have hy := (hexDigit?_eq_some hy).2
    rw [foldlM_appendHex?_cons (by omega)]
    rfl
  rw [hexQuad?_eq]
  -- A plus sign leaves three digits, and is read as if it were a zero.
  by_cases ha : a = '+'
  · subst ha
    exact hthree 0 (by decide)
  · rw [if_neg ha, hexNumber?, foldlM_appendHex?_cons (by decide)]
    · refine Option.bind_congr fun h hh => ?_
      rw [Nat.zero_mul, Nat.zero_add]
      exact hthree h (hexDigit?_eq_some hh).2
    all_goals simp [ha]

/-- Four digits are a code point. -/
theorem hexQuad?_lt (h : hexQuad? a b c d = some p) : p < 0x10000 := by
  simp only [hexQuad?_eq, Option.bind_eq_some_iff] at h
  obtain ⟨w, hw, x, hx, y, hy, z, hz, hp⟩ := h
  have hw : w < 16 := by
    split at hw
    · cases hw
      decide
    · exact (hexDigit?_eq_some hw).2
  have hx := (hexDigit?_eq_some hx).2
  have hy := (hexDigit?_eq_some hy).2
  have hz := (hexDigit?_eq_some hz).2
  cases hp
  omega

/-- An escape is four bytes long. -/
theorem length_bytes_escape (h : hexQuad? a b c d = some p) : (bytes [a, b, c, d]).length = 4 := by
  rw [← hexNumber?_four] at h
  rw [bytes_ascii (hexNumber?_ascii h)]
  rfl

/-- **Four bytes that are read as a number are four characters.** -/
theorem cutPoint?_eq (cs : List Char) : cutPoint? cs = (escape? cs).map Prod.fst := by
  refine Option.ext fun p => ?_
  rw [cutPoint?, Option.filter_eq_some_iff, Option.bind_eq_some_iff, Option.map_eq_some_iff]
  constructor
  · rintro ⟨⟨ps, hkeep, hnumber⟩, -⟩
    obtain ⟨rest, rfl, hlength⟩ := keepBytes?_eq_some hkeep
    -- What is a number is ASCII, so it has as many characters as bytes.
    rw [bytes_ascii (hexNumber?_ascii hnumber), List.length_map] at hlength
    match ps with
    | [a, b, c, d] =>
      rw [hexNumber?_four] at hnumber
      exact ⟨(p, rest), escape?_eq_some.mpr ⟨a, b, c, d, rfl, hnumber⟩, rfl⟩
  · rintro ⟨⟨p, rest⟩, hescape, rfl⟩
    obtain ⟨a, b, c, d, rfl, hquad⟩ := escape?_eq_some.mp hescape
    have hkeep := keepBytes?_append [a, b, c, d] rest
    rw [length_bytes_escape hquad] at hkeep
    have hlt := hexQuad?_lt hquad
    exact ⟨⟨_, hkeep, (hexNumber?_four a b c d).trans hquad⟩, by simp; omega⟩

theorem skipBytes?_escape (h : escape? cs = some (p, rest)) : skipBytes? 4 cs = some rest := by
  obtain ⟨a, b, c, d, rfl, hquad⟩ := escape?_eq_some.mp h
  have hskip := skipBytes?_append [a, b, c, d] rest
  rwa [length_bytes_escape hquad] at hskip

end Numbers

/-! ### Reading into a buffer -/

/-- The offset in bytes at which U+FFFD first stands. -/
def replacementAt? : List Char → Option Nat
  | [] => none
  | c :: cs => if c = '\uFFFD' then some 0 else (replacementAt? cs).map (· + c.utf8Size)

section Searching

variable {cs front : List Char}

theorem replacementAt?_eq_none (h : '\uFFFD' ∉ cs) : replacementAt? cs = none := by
  induction cs with
  | nil => rfl
  | cons c cs ih =>
    rw [List.mem_cons, not_or] at h
    rw [replacementAt?, if_neg (Ne.symm h.1), ih h.2, Option.map_none]

theorem replacementAt?_append (h : '\uFFFD' ∉ front) (cs : List Char) :
    replacementAt? (front ++ '\uFFFD' :: cs) = some (bytes front).length := by
  induction front with
  | nil => rfl
  | cons c front ih =>
    rw [List.mem_cons, not_or] at h
    rw [List.cons_append, replacementAt?, if_neg (Ne.symm h.1), ih h.2, Option.map_some,
      length_bytes_cons, Nat.add_comm]

end Searching

namespace Wtf8

variable {W : Wtf8}

/-- How far reading has come: to the end, or to a rest of the spelling. -/
inductive Pass (W : Wtf8) where
  | done (b : W.Buffer)
  | more (b : W.Buffer) (rest : List Char)

/-- Reads up to the first U+FFFD and what is escaped there, unless a cut is between the bytes of a
character. -/
def pass? (b : W.Buffer) (cs : List Char) : Option (Pass W) :=
  match replacementAt? cs with
  | none => some (.done (W.append b (W.ofChars cs)))
  | some i => do
    let front ← keepBytes? i cs
    let rest ← skipBytes? (i + '\uFFFD'.utf8Size) cs
    let b := W.append b (W.ofChars front)
    match cutPoint? rest with
    | some p =>
      let rest ← skipBytes? 4 rest
      pure (.more (W.push b p) rest)
    | none => pure (.more (W.pushChar b '\uFFFD') rest)

/-- So many passes, or fewer if the end is reached. -/
def passes? : Nat → W.Buffer → List Char → Option (Pass W)
  | 0, b, cs => some (.more b cs)
  | n + 1, b, cs => (pass? b cs).bind fun
    | .done b => some (.done b)
    | .more b rest => passes? n b rest

section Passes

variable {cs front : List Char} {n : Nat}

theorem units_append_ofChars (b : W.Buffer) (cs : List Char) :
    W.units (W.append b (W.ofChars cs)) = W.units b ++ charUnits cs := by
  rw [W.units_append, W.units_ofChars]

/-- A pass with no U+FFFD left is the last. -/
theorem pass?_done (h : '\uFFFD' ∉ cs) (b : W.Buffer) :
    ∃ b', pass? b cs = some (.done b') ∧ W.units b' = W.units b ++ decoded cs := by
  refine ⟨_, by rw [pass?, replacementAt?_eq_none h], ?_⟩
  have hdecoded := decoded_front h []
  rw [List.append_nil, decoded_nil, List.append_nil] at hdecoded
  rw [units_append_ofChars, hdecoded]

/-- Both ends of what is cut at U+FFFD are between characters, and so is the end of an escape. -/
theorem pass?_replacement (h : '\uFFFD' ∉ front) (b : W.Buffer) (cs : List Char) :
    pass? b (front ++ '\uFFFD' :: cs) = some (match escape? cs with
      | some (p, rest) => .more (W.push (W.append b (W.ofChars front)) p) rest
      | none => .more (W.pushChar (W.append b (W.ofChars front)) '\uFFFD') cs) := by
  -- The rest begins behind U+FFFD, whose bytes are part of the offset.
  have hskip := skipBytes?_append (front ++ ['\uFFFD']) cs
  have hlength : (bytes (front ++ ['\uFFFD'])).length = (bytes front).length + '\uFFFD'.utf8Size := by
    rw [bytes, List.flatMap_append, List.length_append]
    rfl
  rw [hlength, List.append_assoc, List.singleton_append] at hskip
  rw [pass?, replacementAt?_append h]
  dsimp only
  rw [keepBytes?_append, hskip, Option.bind_eq_bind, Option.bind_some, Option.bind_some, cutPoint?_eq]
  cases hescape : escape? cs with
  | none => rfl
  | some escape =>
    rw [Option.map_some]
    dsimp only
    rw [skipBytes?_escape hescape]
    rfl

/-- Any other pass leaves fewer of them. -/
theorem pass?_more (h : '\uFFFD' ∈ cs) (b : W.Buffer) :
    ∃ b' rest, pass? b cs = some (.more b' rest) ∧ rest.count '\uFFFD' < cs.count '\uFFFD' ∧
      W.units b' ++ decoded rest = W.units b ++ decoded cs := by
  obtain ⟨front, cs, rfl, hfront⟩ := List.eq_append_cons_of_mem h
  have hcount : (front ++ '\uFFFD' :: cs).count '\uFFFD' = cs.count '\uFFFD' + 1 := by
    rw [List.count_append, List.count_eq_zero_of_not_mem hfront, List.count_cons_self, Nat.zero_add]
  rw [hcount, pass?_replacement hfront, decoded_front hfront, ← List.append_assoc,
    ← units_append_ofChars]
  cases hescape : escape? cs with
  | none =>
    refine ⟨_, cs, rfl, Nat.lt_succ_self _, ?_⟩
    rw [W.units_pushChar, decoded_replacement hescape, List.append_assoc]
    rfl
  | some escape =>
    obtain ⟨p, rest⟩ := escape
    obtain ⟨x, y, z, w, rfl, hquad⟩ := escape?_eq_some.mp hescape
    have hlt := hexQuad?_lt hquad
    refine ⟨_, rest, rfl, ?_, ?_⟩
    · exact Nat.lt_succ_of_le (List.Sublist.count_le _ (List.sublist_append_right [x, y, z, w] rest))
    · rw [W.units_push _ (by omega), decoded_escape hescape, List.append_assoc]

/-- **Reading comes to an end and never stops at a cut.** -/
theorem passes?_done (h : cs.count '\uFFFD' ≤ n) (b : W.Buffer) :
    ∃ b', passes? (n + 1) b cs = some (.done b') ∧ W.units b' = W.units b ++ decoded cs := by
  induction n generalizing b cs with
  | zero =>
    obtain ⟨b', hpass, hunits⟩ := pass?_done (List.count_eq_zero.mp (Nat.le_zero.mp h)) b
    exact ⟨b', by rw [passes?, hpass, Option.bind_some], hunits⟩
  | succ n ih =>
    by_cases hmem : '\uFFFD' ∈ cs
    · obtain ⟨b', rest, hpass, hfewer, hunits⟩ := pass?_more hmem b
      obtain ⟨b'', hrest, hunits'⟩ := ih (by omega : rest.count '\uFFFD' ≤ n) b'
      exact ⟨b'', by rw [passes?, hpass, Option.bind_some]; exact hrest, hunits'.trans hunits⟩
    · -- It may end before there have been so many passes.
      obtain ⟨b', hpass, hunits⟩ := pass?_done hmem b
      exact ⟨b', by rw [passes?, hpass, Option.bind_some], hunits⟩

/-- There is a pass for each U+FFFD and one more. -/
theorem passes?_empty (W : Wtf8) (cs : List Char) :
    ∃ b, passes? (cs.count '\uFFFD' + 1) W.empty cs = some (.done b) ∧ W.units b = decoded cs := by
  obtain ⟨b, hb, hunits⟩ := passes?_done (Nat.le_refl (cs.count '\uFFFD')) W.empty
  exact ⟨b, hb, by rw [hunits, W.units_empty, List.nil_append]⟩

end Passes

end Wtf8

theorem toList_ofLiteral (cs : List Char) :
    (Text.ofLiteral (String.ofList cs) true).units.toList = decoded cs := by
  rw [Text.ofLiteral, if_pos rfl, String.toList_ofList]
  rfl

/-- **Texts are read from their spellings.**  Any text in which U+FFFD may be an escape is read from its
bytes to the end, with a pass for each U+FFFD and one more. -/
theorem ofLiteral_spelling :
    (∀ us, Text.ofLiteral (String.ofList (spelling us)) true = Text.ofUnits us) ∧
    ∀ W : Wtf8,
      (∀ cs : List Char, ∃ b, Wtf8.passes? (cs.count '\uFFFD' + 1) W.empty cs = some (.done b) ∧
        W.units b = (Text.ofLiteral (String.ofList cs) true).units.toList) ∧
      ∀ us, ∃ b, Wtf8.passes? ((spelling us).count '\uFFFD' + 1) W.empty (spelling us) = some (.done b) ∧
        (Stored.ofBuffer b).units = us := by
  refine ⟨fun us => ?_, fun W => ⟨fun cs => ?_, fun us => ?_⟩⟩
  · rw [Text.eq_iff_units, toList_ofLiteral, decoded_spelling]
    rfl
  · rw [toList_ofLiteral]
    exact W.passes?_empty cs
  · obtain ⟨b, hb, hunits⟩ := W.passes?_empty (spelling us)
    exact ⟨b, hb, by rw [Stored.units_ofBuffer, hunits, decoded_spelling]⟩

/-- A lone surrogate is spelled in front of what could be digits of it. -/
example : spelling [0xD800, 0x64, 0x38, 0xFFFD, 0xD83D, 0xDE00] = "\uFFFDd800d8\uFFFDfffd😀".toList := by
  decide

end Scriptlet
