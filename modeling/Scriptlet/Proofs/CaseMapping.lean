import Scriptlet.Evaluation.Run
import Scriptlet.Proofs.EncodedTexts

/-!
# Case conversion run by run

A text consists of runs of Unicode text with lone surrogates between them.  Converted to upper case it
consists of the same surrogates and of the runs in upper case.  To lower case it is converted as a whole
or point by point, depending on whether there is a lone surrogate at all.  The two ways differ in the
capital sigma at the end of a word, which looks at what is around it: a single point has nothing around it.
So a run with such a sigma gets another lower case beside a lone surrogate than by itself.

## Main definitions

* `Text.Runs`, `Text.Runs.Makes` — runs with surrogates between them, and the text that they make.
* `MapsCharacters` — a mapping of characters to characters, at least one.
* `Text.HasFinalSigma` — there is a capital sigma at the end of a word.

## Main results

* `Text.Runs.exists_makes`, `Text.Runs.Makes.unique` — **each text is made of runs in one way**.
* `Text.Runs.Makes.mapPoints` — a mapping of characters maps the runs.
* `Text.toLower_eq_iff` — the two ways to lower case agree but for final sigmas.
* `case_by_runs` — **what case conversion makes of the runs of a text**.
* `lowers_final_sigma` — a final sigma in front of a lone surrogate.
-/

namespace Scriptlet

/-! ### Mappings of characters -/

/-- Whether a code point is a character. -/
def isCharacterPoint (p : Nat) : Bool := p < 0x110000 && !Text.isSurrogatePoint p

/-- The mapping makes characters of a character, and at least one. -/
def MapsCharacters (f : Nat → List Nat) : Prop :=
  ∀ p, isCharacterPoint p = true → f p ≠ [] ∧ ∀ q ∈ f p, isCharacterPoint q = true

section Characters

variable {p : Nat} {ps : List Nat} {f : Nat → List Nat}

theorem isCharacterPoint_iff :
    isCharacterPoint p = true ↔ p < 0x110000 ∧ Text.isSurrogatePoint p = false := by
  rw [isCharacterPoint, Bool.and_eq_true, decide_eq_true_iff, Bool.not_eq_true']

/-- A surrogate is no character. -/
theorem not_isLead (h : isCharacterPoint p = true) : ¬isLead p = true := by
  have hnot := (isCharacterPoint_iff.mp h).2
  rw [Bool.eq_false_iff, ne_eq, isSurrogatePoint_iff] at hnot
  rw [isLead_iff]
  omega

theorem not_isTrail (h : isCharacterPoint p = true) : ¬isTrail p = true := by
  have hnot := (isCharacterPoint_iff.mp h).2
  rw [Bool.eq_false_iff, ne_eq, isSurrogatePoint_iff] at hnot
  rw [isTrail_iff]
  omega

theorem isJoined_characters (h : ∀ p ∈ ps, isCharacterPoint p = true) : IsJoined ps := by
  induction ps with
  | nil => exact .nil
  | cons p ps ih =>
    obtain ⟨hp, hps⟩ := List.forall_mem_cons.mp h
    exact List.isChain_cons.mpr ⟨fun q _ hpair => not_isLead hp hpair.1, ih hps⟩

/-- The points that are made of a point: surrogates stay as they are. -/
def pointImage (f : Nat → List Nat) (p : Nat) : List Nat :=
  if Text.isSurrogatePoint p then [p] else f p

theorem pointImage_lt (hf : MapsCharacters f) (hp : p < 0x110000) :
    ∀ q ∈ pointImage f p, q < 0x110000 := by
  rw [pointImage]
  split
  next => exact List.forall_mem_singleton.mpr hp
  next h =>
    have hchar := isCharacterPoint_iff.mpr ⟨hp, Bool.eq_false_iff.mpr h⟩
    exact fun q hq => (isCharacterPoint_iff.mp ((hf p hchar).2 q hq)).1

/-- What is made of points begins with the second half of a pair only if the points do. -/
theorem head_flatMap_pointImage (hf : MapsCharacters f) (hps : ∀ p ∈ ps, p < 0x110000) {q : Nat}
    (hq : q ∈ (ps.flatMap (pointImage f)).head?) (htrail : isTrail q = true) : q ∈ ps.head? := by
  cases ps with
  | nil => nomatch hq
  | cons p ps =>
    rw [List.flatMap_cons, pointImage] at hq
    split at hq
    next => exact hq
    next h =>
      have hchar := isCharacterPoint_iff.mpr ⟨hps p List.mem_cons_self, Bool.eq_false_iff.mpr h⟩
      obtain ⟨hne, hall⟩ := hf p hchar
      rw [List.head?_append_of_ne_nil _ hne] at hq
      exact absurd htrail (not_isTrail (hall q (List.mem_of_mem_head? hq)))

/-- Nothing is joined that has not been joined before. -/
theorem isJoined_flatMap (hf : MapsCharacters f) (hps : ∀ p ∈ ps, p < 0x110000) (h : IsJoined ps) :
    IsJoined (ps.flatMap (pointImage f)) := by
  induction ps with
  | nil => exact .nil
  | cons p ps ih =>
    obtain ⟨hp, hps⟩ := List.forall_mem_cons.mp hps
    obtain ⟨hhead, htail⟩ := List.isChain_cons.mp h
    have ih := ih hps htail
    rw [List.flatMap_cons, pointImage]
    split
    next =>
      refine List.isChain_cons.mpr ⟨fun q hq hpair => ?_, ih⟩
      exact hhead q (head_flatMap_pointImage hf hps hq hpair.2) hpair
    next h =>
      obtain ⟨-, hall⟩ := hf p (isCharacterPoint_iff.mpr ⟨hp, Bool.eq_false_iff.mpr h⟩)
      refine List.isChain_append.mpr ⟨isJoined_characters hall, ih, fun x hx y _ hpair => ?_⟩
      exact not_isLead (hall x (List.mem_of_mem_getLast? hx)) hpair.1

end Characters

/-! ### The tables -/

namespace Unicode

/-- Whether all code points of a run are shifted to characters. -/
def CaseRun.staysInside (r : CaseRun) : Bool :=
  0 ≤ r.first + r.shift &&
    (r.last + r.shift < 0xD800 || (0xE000 ≤ r.first + r.shift && r.last + r.shift < 0x110000))

variable {r : CaseRun} {p q : Nat}

theorem CaseRun.isCharacterPoint_mapped (h : r.mapped? p = some q) (hr : r.staysInside = true) :
    isCharacterPoint q = true := by
  rw [CaseRun.mapped?, Option.ite_none_right_eq_some, Option.some_inj] at h
  simp only [Bool.and_eq_true, decide_eq_true_iff] at h
  obtain ⟨⟨⟨hfirst, hlast⟩, -⟩, rfl⟩ := h
  simp only [CaseRun.staysInside, Bool.and_eq_true, Bool.or_eq_true, decide_eq_true_iff] at hr
  rw [isCharacterPoint_iff, Bool.eq_false_iff, ne_eq, isSurrogatePoint_iff]
  omega

theorem mapsCharacters_mapPoint {special : Array (Nat × List Nat)} {runs : Array CaseRun}
    (hspecial : (special.toList.all fun e => !e.2.isEmpty && e.2.all isCharacterPoint) = true)
    (hruns : runs.toList.all CaseRun.staysInside = true) : MapsCharacters (mapPoint special runs) := by
  intro p hp
  rw [mapPoint]
  split
  next x ps hfind =>
    have hmem := List.all_eq_true.mp hspecial _
      (Array.mem_toList_iff.mpr (Array.mem_of_find?_eq_some hfind))
    rw [Bool.and_eq_true, Bool.not_eq_true', List.isEmpty_eq_false_iff, List.all_eq_true] at hmem
    exact hmem
  next =>
    split
    next q hfind =>
      obtain ⟨r, hr, hq⟩ := Array.exists_of_findSome?_eq_some hfind
      have hinside := List.all_eq_true.mp hruns r (Array.mem_toList_iff.mpr hr)
      exact ⟨List.cons_ne_nil _ _,
        List.forall_mem_singleton.mpr (CaseRun.isCharacterPoint_mapped hq hinside)⟩
    next => exact ⟨List.cons_ne_nil _ _, List.forall_mem_singleton.mpr hp⟩

theorem staysInside_lower : lowerRuns.toList.all CaseRun.staysInside = true := by decide +kernel

theorem staysInside_upper : upperRuns.toList.all CaseRun.staysInside = true := by decide +kernel

theorem special_lower :
    (lowerSpecial.toList.all fun e => !e.2.isEmpty && e.2.all isCharacterPoint) = true := by
  decide +kernel

theorem special_upper :
    (upperSpecial.toList.all fun e => !e.2.isEmpty && e.2.all isCharacterPoint) = true := by
  decide +kernel

theorem mapsCharacters_lower : MapsCharacters lowerPoints := by
  -- Checked against the goal at once, the proof would have the tables unfolded.
  have hmap := mapsCharacters_mapPoint special_lower staysInside_lower
  exact hmap

theorem mapsCharacters_upper : MapsCharacters upperPoints := by
  have hmap := mapsCharacters_mapPoint special_upper staysInside_upper
  exact hmap

/-- A sigma with nothing around it is no final one. -/
theorem lowerPoints_sigma : lowerPoints 0x3A3 = [0x3C3] := by decide +kernel

end Unicode

/-! ### Texts of code points -/

namespace Text

section Points

variable {s t : Text} {ps : List Nat} {f : Nat → List Nat}

theorem units_ofPoints (ps : List Nat) : (ofPoints ps).units.toList = ps.flatMap pointUnits := by
  have hall : ∀ (ps : List Nat) (t : Text),
      (ps.foldl pushPoint t).units.toList = t.units.toList ++ ps.flatMap pointUnits := by
    intro ps
    induction ps with
    | nil => exact fun t => (List.append_nil _).symm
    | cons p ps ih =>
      intro t
      rw [List.foldl_cons, ih, toList_pushPoint, List.append_assoc]
      rfl
  exact hall ps empty

theorem codePoints_ofPoints (hps : ∀ p ∈ ps, p < 0x110000) (hjoined : IsJoined ps) :
    (ofPoints ps).codePoints.toList = ps := by
  rw [toList_codePoints, units_ofPoints, pointsOf_flatMap hps hjoined]

theorem codePoints_ofCharacters (hps : ∀ p ∈ ps, isCharacterPoint p = true) :
    (ofPoints ps).codePoints.toList = ps :=
  codePoints_ofPoints (fun p hp => (isCharacterPoint_iff.mp (hps p hp)).1) (isJoined_characters hps)

theorem codePoints_lt (t : Text) : ∀ p ∈ t.codePoints.toList, p < 0x110000 := by
  rw [toList_codePoints]
  exact pointsOf_lt _

/-- A text is known by its code points. -/
theorem eq_of_codePoints (h : s.codePoints.toList = t.codePoints.toList) : s = t := by
  rw [toList_codePoints, toList_codePoints] at h
  rw [eq_iff_units, ← flatMap_pointsOf s.units.toList, h, flatMap_pointsOf]

theorem isWellFormed_iff_points :
    t.isWellFormed = true ↔ ∀ p ∈ t.codePoints.toList, isCharacterPoint p = true := by
  rw [isWellFormed, ← Array.all_toList, List.all_eq_true]
  refine forall₂_congr fun p hp => ?_
  rw [isCharacterPoint_iff, Bool.not_eq_true', and_iff_right (codePoints_lt t p hp)]

/-- Points are mapped one by one, and nothing is joined. -/
theorem codePoints_mapPoints (hf : MapsCharacters f) (t : Text) :
    (t.mapPoints f).codePoints.toList = t.codePoints.toList.flatMap (pointImage f) := by
  have hjoined : IsJoined t.codePoints.toList := by
    rw [toList_codePoints]
    exact isJoined_pointsOf _
  refine codePoints_ofPoints (fun q hq => ?_) (isJoined_flatMap hf (codePoints_lt t) hjoined)
  obtain ⟨p, hp, hq⟩ := List.mem_flatMap.mp hq
  exact pointImage_lt hf (codePoints_lt t p hp) q hq

theorem pointImage_character {p : Nat} (hp : isCharacterPoint p = true) : pointImage f p = f p := by
  rw [pointImage, (isCharacterPoint_iff.mp hp).2, if_neg Bool.false_ne_true]

theorem isWellFormed_mapPoints (hf : MapsCharacters f) (ht : t.isWellFormed = true) :
    (t.mapPoints f).isWellFormed = true := by
  rw [isWellFormed_iff_points] at ht ⊢
  rw [codePoints_mapPoints hf]
  intro q hq
  obtain ⟨p, hp, hq⟩ := List.mem_flatMap.mp hq
  rw [pointImage_character (ht p hp)] at hq
  exact (hf p (ht p hp)).2 q hq

end Points

/-! ### Final sigmas -/

/-- There is a capital sigma at the end of a word: a cased letter is before it, if those are passed over
that are ignored, and none is behind it. -/
def HasFinalSigma (t : Text) : Prop :=
  ∃ before after, t.codePoints.toList = before ++ 0x3A3 :: after ∧
    casedNext before.reverse = true ∧ casedNext after = false

section Sigmas

variable {t : Text} {before ps : List Nat}

theorem lowerFrom_characters (hps : ∀ p ∈ ps, isCharacterPoint p = true) (before : List Nat) :
    ∀ q ∈ lowerFrom before ps, isCharacterPoint q = true := by
  induction ps generalizing before with
  | nil => exact fun q hq => nomatch hq
  | cons p ps ih =>
    obtain ⟨hp, hps⟩ := List.forall_mem_cons.mp hps
    refine List.forall_mem_append.mpr ⟨?_, ih hps _⟩
    split
    next => split <;> exact List.forall_mem_singleton.mpr rfl
    next => exact (Unicode.mapsCharacters_lower p hp).2

/-- The lower case of a point, a sigma being final or not. -/
def lowerImage (p : Nat) (isFinal : Bool) : List Nat :=
  if p = 0x3A3 then if isFinal then [0x3C2] else [0x3C3] else Unicode.lowerPoints p

theorem lowerFrom_cons (before : List Nat) (p : Nat) (ps : List Nat) : lowerFrom before (p :: ps)
    = lowerImage p (casedNext before && !casedNext ps) ++ lowerFrom (p :: before) ps := rfl

/-- A point becomes as many points in either way. -/
theorem length_lowerImage (p : Nat) (isFinal : Bool) :
    (lowerImage p isFinal).length = (Unicode.lowerPoints p).length := by
  rw [lowerImage]
  split
  next h =>
    rw [h, Unicode.lowerPoints_sigma]
    split <;> rfl
  next => rfl

theorem lowerImage_eq_iff {p : Nat} {isFinal : Bool} :
    lowerImage p isFinal = Unicode.lowerPoints p ↔ ¬(p = 0x3A3 ∧ isFinal = true) := by
  rw [lowerImage]
  split
  next h =>
    rw [h, Unicode.lowerPoints_sigma]
    cases isFinal <;> decide
  next h => exact iff_of_true rfl fun ⟨hp, _⟩ => h hp

/-- What is around a point matters for final sigmas only. -/
theorem lowerFrom_eq_iff : lowerFrom before ps = ps.flatMap Unicode.lowerPoints ↔
    ∀ front rest, ps = front ++ 0x3A3 :: rest →
      ¬(casedNext (front.reverse ++ before) = true ∧ casedNext rest = false) := by
  induction ps generalizing before with
  | nil => exact iff_of_true rfl fun front rest h => absurd h.symm (by simp)
  | cons p ps ih =>
    -- As images of single points are equally long, the texts are the same if they are so point by
    -- point.
    have hsplit : lowerFrom before (p :: ps) = (p :: ps).flatMap Unicode.lowerPoints ↔
        lowerImage p (casedNext before && !casedNext ps) = Unicode.lowerPoints p ∧
          lowerFrom (p :: before) ps = ps.flatMap Unicode.lowerPoints := by
      rw [lowerFrom_cons, List.flatMap_cons]
      exact ⟨fun h => List.append_inj h (length_lowerImage p _), fun ⟨h, h'⟩ => by rw [h, h']⟩
    rw [hsplit, lowerImage_eq_iff, ih, Bool.and_eq_true, Bool.not_eq_true']
    -- Either the first point is the sigma or one of the others, with the first point before it.
    constructor
    · rintro ⟨hp, hps⟩ front rest heq hfinal
      cases front with
      | nil =>
        cases heq
        exact hp ⟨rfl, hfinal⟩
      | cons q front =>
        cases heq
        rw [List.reverse_cons, List.append_assoc] at hfinal
        exact hps front rest rfl hfinal
    · intro h
      refine ⟨fun ⟨hp, hfinal⟩ => h [] ps (by rw [hp]; rfl) hfinal,
        fun front rest heq hfinal => ?_⟩
      refine h (p :: front) rest (by rw [heq]; rfl) ?_
      rwa [List.reverse_cons, List.append_assoc]

theorem codePoints_toLower (ht : t.isWellFormed = true) :
    t.toLower.codePoints.toList = lowerFrom [] t.codePoints.toList := by
  rw [toLower, if_pos ht]
  exact codePoints_ofCharacters (lowerFrom_characters (isWellFormed_iff_points.mp ht) [])

theorem isWellFormed_toLower (ht : t.isWellFormed = true) : t.toLower.isWellFormed = true := by
  rw [isWellFormed_iff_points, codePoints_toLower ht]
  exact lowerFrom_characters (isWellFormed_iff_points.mp ht) []

/-- **The two ways to lower case agree but for final sigmas.** -/
theorem toLower_eq_iff (ht : t.isWellFormed = true) :
    t.toLower = t.mapPoints Unicode.lowerPoints ↔ ¬t.HasFinalSigma := by
  have himage : t.codePoints.toList.flatMap (pointImage Unicode.lowerPoints)
      = t.codePoints.toList.flatMap Unicode.lowerPoints :=
    List.flatMap_congr fun p hp => pointImage_character (isWellFormed_iff_points.mp ht p hp)
  have hpoints : t.toLower = t.mapPoints Unicode.lowerPoints ↔
      lowerFrom [] t.codePoints.toList = t.codePoints.toList.flatMap Unicode.lowerPoints := by
    rw [← codePoints_toLower ht, ← himage, ← codePoints_mapPoints Unicode.mapsCharacters_lower]
    exact ⟨fun h => h ▸ rfl, eq_of_codePoints⟩
  rw [hpoints, lowerFrom_eq_iff, HasFinalSigma]
  push Not
  simp only [List.append_nil, Bool.not_eq_false, ne_eq]

end Sigmas

/-! ### Runs -/

/-- Texts with surrogates between them. -/
inductive Runs where
  /-- One text. -/
  | last (run : Text)
  /-- A text in front of a surrogate and others. -/
  | more (run : Text) (surrogate : UInt16) (rest : Runs)

namespace Runs

/-- The code points, one run behind the other. -/
def points : Runs → List Nat
  | last run => run.codePoints.toList
  | more run u rest => run.codePoints.toList ++ u.toNat :: rest.points

/-- The runs. -/
def members : Runs → List Text
  | last run => [run]
  | more run _ rest => run :: rest.members

/-- The code units between the runs. -/
def separators : Runs → List UInt16
  | last _ => []
  | more _ u rest => u :: rest.separators

/-- The same surrogates between other runs. -/
def map (f : Text → Text) : Runs → Runs
  | last run => last (f run)
  | more run u rest => more (f run) u (rest.map f)

/-- The text consists of the runs, which are Unicode text, and of lone surrogates between them. -/
structure Makes (r : Runs) (t : Text) : Prop where
  points_eq : t.codePoints.toList = r.points
  isWellFormed : ∀ s ∈ r.members, s.isWellFormed = true
  isSurrogate : ∀ u ∈ r.separators, isSurrogatePoint u.toNat = true

variable {r r' : Runs} {s t : Text} {f g : Text → Text}

theorem members_map (f : Text → Text) (r : Runs) : (r.map f).members = r.members.map f := by
  induction r with
  | last run => rfl
  | more run u rest ih => rw [map, members, ih, members, List.map_cons]

theorem separators_map (f : Text → Text) (r : Runs) : (r.map f).separators = r.separators := by
  induction r with
  | last run => rfl
  | more run u rest ih => rw [map, separators, ih, separators]

theorem map_eq_iff : r.map f = r.map g ↔ ∀ s ∈ r.members, f s = g s := by
  induction r with
  | last run => simp only [map, members, last.injEq, List.forall_mem_singleton]
  | more run u rest ih => simp only [map, members, more.injEq, List.forall_mem_cons, ih, true_and]

theorem isWellFormed_empty : empty.isWellFormed = true := by decide +kernel

/-- One more character in front of a run. -/
theorem exists_cons {p : Nat} (hp : isCharacterPoint p = true) (hs : s.isWellFormed = true) :
    ∃ t : Text, t.isWellFormed = true ∧ t.codePoints.toList = p :: s.codePoints.toList := by
  have hall : ∀ q ∈ p :: s.codePoints.toList, isCharacterPoint q = true :=
    List.forall_mem_cons.mpr ⟨hp, isWellFormed_iff_points.mp hs⟩
  have hpoints := codePoints_ofCharacters hall
  refine ⟨ofPoints (p :: s.codePoints.toList), ?_, hpoints⟩
  rwa [isWellFormed_iff_points, hpoints]

theorem exists_points (ps : List Nat) (hps : ∀ p ∈ ps, p < 0x110000) : ∃ r : Runs, r.points = ps ∧
    (∀ s ∈ r.members, s.isWellFormed = true) ∧
      ∀ u ∈ r.separators, isSurrogatePoint u.toNat = true := by
  induction ps with
  | nil => exact ⟨last empty, rfl, List.forall_mem_singleton.mpr isWellFormed_empty, nofun⟩
  | cons p ps ih =>
    obtain ⟨hp, hps⟩ := List.forall_mem_cons.mp hps
    obtain ⟨r, hpoints, hformed, hsurrogate⟩ := ih hps
    -- A point that is a half of a pair stands between two runs; all others are put in front of the
    -- first run.
    cases hsplit : isSurrogatePoint p with
    | true =>
      have hbounds := isSurrogatePoint_iff.mp hsplit
      have htoNat : p.toUInt16.toNat = p := toNat_toUInt16 (by omega)
      refine ⟨more empty p.toUInt16 r, ?_, List.forall_mem_cons.mpr ⟨isWellFormed_empty, hformed⟩,
        List.forall_mem_cons.mpr ⟨by rw [htoNat, hsplit], hsurrogate⟩⟩
      rw [points, htoNat, hpoints]
      rfl
    | false =>
      have hchar := isCharacterPoint_iff.mpr ⟨hp, hsplit⟩
      cases r with
      | last run =>
        obtain ⟨s, hs, hcons⟩ := exists_cons hchar (hformed run (List.mem_singleton.mpr rfl))
        refine ⟨last s, ?_, List.forall_mem_singleton.mpr hs, nofun⟩
        rw [points, hcons, ← hpoints, points]
      | more run u rest =>
        obtain ⟨hrun, hrest⟩ := List.forall_mem_cons.mp hformed
        obtain ⟨s, hs, hcons⟩ := exists_cons hchar hrun
        refine ⟨more s u rest, ?_, List.forall_mem_cons.mpr ⟨hs, hrest⟩, hsurrogate⟩
        rw [points, hcons, ← hpoints, points]
        rfl

/-- **Each text is made of runs.** -/
theorem exists_makes (t : Text) : ∃ r : Runs, r.Makes t := by
  obtain ⟨r, hpoints, hformed, hsurrogate⟩ := exists_points _ (codePoints_lt t)
  exact ⟨r, hpoints.symm, hformed, hsurrogate⟩

/-- Characters in front of a surrogate are all that are in front of the first one. -/
theorem append_cons_inj {xs ys as bs : List Nat} {a b : Nat}
    (hxs : ∀ p ∈ xs, isCharacterPoint p = true) (hys : ∀ p ∈ ys, isCharacterPoint p = true)
    (ha : isSurrogatePoint a = true) (hb : isSurrogatePoint b = true)
    (h : xs ++ a :: as = ys ++ b :: bs) : xs = ys ∧ a = b ∧ as = bs := by
  -- Points of runs are no halves, so both splits are at the first half.
  have hno : ∀ {p}, isCharacterPoint p = true → isSurrogatePoint p = true → False := fun hp hs =>
    Bool.false_ne_true ((isCharacterPoint_iff.mp hp).2.symm.trans hs)
  induction xs generalizing ys with
  | nil =>
    cases ys with
    | nil =>
      cases h
      exact ⟨rfl, rfl, rfl⟩
    | cons y ys =>
      cases h
      exact (hno (hys a List.mem_cons_self) ha).elim
  | cons x xs ih =>
    cases ys with
    | nil =>
      cases h
      exact (hno (hxs b List.mem_cons_self) hb).elim
    | cons y ys =>
      obtain ⟨rfl, htail⟩ := List.cons.inj h
      obtain ⟨rfl, rfl, rfl⟩ :=
        ih (List.forall_mem_cons.mp hxs).2 (List.forall_mem_cons.mp hys).2 htail
      exact ⟨rfl, rfl, rfl⟩

/-- A separator is no character of a run. -/
theorem points_ne {run : Text} {u : UInt16} {qs : List Nat} (hs : s.isWellFormed = true)
    (hu : isSurrogatePoint u.toNat = true) :
    s.codePoints.toList ≠ run.codePoints.toList ++ u.toNat :: qs := by
  intro h
  have hmem : u.toNat ∈ s.codePoints.toList := h ▸ List.mem_append_right _ List.mem_cons_self
  have hchar := isCharacterPoint_iff.mp (isWellFormed_iff_points.mp hs _ hmem)
  exact Bool.false_ne_true (hchar.2.symm.trans hu)

/-- **A text is made of runs in one way.** -/
theorem eq_of_points (h : r.points = r'.points) (hr : ∀ s ∈ r.members, s.isWellFormed = true)
    (hr' : ∀ s ∈ r'.members, s.isWellFormed = true)
    (hu : ∀ u ∈ r.separators, isSurrogatePoint u.toNat = true)
    (hu' : ∀ u ∈ r'.separators, isSurrogatePoint u.toNat = true) : r = r' := by
  induction r generalizing r' with
  | last run =>
    have hrun := hr run (List.mem_singleton.mpr rfl)
    cases r' with
    | last run' => rw [eq_of_codePoints h]
    | more run' u' rest' => exact absurd h (points_ne hrun (List.forall_mem_cons.mp hu').1)
  | more run u rest ih =>
    obtain ⟨hrun, hrest⟩ := List.forall_mem_cons.mp hr
    obtain ⟨hfirst, hothers⟩ := List.forall_mem_cons.mp hu
    cases r' with
    | last run' =>
      exact absurd h.symm (points_ne (hr' run' (List.mem_singleton.mpr rfl)) hfirst)
    | more run' u' rest' =>
      obtain ⟨hrun', hrest'⟩ := List.forall_mem_cons.mp hr'
      obtain ⟨hfirst', hothers'⟩ := List.forall_mem_cons.mp hu'
      obtain ⟨hpoints, hunits, htail⟩ := append_cons_inj (isWellFormed_iff_points.mp hrun)
        (isWellFormed_iff_points.mp hrun') hfirst hfirst' h
      rw [eq_of_codePoints hpoints, UInt16.toNat_inj.mp hunits, ih htail hrest hrest' hothers hothers']

theorem Makes.unique (h : r.Makes t) (h' : r'.Makes t) : r = r' :=
  eq_of_points (h.points_eq.symm.trans h'.points_eq) h.isWellFormed h'.isWellFormed h.isSurrogate
    h'.isSurrogate

/-- A text without lone surrogates is one run. -/
theorem Makes.isWellFormed_iff (h : r.Makes t) : t.isWellFormed = true ↔ r.separators = [] := by
  cases r with
  | last run =>
    refine iff_of_true ?_ rfl
    rw [eq_of_codePoints h.points_eq]
    exact h.isWellFormed run (List.mem_singleton.mpr rfl)
  | more run u rest =>
    refine iff_of_false (fun ht => ?_) (List.cons_ne_nil _ _)
    exact points_ne ht (List.forall_mem_cons.mp h.isSurrogate).1 h.points_eq

/-- What is mapped point by point is mapped run by run. -/
theorem Makes.mapPoints {f : Nat → List Nat} (h : r.Makes t) (hf : MapsCharacters f) :
    (r.map (Text.mapPoints f)).Makes (t.mapPoints f) where
  points_eq := by
    have himage : ∀ r : Runs, (∀ u ∈ r.separators, isSurrogatePoint u.toNat = true) →
        (r.map (Text.mapPoints f)).points = r.points.flatMap (pointImage f) := by
      intro r hr
      induction r with
      | last run => exact codePoints_mapPoints hf run
      | more run u rest ih =>
        obtain ⟨hu, hrest⟩ := List.forall_mem_cons.mp hr
        have hstays : pointImage f u.toNat = [u.toNat] := if_pos hu
        rw [map, points, points, List.flatMap_append, List.flatMap_cons, hstays, ih hrest,
          codePoints_mapPoints hf]
        rfl
    rw [codePoints_mapPoints hf, h.points_eq, himage r h.isSurrogate]
  isWellFormed := by
    rw [members_map]
    intro s hs
    obtain ⟨run, hrun, rfl⟩ := List.mem_map.mp hs
    exact isWellFormed_mapPoints hf (h.isWellFormed run hrun)
  isSurrogate := by
    rw [separators_map]
    exact h.isSurrogate

/-- In upper case a text has the same surrogates, and its runs in upper case. -/
theorem Makes.toUpper (h : r.Makes t) : (r.map Text.toUpper).Makes t.toUpper :=
  h.mapPoints Unicode.mapsCharacters_upper

/-- A text with a lone surrogate is converted point by point. -/
theorem Makes.toLower_points (h : r.Makes t) (hr : r.separators ≠ []) :
    (r.map (Text.mapPoints Unicode.lowerPoints)).Makes t.toLower := by
  rw [Text.toLower, if_neg fun ht => hr (h.isWellFormed_iff.mp ht)]
  exact h.mapPoints Unicode.mapsCharacters_lower

/-- **In lower case a text has its runs in lower case** if it is one run, or if no run has a final
sigma. -/
theorem Makes.toLower_iff (h : r.Makes t) : (r.map Text.toLower).Makes t.toLower ↔
    r.separators = [] ∨ ∀ s ∈ r.members, ¬s.HasFinalSigma := by
  by_cases hr : r.separators = []
  · refine iff_of_true ?_ (.inl hr)
    have ht := h.isWellFormed_iff.mpr hr
    cases r with
    | last run =>
      obtain rfl := eq_of_codePoints h.points_eq
      exact ⟨rfl, List.forall_mem_singleton.mpr (isWellFormed_toLower ht), nofun⟩
    | more run u rest => exact absurd hr (List.cons_ne_nil _ _)
  · rw [or_iff_right hr]
    -- The text is known already, and runs that make it are its only ones.
    have hpoints := h.toLower_points hr
    have hmap : (r.map Text.toLower).Makes t.toLower ↔
        r.map Text.toLower = r.map (Text.mapPoints Unicode.lowerPoints) :=
      ⟨fun hlower => hlower.unique hpoints, fun heq => heq ▸ hpoints⟩
    rw [hmap, map_eq_iff]
    exact forall₂_congr fun s hs => toLower_eq_iff (h.isWellFormed s hs)

/-- Runs make one text. -/
theorem Makes.text_unique (hs : r.Makes s) (ht : r.Makes t) : s = t :=
  eq_of_codePoints (hs.points_eq.trans ht.points_eq.symm)

section Behind

variable {u : UInt16}

/-- A lone surrogate behind Unicode text. -/
theorem makes_append (ht : t.isWellFormed = true) (hu : isSurrogatePoint u.toNat = true) :
    (more t u (last empty)).Makes (t ++ ⟨#[u]⟩) where
  points_eq := by
    have hunits : (t ++ ⟨#[u]⟩ : Text).units.toList = t.units.toList ++ pointUnits u.toNat := by
      rw [pointUnits_toNat]
      exact Array.toList_append
    have hlt : u.toNat < 0x110000 := by
      have := u.toNat_lt
      omega
    have hjoin : ∀ ps : List Nat, (∀ p ∈ ps, isCharacterPoint p = true) →
        joinPoint ps u.toNat = ps ++ [u.toNat] := by
      intro ps hps
      obtain rfl | ⟨qs, q, rfl⟩ := List.eq_nil_or_concat' ps
      · rfl
      · exact joinPoint_concat fun hpair =>
          not_isLead (hps q (List.mem_append_right _ (List.mem_singleton.mpr rfl))) hpair.1
    have hformed := isWellFormed_iff_points.mp ht
    rw [toList_codePoints] at hformed
    rw [toList_codePoints, hunits, pointsOf_append_pointUnits _ hlt, hjoin _ hformed, points,
      toList_codePoints]
    rfl
  isWellFormed := List.forall_mem_cons.mpr ⟨ht, List.forall_mem_singleton.mpr isWellFormed_empty⟩
  isSurrogate := List.forall_mem_singleton.mpr hu

/-- A surrogate behind a text stays behind it if the text is converted as a run. -/
theorem makes_map_append_iff (hempty : f empty = empty) (ht : (f t).isWellFormed = true)
    (hu : isSurrogatePoint u.toNat = true) :
    ((more t u (last empty)).map f).Makes s ↔ s = f t ++ ⟨#[u]⟩ := by
  have hmap : (more t u (last empty)).map f = more (f t) u (last empty) := by
    rw [map, map, hempty]
  rw [hmap]
  exact ⟨fun h => h.text_unique (makes_append ht hu), fun h => h ▸ makes_append ht hu⟩

theorem toUpper_append (ht : t.isWellFormed = true) (hu : isSurrogatePoint u.toNat = true) :
    (t ++ ⟨#[u]⟩).toUpper = t.toUpper ++ ⟨#[u]⟩ :=
  (makes_map_append_iff rfl (isWellFormed_mapPoints Unicode.mapsCharacters_upper ht) hu).mp
    (makes_append ht hu).toUpper

theorem toLower_append_iff (ht : t.isWellFormed = true) (hu : isSurrogatePoint u.toNat = true) :
    (t ++ ⟨#[u]⟩).toLower = t.toLower ++ ⟨#[u]⟩ ↔ ¬t.HasFinalSigma := by
  have hempty : ¬empty.HasFinalSigma := by
    rintro ⟨before, after, h, -⟩
    exact absurd h.symm (List.append_ne_nil_of_right_ne_nil _ (List.cons_ne_nil _ _))
  have hmakes := makes_append ht hu
  rw [← makes_map_append_iff (by decide +kernel) (isWellFormed_toLower ht) hu, hmakes.toLower_iff,
    separators, or_iff_right (List.cons_ne_nil _ _), members, members, List.forall_mem_cons,
    List.forall_mem_singleton, and_iff_left hempty]

end Behind

end Runs

end Text

/-- **What case conversion makes of the runs of a text.**  The upper case has the same lone surrogates
between the runs in upper case.  The lower case has them between the runs in lower case if there are none
or if no run has a final sigma; otherwise each run is converted point by point, in which way a final sigma
becomes another letter. -/
theorem case_by_runs (m : Machine) (t : Text) (args : List Value) :
    m.textMethod .toUpperCase (.text t) args = pure (.text t.toUpper) ∧
    m.textMethod .toLowerCase (.text t) args = pure (.text t.toLower) ∧
    (∃ r : Text.Runs, r.Makes t ∧ (∀ r' : Text.Runs, r'.Makes t → r' = r) ∧
      (r.map Text.toUpper).Makes t.toUpper ∧
      ((r.map Text.toLower).Makes t.toLower ↔
        r.separators = [] ∨ ∀ s ∈ r.members, ¬s.HasFinalSigma) ∧
      (r.separators ≠ [] → (r.map (Text.mapPoints Unicode.lowerPoints)).Makes t.toLower)) ∧
    (t.isWellFormed = true → ∀ u : UInt16, Text.isSurrogatePoint u.toNat = true →
      (t ++ ⟨#[u]⟩).toUpper = t.toUpper ++ ⟨#[u]⟩ ∧
      ((t ++ ⟨#[u]⟩).toLower = t.toLower ++ ⟨#[u]⟩ ↔ ¬t.HasFinalSigma)) := by
  obtain ⟨r, hr⟩ := Text.Runs.exists_makes t
  refine ⟨rfl, rfl, ⟨r, hr, fun r' hr' => hr'.unique hr, hr.toUpper, hr.toLower_iff,
    hr.toLower_points⟩, fun ht u hu => ?_⟩
  exact ⟨Text.Runs.toUpper_append ht hu, Text.Runs.toLower_append_iff ht hu⟩

/-- A sharp s becomes two letters in front of a lone surrogate as well. -/
theorem case_by_runs_sharp :
    Text.toUpper ⟨#[0x61, 0xDF, 0xD800]⟩ = ⟨#[0x41, 0x53, 0x53, 0xD800]⟩ := by
  have h := (case_by_runs (Machine.ofDepth 0) ⟨#[0x61, 0xDF]⟩ []).2.2.2 (by decide +kernel) 0xD800
    (by decide)
  have hrun : Text.toUpper ⟨#[0x61, 0xDF]⟩ = ⟨#[0x41, 0x53, 0x53]⟩ := by decide +kernel
  rw [hrun] at h
  exact h.1

/-- A final sigma in front of a lone surrogate is not the one that it is in front of nothing. -/
theorem lowers_final_sigma :
    let t : Text := ⟨#[0x3B1, 0x3A3]⟩
    (t ++ ⟨#[0xD800]⟩).toLower ≠ t.toLower ++ ⟨#[0xD800]⟩ := by
  decide +kernel

end Scriptlet
