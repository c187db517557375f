import Scriptlet.Proofs.EncodedTexts
import Scriptlet.Proofs.PropertyWrites
import Scriptlet.Proofs.SplitTexts

/-!
# Texts as they are shown

Readers see Unicode text, in which U+FFFD stands for each lone surrogate.  The texts of errors and of
symbols are put together from what readers see.  So they have all units of the parts but the lone
surrogates, and parts that look alike make the same text.

## Main definitions

* `Text.shown` — a text as readers see it.
* `Text.LooksLike` — texts that differ only where readers see U+FFFD.

## Main results

* `Text.unitAt?_shown` — **units that are no lone surrogates are shown as they are**.
* `Text.shown_eq_iff` — texts that look alike are shown alike.
* `errors_and_symbols_shown` — **what the texts of errors and symbols say**.
* `error_hides_surrogate` — an error with a lone surrogate in its message.
-/

namespace Scriptlet

open Eval

/-! ### Units -/

/-- What stands for a lone surrogate. -/
def replacement : UInt16 := 0xFFFD

/-- The units that show a code point. -/
def shownUnits (p : Nat) : List UInt16 :=
  if Text.isSurrogatePoint p then [replacement] else pointUnits p

/-- The second list has U+FFFD for each lone surrogate of the first one, and its other units. -/
def Shows (us vs : List UInt16) : Prop :=
  ∀ i, (LoneAt us i → vs[i]? = some replacement) ∧ (¬LoneAt us i → vs[i]? = us[i]?)

section Units

variable {u v : UInt16} {us vs : List UInt16} {i p : Nat}

/-- A unit that forms no pair with the next one does not change what is behind it. -/
theorem loneAt_succ (h : isHighSurrogate u = true → ∀ v ∈ us.head?, isLowSurrogate v = false) :
    LoneAt (u :: us) (i + 1) ↔ LoneAt us i := by
  cases i with
  | zero => exact loneAt_one h
  | succ i => exact loneAt_succ_succ

theorem loneAt_zero_iff
    (h : isHighSurrogate u = true → ∀ v ∈ us.head?, isLowSurrogate v = false) :
    LoneAt (u :: us) 0 ↔ Text.isSurrogatePoint u.toNat = true := by
  rw [loneAt_zero, isSurrogatePoint_toNat, Bool.or_eq_true]
  exact or_congr_left (and_iff_left_of_imp h)

theorem Shows.cons (h : isHighSurrogate u = true → ∀ v ∈ us.head?, isLowSurrogate v = false)
    (hs : Shows us vs) : Shows (u :: us) (shownUnits u.toNat ++ vs) := by
  have hunit : shownUnits u.toNat
      = [if Text.isSurrogatePoint u.toNat then replacement else u] := by
    rw [shownUnits, pointUnits_toNat]
    split <;> rfl
  rw [hunit]
  rintro (- | i)
  · rw [loneAt_zero_iff h]
    exact ⟨fun hu => congrArg some (if_pos hu), fun hu => congrArg some (if_neg hu)⟩
  · rw [loneAt_succ h]
    exact hs i

theorem Shows.pair (hu : isHighSurrogate u = true) (hv : isLowSurrogate v = true)
    (hs : Shows us vs) : Shows (u :: v :: us) (u :: v :: vs) := by
  have hfirst : ¬LoneAt (u :: v :: us) 0 := by
    rw [loneAt_zero]
    rintro (⟨-, hnext⟩ | hlow)
    · exact Bool.false_ne_true ((hnext v rfl).symm.trans hv)
    · exact not_high_and_low hu hlow
  have hsecond : ¬LoneAt (u :: v :: us) 1 := by
    rintro ⟨w, ⟨⟩, ⟨hhigh, -⟩ | ⟨-, hprevious⟩⟩
    · exact not_high_and_low hhigh hv
    · exact Bool.false_ne_true ((hprevious u 0 rfl rfl).symm.trans hu)
  rintro (- | - | i)
  · exact ⟨fun hlone => absurd hlone hfirst, fun _ => rfl⟩
  · exact ⟨fun hlone => absurd hlone hsecond, fun _ => rfl⟩
  · rw [loneAt_succ_succ, loneAt_succ fun hhigh => (not_high_and_low hhigh hv).elim]
    exact hs i

/-- **Units are shown code point by code point.** -/
theorem shows_flatMap (us : List UInt16) : Shows us ((pointsOf us).flatMap shownUnits) := by
  induction us using pointsOf.induct with
  | case1 => exact fun i => ⟨fun hlone => absurd hlone not_loneAt_nil, fun _ => rfl⟩
  | case2 u =>
    have hnil : Shows [] [] := fun i => ⟨fun hlone => absurd hlone not_loneAt_nil, fun _ => rfl⟩
    exact hnil.cons (by rintro - v ⟨⟩)
  | case3 u v rest h ih =>
    obtain ⟨hu, hv⟩ := Bool.and_eq_true_iff.mp h
    have hpair : shownUnits (surrogatePair u v) = [u, v] := by
      have hlarge := (surrogatePair_bounds hu hv).1
      rw [shownUnits, pointUnits_surrogatePair hu hv, if_neg]
      rw [isSurrogatePoint_iff]
      omega
    rw [pointsOf_cons_pair hu hv, List.flatMap_cons, hpair]
    exact ih.pair hu hv
  | case4 u v rest h ih =>
    have hunpaired : isHighSurrogate u = true →
        ∀ w ∈ (v :: rest).head?, isLowSurrogate w = false := by
      intro hhigh w hw
      cases hw
      rw [hhigh, Bool.true_and] at h
      exact Bool.eq_false_iff.mpr h
    rw [pointsOf_cons hunpaired, List.flatMap_cons]
    exact ih.cons hunpaired

/-- A character stands for each code point. -/
theorem pointUnits_charOfPoint (hp : p < 0x110000) :
    pointUnits (Text.charOfPoint p).toNat = shownUnits p := by
  rw [Text.charOfPoint, shownUnits]
  split
  next => rfl
  next h => rw [toNat_ofNat hp (Bool.eq_false_iff.mpr h)]

/-- Readers see U+FFFD at an offset. -/
def IsReplacedAt (us : List UInt16) (i : Nat) : Prop := LoneAt us i ∨ us[i]? = some replacement

/-- Where lists are the same, and the rest is replaced, they have the same lone surrogates. -/
theorem LoneAt.of_eq
    (h : ∀ j, us[j]? = vs[j]? ∨ (IsReplacedAt us j ∧ IsReplacedAt vs j))
    (hlone : LoneAt us i) (hi : us[i]? = vs[i]?) : LoneAt vs i := by
  have hreplacement : isHighSurrogate replacement = false ∧ isLowSurrogate replacement = false := by
    decide
  -- A half that is lone in one list only has its other half at the next or the previous offset of the
  -- other list, where the lists differ; but there nothing is replaced.
  obtain ⟨u, hu, ⟨hhigh, hnext⟩ | ⟨hlow, hprevious⟩⟩ := hlone
  · refine ⟨u, hi ▸ hu, .inl ⟨hhigh, fun v hv => ?_⟩⟩
    obtain heq | ⟨-, ⟨w, hw, ⟨hother, -⟩ | ⟨-, hbefore⟩⟩ | hreplaced⟩ := h (i + 1)
    · exact hnext v (heq.trans hv)
    · cases hw.symm.trans hv
      exact Bool.eq_false_iff.mpr fun hlow => not_high_and_low hother hlow
    · exact absurd hhigh (Bool.eq_false_iff.mp (hbefore u i rfl (hi ▸ hu)))
    · cases hreplaced.symm.trans hv
      exact hreplacement.2
  · refine ⟨u, hi ▸ hu, .inr ⟨hlow, fun v j hj hv => ?_⟩⟩
    subst hj
    obtain heq | ⟨-, ⟨w, hw, ⟨-, hbehind⟩ | ⟨hother, -⟩⟩ | hreplaced⟩ := h j
    · exact hprevious v j rfl (heq.trans hv)
    · exact absurd hlow (Bool.eq_false_iff.mp (hbehind u (hi ▸ hu)))
    · cases hw.symm.trans hv
      exact Bool.eq_false_iff.mpr fun hhigh => not_high_and_low hhigh hother
    · cases hreplaced.symm.trans hv
      exact hreplacement.1

theorem Shows.getElem?_iff (h : Shows us vs) :
    vs[i]? = some replacement ↔ IsReplacedAt us i := by
  by_cases hlone : LoneAt us i
  · exact iff_of_true ((h i).1 hlone) (.inl hlone)
  · rw [(h i).2 hlone, IsReplacedAt, or_iff_right hlone]

/-- Lists are shown alike if they differ only where readers see U+FFFD. -/
theorem Shows.eq_iff {us' vs' : List UInt16} (hs : Shows us us') (ht : Shows vs vs') :
    us' = vs' ↔ ∀ i, us[i]? = vs[i]? ∨ (IsReplacedAt us i ∧ IsReplacedAt vs i) := by
  constructor
  · rintro rfl i
    by_cases hreplaced : IsReplacedAt us i
    · exact .inr ⟨hreplaced, ht.getElem?_iff.mp (hs.getElem?_iff.mpr hreplaced)⟩
    · have hother : ¬IsReplacedAt vs i := fun h =>
        hreplaced (hs.getElem?_iff.mp (ht.getElem?_iff.mpr h))
      have hus := (hs i).2 fun h => hreplaced (.inl h)
      have hvs := (ht i).2 fun h => hother (.inl h)
      exact .inl (hus.symm.trans hvs)
  · intro h
    refine List.ext_getElem? fun i => ?_
    obtain heq | ⟨hus, hvs⟩ := h i
    · by_cases hlone : LoneAt us i
      · rw [(hs i).1 hlone, (ht i).1 (hlone.of_eq h heq)]
      · have hother : ¬LoneAt vs i := fun hvs =>
          hlone (hvs.of_eq (fun j => (h j).imp Eq.symm And.symm) heq.symm)
        rw [(hs i).2 hlone, (ht i).2 hother, heq]
    · rw [hs.getElem?_iff.mpr hus, ht.getElem?_iff.mpr hvs]

end Units

/-! ### Texts -/

namespace Text

/-- The text as readers see it. -/
def shown (t : Text) : Text := ofString t.toString

/-- The texts differ only where readers see U+FFFD. -/
def LooksLike (s t : Text) : Prop :=
  ∀ i, s.unitAt? i = t.unitAt? i ∨
    (IsReplacedAt s.units.toList i ∧ IsReplacedAt t.units.toList i)

section Shown

variable {s t : Text} {i : Nat}

theorem units_shown (t : Text) :
    t.shown.units.toList = (pointsOf t.units.toList).flatMap shownUnits := by
  rw [shown, units_ofString, toList_toString, toList_codePoints, charUnits, List.flatMap_map]
  exact List.flatMap_congr fun p hp => pointUnits_charOfPoint (pointsOf_lt _ p hp)

theorem shows_shown (t : Text) : Shows t.units.toList t.shown.units.toList := by
  rw [units_shown]
  exact shows_flatMap t.units.toList

theorem unitAt?_eq (t : Text) (i : Nat) : t.unitAt? i = t.units.toList[i]? :=
  Array.getElem?_toList.symm

/-- **Units that are no lone surrogates are shown as they are.** -/
theorem unitAt?_shown (t : Text) (i : Nat) :
    (LoneAt t.units.toList i → t.shown.unitAt? i = some replacement) ∧
      (¬LoneAt t.units.toList i → t.shown.unitAt? i = t.unitAt? i) := by
  rw [unitAt?_eq, unitAt?_eq]
  exact t.shows_shown i

/-- Texts that look alike are shown alike. -/
theorem shown_eq_iff : s.shown = t.shown ↔ s.LooksLike t := by
  simp only [eq_iff_units, LooksLike, unitAt?_eq]
  exact s.shows_shown.eq_iff t.shows_shown

/-- Nothing is lost if all surrogates are paired. -/
theorem shown_eq_self_iff : t.shown = t ↔ t.isWellFormed = true := by
  rw [isWellFormed_iff, eq_iff_units]
  constructor
  · intro h i hlone
    have hreplaced := (t.shows_shown i).1 hlone
    rw [h] at hreplaced
    obtain ⟨u, hu, hhalf⟩ := hlone
    cases hu.symm.trans hreplaced
    have hno : isHighSurrogate replacement = false ∧ isLowSurrogate replacement = false := by decide
    rw [hno.1, hno.2] at hhalf
    exact hhalf.elim (fun h => Bool.false_ne_true h.1) fun h => Bool.false_ne_true h.1
  · exact fun h => List.ext_getElem? fun i => (t.shows_shown i).2 (h i)

theorem length_shown (t : Text) : t.shown.length = t.length := by
  have hpoint : ∀ p, (shownUnits p).length = (pointUnits p).length := by
    intro p
    rw [shownUnits]
    split
    next h =>
      rw [pointUnits_of_lt]
      · rfl
      · rw [isSurrogatePoint_iff] at h
        omega
    next => rfl
  rw [length, ← Array.length_toList, units_shown, List.length_flatMap, length,
    ← Array.length_toList, ← flatMap_pointsOf t.units.toList, List.length_flatMap,
    flatMap_pointsOf, List.map_congr_left fun p _ => hpoint p]

theorem ofString_append (s t : String) : ofString (s ++ t) = ofString s ++ ofString t := by
  rw [eq_iff_units, toList_append, units_ofString, units_ofString, units_ofString,
    String.toList_append]
  exact List.flatMap_append

/-- Texts of the same lengths make the same text only if they are the same. -/
theorem append_inj {s t s' t' : Text} (hlength : s.length = s'.length) :
    s ++ t = s' ++ t' ↔ s = s' ∧ t = t' := by
  constructor
  · intro h
    rw [eq_iff_units, toList_append, toList_append] at h
    obtain ⟨hs, ht⟩ := List.append_inj h hlength
    exact ⟨eq_iff_units.mpr hs, eq_iff_units.mpr ht⟩
  · rintro ⟨rfl, rfl⟩
    rfl

/-- Two texts with something between them are shown as they are if both are. -/
theorem shown_append_iff {n k r : Text} : n.shown ++ r ++ k.shown = n ++ r ++ k ↔
    n.isWellFormed = true ∧ k.isWellFormed = true := by
  have hlength : (n.shown ++ r).length = (n ++ r).length := by
    rw [length_append, length_append, length_shown]
  rw [append_inj hlength, append_inj n.length_shown, and_iff_left rfl, shown_eq_self_iff,
    shown_eq_self_iff]

/-- A text between two others is shown as it is if it is so by itself. -/
theorem append_shown_iff {r d r' : Text} : r ++ d.shown ++ r' = r ++ d ++ r' ↔
    d.isWellFormed = true := by
  have hlength : (r ++ d.shown).length = (r ++ d).length := by
    rw [length_append, length_append, length_shown]
  rw [append_inj hlength, append_inj rfl, and_iff_left rfl, and_iff_right rfl, shown_eq_self_iff]

/-- The text of a symbol has what readers see of its description. -/
theorem ofString_display (s : Symbol) :
    ofString s.display = "Symbol(" ++ (s.description.getD .empty).shown ++ ")" := by
  rw [Symbol.display, ofString_append, ofString_append]
  rfl

end Shown

end Text

/-! ### Errors and symbols -/

namespace Machine

variable {m : Machine} {o : ObjectId} {a b c : Agent} {name message : Text}

/-- The parts of the text of an error are its name and its message as readers see them, unless one of
them is empty. -/
theorem errorToString_parts (hname : m.errorPart o "name" "Error" a = .ok name b)
    (hmessage : m.errorPart o "message" .empty b = .ok message c) :
    m.errorToString (.object o) a = .ok (.text (if name.isEmpty then message
      else if message.isEmpty then name else name.shown ++ ": " ++ message.shown)) c := by
  have htext : m.errorText o a = .ok (if name.isEmpty then message
      else if message.isEmpty then name else name.shown ++ ": " ++ message.shown) c := by
    unfold errorText
    rw [bind_ok hname, bind_ok hmessage, Text.ofString_append, Text.ofString_append]
    rfl
  exact bind_ok htext

/-- The own property of an error comes before what all errors have. -/
theorem errorPart_own {key : String} {missing t : Text}
    (h : (a.object o).ownValue? key = some (.text t)) : m.errorPart o key missing a = .ok t a := by
  unfold errorPart
  rw [bind_ok (getFrom_own h)]
  rfl

/-- An error without a name of its own has that of its kind. -/
theorem errorPart_name {kind : ErrorKind} {missing : Text} (hkind : (a.object o).kind = .error kind)
    (hown : (a.object o).ownValue? "name" = none) :
    m.errorPart o "name" missing a = .ok kind.name a := by
  have hfeature : (a.object o).feature? "name" = some (.ofString kind.name) := by
    have hnamed : ("name" : PropertyKey).isNamed "name" = true := by decide +kernel
    rw [Object.feature?, hkind, hnamed]
    rfl
  have hread : getFrom o "name" a = .ok (.ofString kind.name) a := by
    have hobject : Eval.object o a = .ok (a.object o) a := rfl
    have hcommon : common? (.object o) "name" a = .ok (some (.ofString kind.name)) a := by
      have hget : (get : Eval Agent) a = .ok a a := rfl
      unfold common?
      rw [bind_ok hget, Agent.feature?, hfeature]
      rfl
    unfold getFrom
    rw [bind_ok hobject, hown]
    exact bind_ok hcommon
  unfold errorPart
  rw [bind_ok hread]
  rfl

end Machine

/-- **What the texts of errors and symbols say.**  Of a name and a message that are not empty, and of
the description of a symbol, they say what readers see, which is all there is exactly if all surrogates
are paired.  So texts that differ only inside lone surrogates make the same text there. -/
theorem errors_and_symbols_shown (m : Machine) :
    (∀ {o a b c name message}, m.errorPart o "name" "Error" a = .ok name b →
      m.errorPart o "message" .empty b = .ok message c → ∀ args,
      ∃ t, m.callBuiltin .errorToString (.object o) args a = .ok (.text t) c ∧
        (name = .empty → t = message) ∧ (message = .empty → t = name) ∧
        (name ≠ .empty → message ≠ .empty → t = name.shown ++ ": " ++ message.shown ∧
          (t = name ++ ": " ++ message ↔
            name.isWellFormed = true ∧ message.isWellFormed = true))) ∧
    (∀ (s : Symbol) args, ∃ t,
      m.callBuiltin (.constructor .string) .undefined (.symbol s :: args) = pure (.text t) ∧
      t = "Symbol(" ++ (s.description.getD .empty).shown ++ ")" ∧
      (t = "Symbol(" ++ s.description.getD .empty ++ ")" ↔
        (s.description.getD .empty).isWellFormed = true)) ∧
    (∀ (t : Text) i,
      (LoneAt t.units.toList i → t.shown.unitAt? i = some replacement) ∧
      (¬LoneAt t.units.toList i → t.shown.unitAt? i = t.unitAt? i)) ∧
    ∀ s t : Text, s.shown = t.shown ↔ s.LooksLike t := by
  refine ⟨fun {o a b c name message} hname hmessage args => ?_, fun s args => ?_,
    Text.unitAt?_shown, fun s t => Text.shown_eq_iff⟩
  · have htext := m.errorToString_parts hname hmessage
    refine ⟨_, htext, ?_, ?_, ?_⟩
    · rintro rfl
      rfl
    · rintro rfl
      split
      next h => exact (Text.isEmpty_iff.mp h).symm
      next => rfl
    · intro hn hk
      rw [if_neg (Text.isEmpty_iff.not.mpr hn), if_neg (Text.isEmpty_iff.not.mpr hk)]
      exact ⟨rfl, Text.shown_append_iff⟩
  · refine ⟨_, rfl, Text.ofString_display s, ?_⟩
    rw [Text.ofString_display]
    exact Text.append_shown_iff

/-- An agent with an error that has the message. -/
def Agent.failing (message : Text) : Agent :=
  { Agent.empty with
    objects := #[⟨.error .error, true, #[.hidden "message" (.text message)]⟩] }

theorem Machine.errorPart_failing (m : Machine) (message : Text) :
    m.errorPart ⟨0⟩ "name" "Error" (.failing message) = .ok "Error" (.failing message) ∧
    m.errorPart ⟨0⟩ "message" .empty (.failing message) = .ok message (.failing message) := by
  have hother : (("message" : PropertyKey) == "name") = false := by decide +kernel
  have hown : ((Agent.failing message).object ⟨0⟩).ownValue? "name" = none := by
    change ((#[Slot.hidden "message" (.text message)].find? (·.key == .text "name")).map _) = none
    rw [Array.find?_singleton, Slot.hidden, hother]
    rfl
  have hmessage : ((Agent.failing message).object ⟨0⟩).ownValue? "message"
      = some (.text message) := by
    change ((#[Slot.hidden "message" (.text message)].find? (·.key == .text "message")).map _) = _
    rw [Array.find?_singleton, Slot.hidden, if_pos (beq_self_eq_true _)]
    rfl
  exact ⟨errorPart_name rfl hown, errorPart_own hmessage⟩

/-- An error with a lone surrogate in its message has the text of one with U+FFFD there. -/
theorem errors_and_symbols_shown_message : ∃ t,
    (Machine.ofDepth 0).callBuiltin .errorToString (.object ⟨0⟩) [] (.failing ⟨#[0xD800]⟩)
      = .ok (.text t) (.failing ⟨#[0xD800]⟩) ∧ t = "Error: \uFFFD" := by
  obtain ⟨hname, hmessage⟩ := (Machine.ofDepth 0).errorPart_failing ⟨#[0xD800]⟩
  obtain ⟨t, ht, -, -, htext⟩ := (errors_and_symbols_shown (.ofDepth 0)).1 hname hmessage []
  refine ⟨t, ht, ?_⟩
  rw [(htext (by decide +kernel) (by decide +kernel)).1]
  decide +kernel

/-- The text of an error has not the lone surrogate of the message, and it is that of an error with
another one. -/
theorem error_hides_surrogate :
    let m := Machine.ofDepth 0
    let message : Text := ⟨#[0xD800]⟩
    (m.errorPart ⟨0⟩ "name" "Error").run' (.failing message) = some (Text.ofString "Error") ∧
      (m.errorPart ⟨0⟩ "message" .empty).run' (.failing message) = some message ∧
      (m.errorText ⟨0⟩).run' (.failing message) ≠ some ("Error" ++ ": " ++ message) ∧
      (m.errorText ⟨0⟩).run' (.failing message)
        = (m.errorText ⟨0⟩).run' (.failing ⟨#[0xDC00]⟩) := by
  decide +kernel

end Scriptlet
