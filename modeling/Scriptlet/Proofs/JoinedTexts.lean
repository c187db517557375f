import Scriptlet.Proofs.ConversionMethods
import Scriptlet.Proofs.Drawings

/-!
# The text of an array

An array is joined to a text by converting its elements, and those that are arrays are joined in
their turn.  Arrays may hold each other in circles; an array inside itself reads as nothing, so that
the joining comes to an end.  As long as no function of a program is called on the way, what comes of
it is a matter of the objects alone, and it is said here without a computation.

## Main definitions

* `Text.intercalate` — texts with a separator between them.
* `Agent.Reads`, `Agent.Joins` — what values inside the arrays of a path read as, and arrays.
* `Agent.IsPlainFrom` — there is nothing in an array, or in those inside it, that has to be called.
* `Eval.Spells` — computations of a text that may be too long, or that a symbol may stand in for.

## Main results

* `joinIndices_spells` — what comes of joining, given what comes of the elements.
* `joinIndices_fits` — **a text that is put together is not too long**.
* `join_spells` — **joining comes to an end in every heap**, with the text that the objects say.
-/

namespace Scriptlet

open Eval

/-! ### Texts with a separator between them -/

namespace Text

/-- Texts with a separator between them. -/
def intercalate (separator : Text) (ts : List Text) : Text :=
  .ofUnits (separator.units.toList.intercalate (ts.map (·.units.toList)))

variable {s t u : Text}

theorem toList_append (s t : Text) : (s ++ t).units.toList = s.units.toList ++ t.units.toList :=
  Array.toList_append

theorem length_append (s t : Text) : (s ++ t).length = s.length + t.length := Array.size_append

theorem append_empty (t : Text) : t ++ .empty = t :=
  eq_iff_units.mpr ((toList_append t .empty).trans (List.append_nil _))

theorem intercalate_singleton (separator t : Text) : intercalate separator [t] = t := by
  rw [eq_iff_units, intercalate, List.map_singleton, List.intercalate_singleton]
  rfl

theorem intercalate_cons_cons (separator s t : Text) (ts : List Text) :
    intercalate separator (s :: t :: ts) = s ++ separator ++ intercalate separator (t :: ts) := by
  rw [eq_iff_units, toList_append, toList_append]
  exact List.intercalate_cons_cons

/-- A text with a separator behind it, unless it is in front of the first index. -/
def separated (s separator : Text) (k : Nat) : Text := if k = 0 then s else s ++ separator

/-- A text is continued by texts for the given number of indices from one on, with a separator in
front of each but the first of all. -/
def Continues (separator : Text) (reads : Nat → Text → Prop) : Nat → Nat → Text → Text → Prop
  | 0, _, s, t => t = s
  | count + 1, k, s, t =>
    ∃ u, reads k u ∧ Continues separator reads count (k + 1) (s.separated separator k ++ u) t

section

variable {separator : Text} {reads : Nat → Text → Prop} {count k length : Nat}

/-- What continues a text is at least as long as this and the separators. -/
theorem Continues.length_le (h : Continues separator reads count k s t) :
    s.length + (k + count - max k 1) * separator.length ≤ t.length := by
  induction count generalizing k s with
  | zero =>
    rw [show t = s from h, Nat.add_zero, Nat.sub_eq_zero_of_le (Nat.le_max_left k 1), Nat.zero_mul]
    exact Nat.le_refl _
  | succ count ih =>
    obtain ⟨u, -, hrest⟩ := h
    refine Nat.le_trans ?_ (ih hrest)
    rw [length_append, separated, Nat.max_eq_left (Nat.le_add_left 1 k)]
    split
    · next hk =>
      subst hk
      have hcount : 0 + (count + 1) - max 0 1 = 0 + 1 + count - (0 + 1) := by omega
      rw [hcount]
      omega
    · next hk =>
      have hcount : k + (count + 1) - max k 1 = 1 + (k + 1 + count - (k + 1)) := by omega
      rw [hcount, Nat.add_mul, Nat.one_mul, length_append]
      omega

/-- The units that texts for some indices add, with a separator in front of each but the first of all. -/
def added (separator : Text) (texts : Nat → Text) (i : Nat) : List UInt16 :=
  (if i = 0 then [] else separator.units.toList) ++ (texts i).units.toList

theorem toList_separate (separator : Text) (texts : Nat → Text) (k : Nat) (s : Text) :
    (s.separated separator k ++ texts k).units.toList
      = s.units.toList ++ added separator texts k := by
  rw [toList_append, added, separated]
  split
  · rw [List.nil_append]
  · rw [toList_append, List.append_assoc]

theorem continues_iff_added : Continues separator reads count k s t ↔
    ∃ texts : Nat → Text, (∀ i, k ≤ i → i < k + count → reads i (texts i)) ∧
      t.units.toList = s.units.toList ++ (List.range' k count).flatMap (added separator texts) := by
  induction count generalizing k s with
  | zero =>
    simp only [List.range'_zero, List.flatMap_nil, List.append_nil, ← eq_iff_units]
    exact ⟨fun h => ⟨fun _ => .empty, fun i hi hlt => absurd hlt (Nat.not_lt_of_le hi), h⟩,
      fun ⟨_, _, h⟩ => h⟩
  | succ count ih =>
    -- The text at the first place is put in front of those read behind it.
    constructor
    · rintro ⟨u, hu, hrest⟩
      obtain ⟨texts, hreads, ht⟩ := ih.mp hrest
      let texts' := Function.update texts k u
      have hsame : ∀ i, k + 1 ≤ i → texts' i = texts i := fun i hi =>
        Function.update_of_ne (Nat.ne_of_gt hi) u texts
      have hfirst : texts' k = u := Function.update_self k u texts
      refine ⟨texts', fun i hi hlt => ?_, ?_⟩
      · rcases Nat.eq_or_lt_of_le hi with rfl | hgt
        · rwa [hfirst]
        · rw [hsame i hgt]
          exact hreads i hgt (by omega)
      · have hrest : (List.range' (k + 1) count).flatMap (added separator texts)
            = (List.range' (k + 1) count).flatMap (added separator texts') :=
          List.flatMap_congr fun i hi => by rw [added, added, hsame i (List.mem_range'_1.mp hi).1]
        rw [ht, ← hfirst, toList_separate, hrest, List.range'_succ, List.flatMap_cons, List.append_assoc]
    · rintro ⟨texts, hreads, ht⟩
      refine ⟨texts k, hreads k (Nat.le_refl k) (by omega), ih.mpr ⟨texts, fun i hi hlt =>
        hreads i (Nat.le_of_succ_le hi) (by omega), ?_⟩⟩
      rw [ht, toList_separate, List.range'_succ, List.flatMap_cons, List.append_assoc]

theorem toList_intercalate_cons (separator : Text) (u : Text) (ts : List Text) :
    (intercalate separator (u :: ts)).units.toList
      = u.units.toList ++ ts.flatMap fun t => separator.units.toList ++ t.units.toList := by
  induction ts generalizing u with
  | nil => rw [intercalate_singleton, List.flatMap_nil, List.append_nil]
  | cons t ts ih =>
    rw [intercalate_cons_cons, toList_append, toList_append, ih, List.flatMap_cons, List.append_assoc,
      List.append_assoc]

/-- **Texts for all indices are put together with separators between them.** -/
theorem continues_iff : Continues separator reads length 0 .empty t ↔
    ∃ texts : Nat → Text, (∀ i, i < length → reads i (texts i)) ∧
      t = intercalate separator ((List.range length).map texts) := by
  have hunits : ∀ texts : Nat → Text,
      (List.range' 0 length).flatMap (added separator texts)
        = (intercalate separator ((List.range length).map texts)).units.toList := by
    intro texts
    rw [List.range_eq_range']
    cases length with
    | zero => rfl
    | succ n =>
      rw [List.range'_succ, List.map_cons, toList_intercalate_cons, List.flatMap_cons, List.flatMap_map]
      refine congrArg₂ _ rfl (List.flatMap_congr fun i hi => ?_)
      rw [added, if_neg (Nat.ne_of_gt (List.mem_range'_1.mp hi).1)]
  rw [continues_iff_added]
  refine exists_congr fun texts => ?_
  rw [Nat.zero_add, hunits, eq_iff_units]
  exact and_congr_left fun _ => ⟨fun h i => h i (Nat.zero_le i), fun h i _ => h i⟩

end

end Text

/-! ### What comes of joining -/

/-- The agent while the arrays of a path are joined. -/
def Agent.withJoining (a : Agent) (path : List ObjectId) : Agent := { a with joining := path }

/-- The element of an array at an index; undefined where none is. -/
def Agent.elementAt (a : Agent) (id : ObjectId) (i : Nat) : Value :=
  ((a.elements id).get? i).getD .undefined

/-- What comes of a computation of a text, if all that can be wrong with it is that it is too long or
that there is none because of a symbol. -/
inductive Eval.Spells (p : Eval Text) (a : Agent) (reads : Text → Prop) : Prop
  | text (t : Text) (is : reads t) (only : ∀ t', reads t' → t' = t) (result : p a = .ok t a)
  | long (longer : ∀ t, reads t → maxTextLength < t.length) (result : p a = tooLong a)
  | symbol (s : Symbol) (none : ∀ t, ¬reads t) (result : p a = textOf (.symbol s) a)

namespace Eval.Spells

variable {p q : Eval Text} {a b : Agent} {reads reads' : Text → Prop}

theorem congr (h : p.Spells a reads) (hreads : ∀ t, reads' t ↔ reads t) (hp : q a = p a) :
    q.Spells a reads' := by
  cases h with
  | text t is only result =>
    exact .text t ((hreads t).mpr is) (fun t' h' => only t' ((hreads t').mp h')) (hp.trans result)
  | long longer result => exact .long (fun t ht => longer t ((hreads t).mp ht)) (hp.trans result)
  | symbol s none result => exact .symbol s (fun t ht => none t ((hreads t).mp ht)) (hp.trans result)

/-- A text that is known. -/
theorem pure (t : Text) (a : Agent) : (Pure.pure t : Eval Text).Spells a (· = t) :=
  .text t rfl (fun _ h => h) rfl

/-- If a text is part of another one, this one is too long if that is, and is not there if that is
not. -/
theorem bind {f : Text → Eval Text} (h : p.Spells a reads)
    (hpart : ∀ t, reads' t → ∃ u, reads u ∧ u.length ≤ t.length)
    (hrest : ∀ u, reads u → (∀ u', reads u' → u' = u) → (f u).Spells a reads') :
    (p >>= f).Spells a reads' := by
  cases h with
  | text u is only result => exact (hrest u is only).congr (fun _ => Iff.rfl) (bind_ok result)
  | long longer result =>
    refine .long (fun t ht => ?_) (bind_error (result.trans rfl))
    obtain ⟨u, hu, hle⟩ := hpart t ht
    exact Nat.lt_of_lt_of_le (longer u hu) hle
  | symbol s none result =>
    refine .symbol s (fun t ht => ?_) (bind_error (result.trans rfl))
    obtain ⟨u, hu, -⟩ := hpart t ht
    exact none u hu

/-- While an array is joined it is noted, and only then. -/
theorem noting {id : ObjectId} (hid : id ∉ a.joining) (h : p.Spells (a.withJoining (id :: a.joining)) reads) :
    (noting id p).Spells a reads := by
  let after : Agent → Agent := fun b => b.withJoining (b.joining.erase id)
  have hnoting : ∀ q : Eval Text, p (a.withJoining (id :: a.joining)) = q (a.withJoining (id :: a.joining)) →
      Eval.noting id p a = ending q after (a.withJoining (id :: a.joining)) := by
    intro q hq
    unfold Eval.noting
    rw [bind_ok (get_apply a), if_neg fun hmem => hid (List.contains_iff_mem.mp hmem)]
    change ending p after (a.withJoining (id :: a.joining)) = _
    rw [ending, ending, hq]
  have herase : (id :: a.joining).erase id = a.joining := List.erase_cons_head id a.joining
  have hraise : ∀ kind message,
      ending (raise kind message : Eval Text) after (a.withJoining (id :: a.joining)) = raise kind message a :=
    fun kind message => congrArg
      (fun joining => EStateM.Result.error (Interrupt.thrown (.object ⟨a.objects.size⟩))
        ((a.withError kind message).withJoining joining)) herase
  cases h with
  | text t is only result =>
    refine .text t is only ((hnoting (Pure.pure t) result).trans ?_)
    exact congrArg (fun joining => EStateM.Result.ok t (a.withJoining joining)) herase
  | long longer result => exact .long longer ((hnoting _ result).trans (hraise _ _))
  | symbol s none result => exact .symbol s none ((hnoting _ result).trans (hraise _ _))

end Eval.Spells

namespace Machine

/-- What comes of converting a value to a text if a missing one reads as nothing. -/
structure Converts (m : Machine) (a : Agent) (v : Value) (reads : Text → Prop) : Prop where
  nullish : v.isNullish = true → ∀ t, reads t ↔ t = .empty
  spells : v.isNullish = false → (m.toText v).Spells a reads

variable {m : Machine} {a : Agent} {id : ObjectId} {separator s : Text} {reads : Nat → Text → Prop}
  {length count k : Nat}

/-- Where no value is, there is nothing but the separator. -/
theorem lookIndices_joinIndex_nullish (hnullish : (a.elementAt id k).isNullish = true) :
    lookIndices id (m.joinIndex separator length) pure (count + 1) k s a
      = lookIndices id (m.joinIndex separator length) pure count (k + 1)
        (s.separated separator k) a := by
  rw [Agent.elementAt] at hnullish
  rw [lookIndices_succ, joinIndex, if_pos hnullish]
  rfl

/-- Where a value is, its text follows the separator, unless that is too long with all that is still to
come. -/
theorem lookIndices_joinIndex_value (hvalue : (a.elementAt id k).isNullish = false) :
    lookIndices id (m.joinIndex separator length) pure (count + 1) k s a
      = (do
        let u ← m.toText (a.elementAt id k)
        if maxTextLength < (s.separated separator k ++ u).length + (length - 1 - k) * separator.length then
          tooLong
        else
          lookIndices id (m.joinIndex separator length) pure count (k + 1)
            (s.separated separator k ++ u)) a := by
  rw [Agent.elementAt] at hvalue ⊢
  rw [lookIndices_succ, joinIndex, if_neg (ne_true_of_eq_false hvalue), bind_assoc]
  refine bind_congr_ok fun u b _ => ?_
  change ((if maxTextLength < (s.separated separator k ++ u).length + (length - 1 - k) * separator.length
    then tooLong else pure (Sum.inl (s.separated separator k ++ u)) : Eval (Sum Text Text)) >>= _) b = _
  split <;> rfl

theorem lookIndices_spells (hreads : ∀ k, k < length →
      m.Converts a (a.elementAt id k) (reads k))
    (hlength : k + count = length) :
    (lookIndices id (m.joinIndex separator length) pure count k s).Spells a
      (Text.Continues separator reads count k s) := by
  induction count generalizing k s with
  | zero => exact .pure s a
  | succ count ih =>
    have hlt : k < length := by omega
    cases hnullish : (a.elementAt id k).isNullish with
    | true =>
      -- What is nullish is written as nothing, so the text at this place is the empty one.
      have hempty := (hreads k hlt).nullish hnullish
      refine (ih (by omega)).congr (fun t => ?_) (lookIndices_joinIndex_nullish hnullish)
      constructor
      · rintro ⟨u, hu, hrest⟩
        rwa [(hempty u).mp hu, Text.append_empty] at hrest
      · intro hrest
        refine ⟨.empty, (hempty .empty).mpr rfl, ?_⟩
        rwa [Text.append_empty]
    | false =>
      refine (Eval.Spells.bind ((hreads k hlt).spells hnullish) ?_ fun u hu honly => ?_).congr
        (fun _ => Iff.rfl) (lookIndices_joinIndex_value hnullish)
      · rintro t ⟨u, hu, hrest⟩
        have hle := hrest.length_le
        rw [Text.length_append] at hle
        exact ⟨u, hu, by omega⟩
      · have hstep : ∀ t, Text.Continues separator reads (count + 1) k s t ↔
            Text.Continues separator reads count (k + 1) (s.separated separator k ++ u) t :=
          fun t => ⟨fun ⟨u', hu', hrest⟩ => honly u' hu' ▸ hrest, fun hrest => ⟨u, hu, hrest⟩⟩
        split
        · next hlong =>
          refine .long (fun t ht => Nat.lt_of_lt_of_le hlong ?_) rfl
          have hcount : length - 1 - k = k + 1 + count - max (k + 1) 1 := by omega
          rw [hcount]
          exact ((hstep t).mp ht).length_le
        · exact (ih (by omega)).congr hstep rfl

/-- **What comes of joining**, given what comes of the elements: their texts with the separator between
them. -/
theorem joinIndices_spells (hreads : ∀ k, k < length →
      m.Converts a (a.elementAt id k) (reads k)) :
    (m.joinIndices id separator length).Spells a fun t =>
      ∃ texts : Nat → Text, (∀ i, i < length → reads i (texts i)) ∧
        t = .intercalate separator ((List.range length).map texts) := by
  unfold joinIndices
  simp only [← Text.continues_iff]
  split
  · next hlong =>
    refine .long (fun t ht => Nat.lt_of_lt_of_le hlong ?_) rfl
    have hle := ht.length_le
    rw [Nat.zero_add, Nat.zero_max] at hle
    exact Nat.le_trans (Nat.le_add_left _ _) hle
  · exact lookIndices_spells hreads (Nat.zero_add length)

theorem lookIndices_fits {t : Text} {b : Agent} (hlength : k + count = length)
    (hroom : s.length + (length - max k 1) * separator.length ≤ maxTextLength)
    (h : lookIndices id (m.joinIndex separator length) pure count k s a = .ok t b) :
    t.length ≤ maxTextLength := by
  induction count generalizing k s a with
  | zero =>
    cases h
    exact Nat.le_trans (Nat.le_add_right _ _) hroom
  | succ count ih =>
    -- The separator is counted already.
    have hseparated : (s.separated separator k).length
        + (length - max (k + 1) 1) * separator.length ≤ maxTextLength := by
      rw [Text.separated]
      split
      · next hk =>
        rw [hk] at hroom ⊢
        exact hroom
      · have hcount : length - max k 1 = length - max (k + 1) 1 + 1 := by omega
        rw [hcount, Nat.add_mul, Nat.one_mul] at hroom
        rw [Text.length_append]
        omega
    cases hnullish : (a.elementAt id k).isNullish with
    | true =>
      rw [lookIndices_joinIndex_nullish hnullish] at h
      exact ih (by omega) hseparated h
    | false =>
      rw [lookIndices_joinIndex_value hnullish] at h
      obtain ⟨u, c, -, hrest⟩ := bind_eq_ok h
      split at hrest
      · cases hrest
      · next hfits =>
        refine ih (by omega) ?_ hrest
        have hcount : length - max (k + 1) 1 = length - 1 - k := by omega
        rw [hcount]
        exact Nat.le_of_not_lt hfits

/-- **A text that is put together is not too long**, whatever the conversions do. -/
theorem joinIndices_fits {t : Text} {b : Agent} (h : m.joinIndices id separator length a = .ok t b) :
    t.length ≤ maxTextLength := by
  unfold joinIndices at h
  split at h
  · cases h
  · next hroom =>
    refine lookIndices_fits (Nat.zero_add length) ?_ h
    rw [Nat.zero_max, show Text.empty.length = 0 from rfl, Nat.zero_add]
    exact Nat.le_of_not_lt hroom

/-- **A text that an array is joined to is not too long**, whatever the conversions do. -/
theorem join_fits (hm : m.ConversionsMove) (ha : a.IsKeyed) {t : Text} {b : Agent}
    (h : m.join id separator a = .ok t b) : t.length ≤ maxTextLength := by
  rw [join_eq hm ha] at h
  unfold Eval.noting at h
  rw [bind_ok (get_apply a)] at h
  split at h
  · cases h
    exact Nat.zero_le _
  · change ending (m.joinIndices id separator _) _ _ = _ at h
    unfold ending at h
    split at h
    · next hindices =>
      cases h
      exact joinIndices_fits hindices
    · cases h

end Machine

/-! ### What values read as -/

/-- An object is no error and has no method of its own for conversion. -/
structure Object.IsPlain (o : Object) : Prop where
  errorKind : o.errorKind? = none
  text : o.ownValue? "toString" = none
  value : o.ownValue? "valueOf" = none

namespace Agent

/-- What an object reads as, whatever it holds. -/
def closedText? (a : Agent) (o : ObjectId) : Option Text :=
  match (a.object o).kind with
  | .closure _ | .builtin _ => some (.ofString (a.functionSource o))
  | .ordinary => some "[object Object]"
  | .array _ | .error _ => none

/-- What values inside the arrays of a path read as: one for the lack of a value reads as nothing, and
so does an array inside itself; any other array reads as its elements with commas between them. -/
inductive Reads (a : Agent) : List ObjectId → Value → Text → Prop
  | nullish {path : List ObjectId} {v : Value} (isNullish : v.isNullish = true) : Reads a path v .empty
  | plain {path : List ObjectId} {v : Value} {t : Text} (isNullish : v.isNullish = false)
      (toText : v.toText? = some t) : Reads a path v t
  | inside {path : List ObjectId} {o : ObjectId} (isArray : (a.object o).isArray = true) (on : o ∈ path) :
      Reads a path (.object o) .empty
  | array {path : List ObjectId} {o : ObjectId} (isArray : (a.object o).isArray = true) (off : o ∉ path)
      (texts : Nat → Text)
      (reads : ∀ i, i < (a.elements o).length → Reads a (o :: path) (a.elementAt o i) (texts i)) :
      Reads a path (.object o) (.intercalate "," ((List.range (a.elements o).length).map texts))
  | closed {path : List ObjectId} {o : ObjectId} {t : Text} (closed : a.closedText? o = some t) :
      Reads a path (.object o) t

/-- What an array inside the arrays of a path is joined to: what its elements read as, in the order of
their indices, with a separator between them. -/
def Joins (a : Agent) (path : List ObjectId) (o : ObjectId) (separator t : Text) : Prop :=
  ∃ texts : Nat → Text, (∀ i, i < (a.elements o).length → a.Reads (o :: path) (a.elementAt o i) (texts i)) ∧
    t = .intercalate separator ((List.range (a.elements o).length).map texts)

section

variable {a : Agent} {path : List ObjectId} {v : Value} {o : ObjectId} {t : Text}

theorem closedText?_of_isArray (h : (a.object o).isArray = true) : a.closedText? o = none := by
  unfold Object.isArray at h
  unfold closedText?
  cases hkind : (a.object o).kind with
  | array | error => rfl
  | closure | builtin | ordinary =>
    rw [hkind] at h
    cases h

theorem reads_nullish_iff (hv : v.isNullish = true) : a.Reads path v t ↔ t = .empty := by
  constructor
  · intro h
    cases h with
    | nullish _ => rfl
    | plain isNullish _ => cases hv.symm.trans isNullish
    | inside | array | closed => cases hv
  · rintro rfl
    exact .nullish hv

/-- What a value that is no object reads as. -/
theorem reads_plain_iff (hplain : v.isPlain = true) (hv : v.isNullish = false) :
    a.Reads path v t ↔ v.toText? = some t := by
  constructor
  · intro h
    cases h with
    | nullish isNullish => cases hv.symm.trans isNullish
    | plain _ toText => exact toText
    | inside | array | closed => cases hplain
  · exact .plain hv

theorem reads_inside_iff (harray : (a.object o).isArray = true) (hon : o ∈ path) :
    a.Reads path (.object o) t ↔ t = .empty := by
  constructor
  · intro h
    cases h with
    | nullish isNullish => cases isNullish
    | plain _ toText => cases toText
    | inside _ _ => rfl
    | array _ off _ _ => exact absurd hon off
    | closed closed => cases (closedText?_of_isArray harray).symm.trans closed
  · rintro rfl
    exact .inside harray hon

theorem reads_array_iff (harray : (a.object o).isArray = true) (hoff : o ∉ path) :
    a.Reads path (.object o) t ↔ a.Joins path o "," t := by
  constructor
  · intro h
    cases h with
    | nullish isNullish => cases isNullish
    | plain _ toText => cases toText
    | inside _ on => exact absurd on hoff
    | array _ _ texts reads => exact ⟨texts, reads, rfl⟩
    | closed closed => cases (closedText?_of_isArray harray).symm.trans closed
  · rintro ⟨texts, hreads, rfl⟩
    exact .array harray hoff texts hreads

theorem reads_closed_iff {s : Text} (hclosed : a.closedText? o = some s) :
    a.Reads path (.object o) t ↔ t = s := by
  constructor
  · intro h
    cases h with
    | nullish isNullish => cases isNullish
    | plain _ toText => cases toText
    | inside isArray _ => cases (closedText?_of_isArray isArray).symm.trans hclosed
    | array isArray _ _ _ => cases (closedText?_of_isArray isArray).symm.trans hclosed
    | closed closed => exact Option.some.inj (closed.symm.trans hclosed)
  · exact fun ht => ht ▸ .closed hclosed

end

/-- An array has an object as an element. -/
def Holds (a : Agent) (o p : ObjectId) : Prop := ∃ i, a.elementAt o i = .object p

/-- No object that is in an array, or in an array inside it and so on, is an error or has a method of its
own for conversion. -/
def IsPlainFrom (a : Agent) (o : ObjectId) : Prop :=
  ∀ x y, Relation.ReflTransGen a.Holds o x → a.Holds x y → (a.object y).IsPlain

theorem IsPlainFrom.holds {a : Agent} {o p : ObjectId} (h : a.IsPlainFrom o) (hp : a.Holds o p) :
    a.IsPlainFrom p := fun x y hx => h x y (Relation.ReflTransGen.head hp hx)

end Agent

section

variable {a b : Agent} {path : List ObjectId} {o : ObjectId} {n : Nat}

/-- An object without methods of its own is converted to what it contains. -/
theorem toText_object (h : (b.object o).IsPlain) :
    (Machine.ofDepth (n + 1)).toText (.object o) b = (Machine.ofDepth n).contentText o b := by
  have hprimitive : (Machine.ofDepth (n + 1)).toPrimitive (.object o) .text b
      = (do return Value.text (← (Machine.ofDepth n).contentText o) : Eval Value) b :=
    (primitiveOf_common h.text h.value .text).trans (commonText_eq _ o b)
  unfold Machine.toText
  rw [bind_congr_left hprimitive, bind_assoc]
  exact congrFun (bind_pure _) b

/-- An array inside itself is joined to nothing. -/
theorem join_inside (m : Machine) (separator : Text) (h : o ∈ b.joining) :
    m.join o separator b = .ok .empty b := by
  unfold Machine.join
  rw [bind_ok (get_apply b), if_pos (List.contains_iff_mem.mpr h)]
  rfl

theorem contentText_array {m : Machine} (h : (b.object o).isArray = true) :
    m.contentText o b = m.join o "," b := by
  unfold Machine.contentText
  rw [bind_ok (object_apply o b)]
  unfold Object.isArray at h
  split at h
  · next hkind => rw [hkind]
  · cases h

theorem contentText_closed {m : Machine} {t : Text} (h : b.closedText? o = some t) :
    m.contentText o b = .ok t b := by
  unfold Agent.closedText? at h
  unfold Machine.contentText
  rw [bind_ok (object_apply o b)]
  cases hkind : (b.object o).kind with
  | array | error =>
    rw [hkind] at h
    cases h
  | closure | builtin | ordinary =>
    rw [hkind] at h
    cases h
    rfl

/-- **What comes of converting an element**, given what comes of joining arrays. -/
theorem converts_element {v : Value} (hplain : ∀ p, v = .object p → (a.object p).IsPlain)
    (hjoin : ∀ p, v = .object p → p ∉ path →
      ((Machine.ofDepth n).join p ",").Spells (a.withJoining path) (a.Joins path p ",")) :
    (Machine.ofDepth (n + 1)).Converts (a.withJoining path) v (a.Reads path v) := by
  refine ⟨fun hv t => Agent.reads_nullish_iff hv, fun hv => ?_⟩
  -- A value that is converted without running anything has one text, the one that the conversion
  -- gives.
  have hknown : ∀ t, (∀ t', a.Reads path v t' ↔ t' = t) →
      (Machine.ofDepth (n + 1)).toText v (a.withJoining path) = .ok t (a.withJoining path) →
      ((Machine.ofDepth (n + 1)).toText v).Spells (a.withJoining path) (a.Reads path v) :=
    fun t hreads hresult => .text t ((hreads t).mpr rfl) (fun t' => (hreads t').mp) hresult
  cases v with
  | undefined | null => cases hv
  | boolean | number | text =>
    exact hknown _ (fun t' => (Agent.reads_plain_iff rfl hv).trans
      (Option.some_inj.trans eq_comm)) rfl
  | symbol s => exact .symbol s (fun t ht => by cases (Agent.reads_plain_iff rfl hv).mp ht) rfl
  | object p =>
    have hcontent : (Machine.ofDepth (n + 1)).toText (.object p) (a.withJoining path)
        = (Machine.ofDepth n).contentText p (a.withJoining path) :=
      toText_object (b := a.withJoining path) (hplain p rfl)
    cases hclosed : a.closedText? p with
    | some t =>
      exact hknown t (fun t' => Agent.reads_closed_iff hclosed)
        (hcontent.trans (contentText_closed (b := a.withJoining path) hclosed))
    | none =>
      have harray : (a.object p).isArray = true := by
        have herror := (hplain p rfl).errorKind
        unfold Agent.closedText? at hclosed
        unfold Object.errorKind? at herror
        unfold Object.isArray
        cases hkind : (a.object p).kind <;> simp_all
      have hjoined := hcontent.trans (contentText_array (b := a.withJoining path) harray)
      -- An array that is being joined already is written as nothing.
      by_cases hon : p ∈ path
      · exact hknown .empty (fun t' => Agent.reads_inside_iff harray hon)
          (hjoined.trans (join_inside _ "," hon))
      · exact (hjoin p rfl hon).congr (fun t => Agent.reads_array_iff harray hon) hjoined

/-- An array with elements is an object, so that going into it leaves fewer objects to go into. -/
theorem off_cons_of_elements {i : Nat} (hi : i < (a.elements o).length) (hoff : o ∉ path) :
    a.off (o :: path) < a.off path := by
  refine Agent.off_cons (Agent.lt_of_object fun hempty => ?_) hoff
  rw [Agent.elements, hempty] at hi
  exact absurd hi (Nat.not_lt_zero i)

variable (ha : a.IsKeyed)

include ha

/-- What comes of joining an array, if its elements are converted to what they read as. -/
theorem spells_join (hoff : o ∉ path) (separator : Text)
    (hreads : ∀ i, i < (a.elements o).length → (Machine.ofDepth n).Converts (a.withJoining (o :: path))
      (a.elementAt o i) (a.Reads (o :: path) (a.elementAt o i))) :
    ((Machine.ofDepth n).join o separator).Spells (a.withJoining path) (a.Joins path o separator) := by
  have hkeyed : (a.withJoining path).IsKeyed := ha
  exact (Eval.Spells.noting hoff (Machine.joinIndices_spells hreads)).congr (fun _ => Iff.rfl)
    (join_eq (fun o hint => moves_run n (.primitive o hint)) hkeyed separator)

/-- **What comes of joining an array**, with a machine that is high enough for all objects off the
path: going into an array leaves fewer of them. -/
theorem spells_join_of_off (hplain : a.IsPlainFrom o) (hoff : o ∉ path) (hn : a.off path ≤ n)
    (separator : Text) :
    ((Machine.ofDepth n).join o separator).Spells (a.withJoining path) (a.Joins path o separator) := by
  induction n generalizing path o separator with
  | zero => exact spells_join ha hoff separator fun i hi =>
      absurd (Nat.lt_of_lt_of_le (off_cons_of_elements hi hoff) hn) (Nat.not_lt_zero _)
  | succ n ih =>
    refine spells_join ha hoff separator fun i hi => ?_
    have hless : a.off (o :: path) ≤ n :=
      Nat.le_of_lt_succ (Nat.lt_of_lt_of_le (off_cons_of_elements hi hoff) hn)
    exact converts_element (fun p hp => hplain o p .refl ⟨i, hp⟩) fun p hp hpath =>
      ih (hplain.holds ⟨i, hp⟩) hpath hless ","

end

/-- **Joining comes to an end in every heap** in which no function of a program is called on the way,
with circles and without.  An array that is being joined has no text.  Any other is joined to what its
elements read as, in the order of their indices with the separator between them, unless that is too
long, or a symbol is there that cannot be converted; and what comes of it is determined.  What is being
joined is the same afterwards, whatever comes of it.  All that is assumed is that the objects are in
order, as they are in whatever agent there is, and that the machine is as high as there are objects. -/
theorem join_spells :
    (∀ (n : Nat) (a : Agent) (o : ObjectId) (separator : Text), a.IsKeyed → a.IsPlainFrom o →
      a.objects.size ≤ n →
      let p := (Machine.ofDepth n).join o separator
      (o ∈ a.joining → p a = .ok .empty a) ∧
      (o ∉ a.joining → p.Spells a (a.Joins a.joining o separator)) ∧
      (∀ t b, p a = .ok t b → t.length ≤ maxTextLength) ∧
      (p.after a).joining = a.joining) ∧
    ∀ (n : Nat) (isVerbose : Bool) (requests : List (Request × Tidying)),
      (Agent.ofRequests n isVerbose requests).IsKeyed := by
  refine ⟨fun n a o separator ha hplain hn => ?_, isKeyed_ofRequests⟩
  have hinside : o ∈ a.joining → (Machine.ofDepth n).join o separator a = .ok .empty a :=
    join_inside _ separator
  have hspells : o ∉ a.joining →
      ((Machine.ofDepth n).join o separator).Spells a (a.Joins a.joining o separator) :=
    fun hoff => spells_join_of_off ha hplain hoff (Nat.le_trans (a.off_le a.joining) hn) separator
  have hmove : (Machine.ofDepth n).ConversionsMove := fun o hint => moves_run n (.primitive o hint)
  refine ⟨hinside, hspells, fun t b => Machine.join_fits hmove ha, ?_⟩
  · by_cases hon : o ∈ a.joining
    · rw [after_ok (hinside hon)]
    · cases hspells hon with
      | text t _ _ result => rw [after_ok result]
      | long _ result => rw [after_congr result]; rfl
      | symbol s _ result => rw [after_congr result]; rfl

theorem Agent.isPlain_tangled (o : ObjectId) : (Agent.tangled.object o).IsPlain := by
  have hplain : ∀ x : Object, x.errorKind?.isNone = true ∧ (x.ownValue? "toString").isNone = true ∧
      (x.ownValue? "valueOf").isNone = true → x.IsPlain := fun x ⟨herror, htext, hvalue⟩ =>
    ⟨Option.isNone_iff_eq_none.mp herror, Option.isNone_iff_eq_none.mp htext,
      Option.isNone_iff_eq_none.mp hvalue⟩
  obtain ⟨_ | _ | i⟩ := o
  · exact hplain _ (by decide +kernel)
  · exact hplain _ (by decide +kernel)
  · exact ⟨rfl, rfl, rfl⟩

/-- An array inside itself reads as nothing, and what it holds twice reads the same twice. -/
theorem join_spells_tangled :
    let p := (Machine.ofDepth 2).join ⟨0⟩ ","
    Agent.tangled.IsKeyed ∧ Agent.tangled.IsPlainFrom ⟨0⟩ ∧ Agent.tangled.objects.size ≤ 2 ∧
      p.Spells .tangled (Agent.tangled.Joins [] ⟨0⟩ ",") ∧
      (p.run' .tangled).any (·.isString "[object Object],,[object Object],") = true := by
  have hplain : Agent.tangled.IsPlainFrom ⟨0⟩ := fun _ y _ _ => Agent.isPlain_tangled y
  have hspells := join_spells.1 2 .tangled ⟨0⟩ "," Agent.isKeyed_tangled hplain (Nat.le_refl 2)
  exact ⟨Agent.isKeyed_tangled, hplain, Nat.le_refl 2, hspells.2.1 List.not_mem_nil, by decide +kernel⟩

end Scriptlet
