import Scriptlet.Proofs.JoinedTexts
import Scriptlet.Proofs.Sessions
import Scriptlet.Proofs.Slices
import Scriptlet.Proofs.Templates
import Scriptlet.Proofs.WholeNumbers

/-!
# Splitting texts, and joining the pieces

A text is split where a separator stands: at the first place, then at the first place behind that, and
so on.  Separators that overlap are not found twice, and a separator may cut a pair of surrogates in
two.  Whatever the separator is, the pieces with it between them are the text again, as texts are
sequences of code units and nothing else; and no piece has the separator in it.

## Main definitions

* `Text.Cuts` — the pieces of a text from an offset on, found one after the other.
* `Text.splitUpTo` — a search that stops as soon as it has as many pieces as are asked for.
* `Condition.joinable` — what is being joined is there.

## Main results

* `Text.cuts_splitFrom` — **the search comes to an end by itself**.
* `Text.intercalate_split`, `Text.not_standsAt_split` — **the pieces with the separator between them are
  the text**, and no piece has the separator in it.
* `split_join` — the methods.
-/

namespace Scriptlet

open Eval

namespace Text

variable {s r t : Text} {i j fuel : Nat} {ts : List Text}

/-! ### Places -/

/-- What stands in a part of a list stands in the list, where the part is. -/
theorem standsAt_of_part {α : Type} {needle xs : List α} {i j k : Nat} (hneedle : 0 < needle.length)
    (h : StandsAt needle ((xs.take j).drop i) k) :
    StandsAt needle xs (i + k) ∧ i + k + needle.length ≤ j := by
  obtain ⟨hroom, hstands⟩ := h
  rw [List.length_drop, List.length_take] at hroom
  rw [List.drop_drop, List.drop_take] at hstands
  exact ⟨⟨by omega, hstands.trans (List.take_prefix _ _)⟩, by omega⟩

/-- If the search finds nothing, the separator stands nowhere. -/
theorem indexOf?_eq_none :
    s.indexOf? r i = none ↔ ∀ j, i ≤ j → ¬StandsAt r.units.toList s.units.toList j := by
  classical
  constructor
  · intro hnone j hj hstands
    have hsome : ∃ j, i ≤ j ∧ StandsAt r.units.toList s.units.toList j := ⟨j, hj, hstands⟩
    have hfirst : StandsFirstAt r.units.toList s.units.toList i (Nat.find hsome) :=
      ⟨(Nat.find_spec hsome).1, (Nat.find_spec hsome).2, fun k hk hlt hstands =>
        Nat.find_min hsome hlt ⟨hk, hstands⟩⟩
    rw [indexOf?_eq_some.mpr hfirst] at hnone
    cases hnone
  · intro hnone
    refine Option.eq_none_iff_forall_ne_some.mpr fun j hj => ?_
    obtain ⟨hle, hstands, -⟩ := indexOf?_eq_some.mp hj
    exact hnone j hle hstands

/-! ### Pieces -/

/-- The pieces of a text from an offset on: each ends where the separator stands first, and the last
one goes on to the end. -/
inductive Cuts (s r : Text) : Nat → List Text → Prop
  | last {i : Nat} (none : ∀ j, i ≤ j → ¬StandsAt r.units.toList s.units.toList j) :
      Cuts s r i [s.substring i s.length]
  | cut {i j : Nat} {ts : List Text} (first : StandsFirstAt r.units.toList s.units.toList i j)
      (rest : Cuts s r (j + r.length) ts) : Cuts s r i (s.substring i j :: ts)

/-- **The search comes to an end by itself**: each piece takes at least one code unit, so that it is
not cut short if there may be as many pieces as there are code units. -/
theorem cuts_splitFrom (hr : 0 < r.length) (hfuel : s.length ≤ i + fuel) :
    s.Cuts r i (s.splitFrom r fuel i) := by
  induction fuel generalizing i with
  | zero =>
    refine .last fun j hj hstands => ?_
    have hroom : j + r.length ≤ s.length := hstands.1
    omega
  | succ fuel ih =>
    rw [splitFrom]
    cases hfind : s.indexOf? r i with
    | none => exact .last (indexOf?_eq_none.mp hfind)
    | some j =>
      have hfirst := indexOf?_eq_some.mp hfind
      exact .cut hfirst (ih (by have hle := hfirst.1; omega))

/-- There is one way to find the pieces. -/
theorem Cuts.unique {us : List Text} (h : s.Cuts r i ts) (h' : s.Cuts r i us) : ts = us := by
  induction h generalizing us with
  | last none =>
    cases h' with
    | last _ => rfl
    | cut first _ => exact absurd first.2.1 (none _ first.1)
  | cut first _ ih =>
    cases h' with
    | last none => exact absurd first.2.1 (none _ first.1)
    | cut first' rest' =>
      obtain rfl := Option.some.inj ((indexOf?_eq_some.mpr first).symm.trans (indexOf?_eq_some.mpr first'))
      rw [ih rest']

theorem Cuts.ne_nil (h : s.Cuts r i ts) : ts ≠ [] := by cases h <;> exact List.cons_ne_nil _ _

/-- There is at most one piece more than there are code units. -/
theorem Cuts.length_le (hr : 0 < r.length) (h : s.Cuts r i ts) (hi : i ≤ s.length) :
    ts.length + i ≤ s.length + 1 := by
  induction h with
  | last none => simp only [List.length_singleton]; omega
  | @cut i j ts first rest ih =>
    have hle : i ≤ j := first.1
    have hroom : j + r.length ≤ s.length := first.2.1.1
    have hrest := ih hroom
    rw [List.length_cons]
    omega

/-- **The pieces with the separator between them are the text** from the offset on. -/
theorem Cuts.toList_intercalate (h : s.Cuts r i ts) (hi : i ≤ s.length) :
    (intercalate r ts).units.toList = s.units.toList.drop i := by
  induction h with
  | last none =>
    have hall : s.units.toList.take s.length = s.units.toList :=
      List.take_of_length_le (Nat.le_of_eq s.units.length_toList)
    rw [intercalate_singleton, toList_substring, hall]
  | @cut i j ts first rest ih =>
    obtain ⟨hle, ⟨hroom, u, hu⟩, -⟩ := first
    obtain ⟨t, ts, rfl⟩ := List.exists_cons_of_ne_nil rest.ne_nil
    have hbehind : s.units.toList.drop j = r.units.toList ++ s.units.toList.drop (j + r.length) := by
      rw [← List.drop_drop, ← hu]
      exact congrArg (r.units.toList ++ ·) (List.drop_left' r.units.length_toList).symm
    have hpiece : s.units.toList.drop i = (s.units.toList.take j).drop i ++ s.units.toList.drop j := by
      rw [← List.drop_append_of_le_length, List.take_append_drop]
      rw [List.length_take]
      omega
    rw [intercalate_cons_cons, toList_append, toList_append, ih hroom, toList_substring, hpiece, hbehind,
      List.append_assoc]

/-- **No piece has the separator in it.** -/
theorem Cuts.not_standsAt (hr : 0 < r.length) (h : s.Cuts r i ts) (ht : t ∈ ts) (k : Nat) :
    ¬StandsAt r.units.toList t.units.toList k := by
  intro hstands
  induction h with
  | @last i none =>
    rw [List.mem_singleton.mp ht, toList_substring] at hstands
    exact none (i + k) (Nat.le_add_right i k) (standsAt_of_part hr hstands).1
  | @cut i j ts first rest ih =>
    rcases List.mem_cons.mp ht with rfl | ht
    · rw [toList_substring] at hstands
      obtain ⟨hplace, hroom⟩ := standsAt_of_part hr hstands
      have hbefore : i + k < j := Nat.lt_of_lt_of_le (Nat.lt_add_of_pos_right hr) hroom
      exact first.2.2 (i + k) (Nat.le_add_right i k) hbefore hplace
    · exact ih ht

/-! ### Splitting -/

theorem isEmpty_iff : r.isEmpty = true ↔ r = .empty := by
  rw [eq_iff_units, isEmpty, Array.isEmpty_iff, ← Array.toList_inj]
  rfl

theorem length_pos (hr : r.isEmpty = false) : 0 < r.length := by
  refine Nat.pos_of_ne_zero fun hzero => ?_
  have hnil : r.units.toList = [] := List.eq_nil_of_length_eq_zero (r.units.length_toList.trans hzero)
  rw [isEmpty_iff.mpr (eq_iff_units.mpr hnil)] at hr
  cases hr

/-- With nothing between them, texts are put one behind the other. -/
theorem toList_intercalate_empty (ts : List Text) :
    (intercalate .empty ts).units.toList = ts.flatMap (·.units.toList) := by
  cases ts with
  | nil => rfl
  | cons t ts => exact toList_intercalate_cons .empty t ts

theorem split_of_not_isEmpty (hr : r.isEmpty = false) : s.split r = s.splitFrom r s.length 0 := by
  rw [split, hr, if_neg Bool.false_ne_true]

/-- **The pieces of a text are found one after the other**, with any fuel that is enough. -/
theorem cuts_split (hr : r.isEmpty = false) : s.Cuts r 0 (s.split r) := by
  rw [split_of_not_isEmpty hr]
  exact cuts_splitFrom (length_pos hr) (Nat.le_add_left _ _)

theorem splitFrom_eq_split (hr : r.isEmpty = false) (hfuel : s.length ≤ fuel) :
    s.splitFrom r fuel 0 = s.split r :=
  (cuts_splitFrom (length_pos hr) (Nat.le_trans hfuel (Nat.le_add_left _ _))).unique (cuts_split hr)

/-- **The pieces of a text with the separator between them are the text.** -/
theorem intercalate_split (s r : Text) : intercalate r (s.split r) = s := by
  rw [eq_iff_units]
  cases hr : r.isEmpty with
  | true =>
    rw [split, if_pos hr, isEmpty_iff.mp hr, toList_intercalate_empty, characters, List.flatMap_map]
    exact List.flatMap_singleton' _
  | false => exact (cuts_split hr).toList_intercalate (Nat.zero_le _)

/-- **No piece of a text has the separator in it.** -/
theorem not_standsAt_split (hr : r.isEmpty = false) (ht : t ∈ s.split r) (k : Nat) :
    ¬StandsAt r.units.toList t.units.toList k := (cuts_split hr).not_standsAt (length_pos hr) ht k

theorem length_split_le (s r : Text) : (s.split r).length ≤ s.length + 1 := by
  cases hr : r.isEmpty with
  | true =>
    rw [split, if_pos hr, characters, List.length_map, Array.length_toList]
    exact Nat.le_succ _
  | false => exact (cuts_split hr).length_le (length_pos hr) (Nat.zero_le _)

/-! ### Limits -/

/-- The pieces from an offset on behind those that are found already, but no more than the limit: the
search stops as soon as it has as many. -/
def searchUpTo (s r : Text) (limit : Nat) : Nat → Nat → List Text → List Text
  | 0, i, found => found ++ [s.substring i s.length]
  | fuel + 1, i, found =>
    match s.indexOf? r i with
    | some j =>
      if (found ++ [s.substring i j]).length = limit then found ++ [s.substring i j]
      else searchUpTo s r limit fuel (j + r.length) (found ++ [s.substring i j])
    | none => found ++ [s.substring i s.length]

/-- The pieces of a text by a search that stops at the limit. -/
def splitUpTo (s r : Text) (limit : Nat) : List Text :=
  if limit = 0 then []
  else if r.isEmpty then s.characters.take limit
  else s.searchUpTo r limit s.length 0 []

theorem searchUpTo_eq {limit : Nat} {found : List Text} (h : found.length < limit) :
    s.searchUpTo r limit fuel i found = (found ++ s.splitFrom r fuel i).take limit := by
  have hlast : ∀ {found : List Text} (t : Text), found.length < limit →
      found ++ [t] = (found ++ [t]).take limit := by
    intro found t h
    rw [List.take_of_length_le]
    rwa [List.length_append]
  induction fuel generalizing i found with
  | zero => exact hlast _ h
  | succ fuel ih =>
    rw [searchUpTo, splitFrom]
    cases s.indexOf? r i with
    | none => exact hlast _ h
    | some j =>
      have hnext : found ++ s.substring i j :: s.splitFrom r fuel (j + r.length)
          = found ++ [s.substring i j] ++ s.splitFrom r fuel (j + r.length) := List.append_cons ..
      rw [hnext]
      dsimp only
      split
      · next hlimit => exact (List.take_left' hlimit).symm
      · next hlimit =>
        have hlength : (found ++ [s.substring i j]).length = found.length + 1 := List.length_append
        exact ih (by omega)

/-- **To stop at the limit is to take so many pieces.** -/
theorem splitUpTo_eq (s r : Text) (limit : Nat) : s.splitUpTo r limit = (s.split r).take limit := by
  unfold splitUpTo split
  split
  · next hzero => rw [hzero, List.take_zero]
  · next hlimit =>
    split
    · rfl
    · exact searchUpTo_eq (Nat.pos_of_ne_zero hlimit)

end Text

/-! ### The methods -/

/-- What is being joined is there. -/
def Agent.JoinsOwn (a : Agent) : Prop := ∀ o ∈ a.joining, o.index < a.objects.size

/-- The condition that what is being joined is there. -/
def Condition.joinable : Condition := ⟨fun _ a => a.JoinsOwn⟩

/-- **What is being joined is always there.** -/
theorem Condition.joinable_holds (φ : RealmId → Filing) : Condition.joinable.Holds φ := by
  intro α t t' ρ K a b _ hab o ho
  rw [hab.joining_left] at ho
  obtain ⟨p, hp, rfl⟩ := List.mem_map.mp ho
  exact hab.lt_left (hab.joining p hp)

namespace Machine

variable {m : Machine} {a b : Agent} {s r : Text} {v : Value} {k : Nat}

/-- A limit is at most the greatest length of an array. -/
theorem limitOf_le (h : m.limitOf v a = .ok k b) : k ≤ maxArrayLength := by
  unfold limitOf at h
  split at h
  · cases h
    exact Nat.le_refl _
  · obtain ⟨x, c, -, hx⟩ := bind_eq_ok h
    cases hx
    exact Nat.le_of_lt_succ (Double.toUInt32_lt x)

/-- A natural number stands for itself as a limit. -/
theorem limitOf_ofNat (m : Machine) (hk : k ≤ maxArrayLength) (a : Agent) :
    m.limitOf (.ofNat k) a = .ok k a := by
  have hlimit : m.limitOf (.ofNat k) a = .ok (Double.toUInt32 (Float.ofNat k)) a := rfl
  rw [hlimit, Double.toUInt32_ofNat (Nat.lt_succ_of_le hk)]

/-- **Splitting makes an array of the first pieces**, as many as the limit allows. -/
theorem textMethod_split (m : Machine) (a : Agent) (s : Text) (args : List Value)
    (hseparator : argument args 0 = .text r) (hlimit : m.limitOf (argument args 1) a = .ok k b) :
    m.textMethod .split (.text s) args a
      = .ok (.object ⟨b.objects.size⟩) (b.pushArray (.ofList (((s.split r).take k).map .text))) := by
  have hpieces : m.pieces s args a = .ok ((s.split r).take k) b := by
    unfold pieces
    rw [bind_ok hlimit, hseparator]
    rfl
  have hfits : ¬maxArrayLength < (Elements.ofList (((s.split r).take k).map Value.text)).length := by
    rw [Elements.length_ofList, List.length_map, List.length_take]
    exact Nat.not_lt_of_le (Nat.le_trans (Nat.min_le_left _ _) (limitOf_le hlimit))
  change (m.pieces s args >>= fun ts => arrayOf (ts.map .text)) a = _
  rw [bind_ok hpieces]
  unfold arrayOf
  rw [allocateArray_eq hfits]
  rfl

/-- **Texts in an array are joined to the texts with the separator between them.** -/
theorem join_texts (hm : m.ConversionsMove) (ha : a.IsKeyed) {o : ObjectId} (r : Text) (ts : List Text)
    (ho : o ∉ a.joining) (helements : a.elements o = .ofList (ts.map .text))
    (hfits : (Text.intercalate r ts).length ≤ maxTextLength) :
    m.join o r a = .ok (.intercalate r ts) a := by
  let reads : Nat → Text → Prop := fun i t => ts[i]? = some t
  have hlength : (a.elements o).length = ts.length := by
    rw [helements, Elements.length_ofList, List.length_map]
  -- Texts are converted to themselves, whatever the machine.
  have hconverts : ∀ i, i < (a.elements o).length →
      m.Converts (a.withJoining (o :: a.joining)) (a.elementAt o i) (reads i) := by
    intro i hi
    rw [hlength] at hi
    have helement : a.elementAt o i = .text ts[i] := by
      rw [Agent.elementAt, helements, Elements.get?_ofList, List.getElem?_map, List.getElem?_eq_getElem hi]
      rfl
    rw [helement]
    refine ⟨fun h => absurd h Bool.false_ne_true, fun _ =>
      .text ts[i] (List.getElem?_eq_getElem hi) (fun t ht => ?_) rfl⟩
    exact (Option.some.inj ((List.getElem?_eq_getElem hi).symm.trans ht)).symm
  have hmap : ∀ texts : Nat → Text, (∀ i, i < (a.elements o).length → reads i (texts i)) →
      (List.range (a.elements o).length).map texts = ts := by
    intro texts hreads
    rw [hlength] at hreads ⊢
    refine List.ext_getElem? fun i => ?_
    rw [List.getElem?_map]
    by_cases hi : i < ts.length
    · rw [List.getElem?_range hi]
      exact (hreads i hi).symm
    · rw [List.getElem?_eq_none (Nat.le_of_not_lt hi), List.getElem?_eq_none]
      · rfl
      · rw [List.length_range]
        exact Nat.le_of_not_lt hi
  -- The joined text is one that the places spell, so the length bound excludes the other outcomes.
  have hself : ∃ texts : Nat → Text, (∀ i, i < (a.elements o).length → reads i (texts i)) ∧
      .intercalate r ts = Text.intercalate r ((List.range (a.elements o).length).map texts) := by
    have hreads : ∀ i, i < (a.elements o).length → reads i (ts.getD i .empty) := by
      intro i hi
      rw [hlength] at hi
      rw [List.getD_eq_getElem _ _ hi]
      exact List.getElem?_eq_getElem hi
    exact ⟨_, hreads, by rw [hmap _ hreads]⟩
  have hindices : (m.joinIndices o r (a.elements o).length).Spells (a.withJoining (o :: a.joining)) _ :=
    joinIndices_spells hconverts
  rw [join_eq hm ha]
  cases hindices.noting ho with
  | text t is only result => rw [result, only _ hself]
  | long longer _ => exact absurd (longer _ hself) (Nat.not_lt_of_le hfits)
  | symbol s none _ => exact absurd hself (none _)

end Machine

/-- Without a limit there are all pieces, if arrays may have so many. -/
theorem Machine.textMethod_split_all (m : Machine) (a : Agent) {s : Text} (r : Text)
    (hfits : s.length ≤ maxTextLength) : m.textMethod .split (.text s) [.text r] a
      = .ok (.object ⟨a.objects.size⟩) (a.pushArray (.ofList ((s.split r).map .text))) := by
  have hall : (s.split r).take maxArrayLength = s.split r :=
    List.take_of_length_le (Nat.le_trans (s.length_split_le r)
      (Nat.le_trans (Nat.succ_le_succ hfits) (by decide)))
  have hsplit := m.textMethod_split a s [.text r] rfl rfl
  rwa [hall] at hsplit

/-- **The pieces are joined to the text.** -/
theorem Machine.join_split {m : Machine} (hm : m.ConversionsMove) {a : Agent} (ha : a.IsKeyed)
    (hjoins : a.JoinsOwn) {s : Text} (r : Text) (hfits : s.length ≤ maxTextLength) :
    m.arrayMethod .join (.object ⟨a.objects.size⟩) [.text r]
        (a.pushArray (.ofList ((s.split r).map .text)))
      = .ok (.text s) (a.pushArray (.ofList ((s.split r).map .text))) := by
  let e : Elements Value := .ofList ((s.split r).map .text)
  let new : ObjectId := ⟨a.objects.size⟩
  have hnew : (a.pushArray e).object new = .ofKind (.array e) := a.object_pushArray_new e
  have hkeyed : (a.pushArray e).IsKeyed := by
    refine ha.pushArray ⟨Elements.isStored_ofList _, ?_⟩
    rw [Elements.length_ofList, List.length_map]
    exact Nat.le_trans (s.length_split_le r) (Nat.le_trans (Nat.succ_le_succ hfits) (by decide))
  have hjoin : m.join new r (a.pushArray e) = .ok s (a.pushArray e) := by
    have hpieces := m.join_texts hm hkeyed r (s.split r)
      (fun hmem => Nat.lt_irrefl _ (hjoins new hmem))
      (by rw [Agent.elements, hnew]; rfl) (by rwa [Text.intercalate_split])
    rwa [Text.intercalate_split] at hpieces
  unfold Machine.arrayMethod
  rw [bind_ok (thisArray_eq (by rw [hnew]; rfl) .join), bind_ok (elementsOf_apply new _)]
  change (m.join new r >>= fun t => pure (Value.text t)) (a.pushArray e) = _
  rw [bind_ok hjoin]
  rfl

/-- **Splitting and joining undo each other.**  A text is split where the separator stands, found from
one place to the next; that search comes to an end by itself, and no piece has the separator in it.  With
a limit the pieces are the first ones, as many as it allows, and a search that stops at the limit finds
the same; a limit is an integer modulo `2 ^ 32`.  Joining the pieces with the separator gives the text
again, unless that is longer than what is joined may be.  All that is assumed of conversions, of the
objects and of what is being joined is what is so of programs, at whatever task they are. -/
theorem split_join :
    (∀ s r : Text, r.isEmpty = false →
      s.Cuts r 0 (s.split r) ∧ (∀ fuel, s.length ≤ fuel → s.splitFrom r fuel 0 = s.split r) ∧
        ∀ t ∈ s.split r, ∀ k, ¬StandsAt r.units.toList t.units.toList k) ∧
    (∀ (m : Machine) (a : Agent) (s r : Text),
      (∀ v k b, m.limitOf v a = .ok k b →
        m.textMethod .split (.text s) [.text r, v] a
          = .ok (.object ⟨b.objects.size⟩) (b.pushArray (.ofList (((s.split r).take k).map .text)))) ∧
      (∀ k, s.splitUpTo r k = (s.split r).take k) ∧
      (∀ x, m.limitOf (.number x) a = .ok (Double.toUInt32 x) a) ∧
      ∀ k, k ≤ maxArrayLength → m.limitOf (.ofNat k) a = .ok k a) ∧
    (∀ (m : Machine) (a : Agent) (s r : Text), m.ConversionsMove → a.IsKeyed → a.JoinsOwn →
      s.length ≤ maxTextLength →
      let b := a.pushArray (.ofList ((s.split r).map .text))
      m.textMethod .split (.text s) [.text r] a = .ok (.object ⟨a.objects.size⟩) b ∧
        (do m.arrayMethod .join (← m.textMethod .split (.text s) [.text r]) [.text r]) a = .ok (.text s) b) ∧
    (∀ n, (Machine.ofDepth n).ConversionsMove) ∧
    ∀ (n : Nat) (isVerbose : Bool) (requests : List (Request × Tidying)),
      (Agent.ofRequests n isVerbose requests).IsKeyed ∧
        serve (.watching .joinable n) requests (.new isVerbose)
          = serve (.ofDepth n) requests (.new isVerbose) := by
  refine ⟨fun s r hr => ⟨Text.cuts_split hr, fun fuel => Text.splitFrom_eq_split hr, fun t ht =>
      Text.not_standsAt_split hr ht⟩,
    fun m a s r => ⟨fun v k b hlimit => m.textMethod_split a s _ rfl hlimit, Text.splitUpTo_eq s r,
      fun x => rfl, fun k hk => m.limitOf_ofNat hk a⟩,
    fun m a s r hm ha hjoins hfits => ⟨m.textMethod_split_all a r hfits,
      (bind_ok (m.textMethod_split_all a r hfits)).trans (Machine.join_split hm ha hjoins r hfits)⟩,
    fun n o hint => moves_run n (.primitive o hint),
    fun n isVerbose requests => ⟨isKeyed_ofRequests n isVerbose requests,
      (serve_watching n isVerbose (Condition.joinable_holds _)).1⟩⟩

/-- A separator that is half of a pair of surrogates cuts the pair in two, and joining puts it together
again. -/
theorem split_join_pair :
    let m := Machine.ofDepth 0
    let a := Agent.new false
    let s : Text := ⟨#[0xD83D, 0xDE00]⟩
    let r : Text := ⟨#[0xDE00]⟩
    r.isEmpty = false ∧ m.ConversionsMove ∧ a.IsKeyed ∧ a.JoinsOwn ∧ s.length ≤ maxTextLength ∧
      s.split r = [⟨#[0xD83D]⟩, .empty] ∧ s.Cuts r 0 [⟨#[0xD83D]⟩, .empty] ∧
      (do m.arrayMethod .join (← m.textMethod .split (.text s) [.text r]) [.text r]) a
        = .ok (.text s) (a.pushArray (.ofList [.text ⟨#[0xD83D]⟩, .text .empty])) := by
  intro m a s r
  have hsplit : s.split r = [⟨#[0xD83D]⟩, .empty] := by decide +kernel
  have hm : m.ConversionsMove := split_join.2.2.2.1 0
  have ha : a.IsKeyed := Agent.isKeyed_new false
  have hjoins : a.JoinsOwn := fun o ho => absurd ho List.not_mem_nil
  have hcuts := (split_join.1 s r rfl).1
  have hjoin := (split_join.2.2.1 m a s r hm ha hjoins (by decide)).2
  rw [hsplit] at hcuts hjoin
  exact ⟨rfl, hm, ha, hjoins, by decide, hsplit, hcuts, hjoin⟩

end Scriptlet
