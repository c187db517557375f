import Mathlib.Data.Finset.Card
import Scriptlet.Proofs.Searches
import Scriptlet.Proofs.Values

/-!
# What readers see of a value

The objects of an agent may hold each other in circles, so there is no bound on how far one can go
from one to the next.  A reader is shown a drawing of finite size nevertheless: on the way from a
value to what it holds, no object is drawn inside itself.  Where that would happen there is a mark,
and nowhere else: an object that is held in two places, but not inside itself, is drawn twice.

## Main definitions

* `Drawing`, `Drawing.render` — what is drawn, and how it is written.
* `Agent.Draws` — how values are drawn inside the objects of a path.
* `Elements.Lays` — the runs of empty places and the elements that an array consists of.
* `Agent.off` — the number of objects that are not on a path.
* `placesDisplay?` — writing the places of an array, unless a subtraction goes below zero.

## Main results

* `Agent.off_cons` — going into an object leaves fewer objects to go into.
* `Elements.Lays.total_eq` — **the parts of an array add up to its length**.
* `display_draws` — **every value has one drawing, which is what readers see**, and the mark for
  an object inside itself is there where an object is inside itself.
-/

namespace Scriptlet

/-! ### Drawings -/

/-- A part of an array: empty places one behind the other, or an element. -/
inductive Part (α : Type)
  | holes (count : Nat)
  | element (x : α)

/-- How many places a part takes. -/
def Part.size {α : Type} : Part α → Nat
  | .holes count => count
  | .element _ => 1

/-- How many places parts take together. -/
def Part.total {α : Type} : List (Part α) → Nat
  | [] => 0
  | p :: rest => p.size + total rest

/-- A drawing of a value. -/
inductive Drawing
  /-- What is written without looking into the value. -/
  | leaf (s : String)
  /-- The mark for an object inside itself. -/
  | circular
  /-- An array with its parts. -/
  | array (parts : List (Part Drawing))
  /-- An object with its properties. -/
  | object (entries : List (PropertyKey × Drawing))

namespace Drawing

mutual

/-- A drawing as it is written. -/
def render : Drawing → String
  | .leaf s => s
  | .circular => "[Circular]"
  | .array parts => "[" ++ ", ".intercalate (renderParts parts) ++ "]"
  | .object [] => "\x7b\x7d"
  | .object (e :: rest) => "\x7b " ++ ", ".intercalate (renderEntries (e :: rest)) ++ " \x7d"

/-- The parts of an array as they are written. -/
def renderParts : List (Part Drawing) → List String
  | [] => []
  | .holes count :: rest => holesDisplay count ++ renderParts rest
  | .element d :: rest => d.render :: renderParts rest

/-- Properties as they are written. -/
def renderEntries : List (PropertyKey × Drawing) → List String
  | [] => []
  | (k, d) :: rest => (keyDisplay k ++ ": " ++ d.render) :: renderEntries rest

end

end Drawing

namespace Elements

variable {α β : Type}

/-- The parts of an array from an index on, given what is drawn at each index: a run of empty places
goes on up to the next element or the end. -/
inductive Lays (e : Elements α) (inner : Nat → β) : Nat → List (Part β) → Prop
  | done : Lays e inner e.length []
  | element {i : Nat} {v : α} {parts : List (Part β)} (present : e.get? i = some v)
      (rest : Lays e inner (i + 1) parts) : Lays e inner i (.element (inner i) :: parts)
  | holes {i j : Nat} {parts : List (Part β)} (before : i < j)
      (missing : ∀ k, i ≤ k → k < j → e.get? k = none)
      (stop : j = e.length ∨ (e.get? j).isSome = true) (rest : Lays e inner j parts) :
      Lays e inner i (.holes (j - i) :: parts)

end Elements

/-- What is written for an object into which one does not look. -/
def Object.closedDisplay? (o : Object) : Option String :=
  match o.kind with
  | .closure c => some (functionDisplay c.name)
  | .builtin b => some (functionDisplay b.name)
  | .error kind => some (errorDisplay kind (o.ownValue? "message"))
  | .array _ | .ordinary => none

namespace Agent

/-- How values are drawn inside the objects of a path: one that is on the path is marked, and into
the others one looks. -/
inductive Draws (a : Agent) : List ObjectId → Value → Drawing → Prop
  | plain {path : List ObjectId} {v : Value} (isPlain : v.isPlain = true) :
      Draws a path v (.leaf (a.display v))
  | inside {path : List ObjectId} {o : ObjectId} (on : o ∈ path) : Draws a path (.object o) .circular
  | closed {path : List ObjectId} {o : ObjectId} {s : String} (off : o ∉ path)
      (closed : (a.object o).closedDisplay? = some s) : Draws a path (.object o) (.leaf s)
  | array {path : List ObjectId} {o : ObjectId} {e : Elements Value} (inner : Nat → Drawing)
      {parts : List (Part Drawing)} (off : o ∉ path) (kind : (a.object o).kind = .array e)
      (draws : ∀ i v, e.get? i = some v → Draws a (o :: path) v (inner i))
      (lays : e.Lays inner 0 parts) : Draws a path (.object o) (.array parts)
  | ordinary {path : List ObjectId} {o : ObjectId} (inner : PropertyKey → Drawing) (off : o ∉ path)
      (kind : (a.object o).kind = .ordinary)
      (draws : ∀ k v, (a.object o).ownValue? k = some v → Draws a (o :: path) v (inner k)) :
      Draws a path (.object o) (.object ((a.object o).ownKeys.map fun k => (k, inner k)))

/-- How many objects are not on a path. -/
def off (a : Agent) (path : List ObjectId) : Nat :=
  ((Finset.range a.objects.size).filter fun i => ⟨i⟩ ∉ path).card

theorem off_le (a : Agent) (path : List ObjectId) : a.off path ≤ a.objects.size :=
  (Finset.card_filter_le _ _).trans_eq (Finset.card_range _)

/-- **Going into an object leaves fewer objects to go into.** -/
theorem off_cons {a : Agent} {path : List ObjectId} {o : ObjectId} (hin : o.index < a.objects.size)
    (hoff : o ∉ path) : a.off (o :: path) < a.off path := by
  refine Finset.card_lt_card ((Finset.ssubset_iff_of_subset fun i hi => ?_).mpr ⟨o.index, ?_, ?_⟩)
  · rw [Finset.mem_filter] at hi ⊢
    exact ⟨hi.1, fun hmem => hi.2 (List.mem_cons_of_mem o hmem)⟩
  · exact Finset.mem_filter.mpr ⟨Finset.mem_range.mpr hin, hoff⟩
  · exact fun hmem => (Finset.mem_filter.mp hmem).2 List.mem_cons_self

/-- An object that is anything but ordinary and empty is there. -/
theorem lt_of_object {a : Agent} {o : ObjectId} (h : a.object o ≠ .empty) : o.index < a.objects.size := by
  by_contra hout
  exact h (dif_neg hout)

end Agent

/-! ### The places of an array -/

/-- The places of an array as `placesDisplay` writes them, if no subtraction goes below zero. -/
def placesDisplay? (length : Nat) : Nat → List (Nat × String) → Option (List String)
  | next, [] => if next ≤ length then some (holesDisplay (length - next)) else none
  | next, (i, s) :: rest =>
    if next ≤ i then
      (placesDisplay? length (i + 1) rest).map fun places => holesDisplay (i - next) ++ s :: places
    else none

namespace Elements

variable {α β : Type} {e : Elements α} {inner inner' : Nat → β} {i n : Nat} {parts parts' : List (Part β)}

namespace IsStored

theorem presentFrom_skip (h : e.IsStored) (hle : n ≤ i) (hnone : ∀ k, n ≤ k → k < i → e.get? k = none) :
    e.presentFrom n = e.presentFrom i := by
  induction i, hle using Nat.le_induction with
  | base => rfl
  | succ i hle ih =>
    rw [ih fun k hk hlt => hnone k hk (Nat.lt_succ_of_lt hlt)]
    exact h.presentFrom_none (hnone i hle (Nat.lt_succ_self i))

/-- The elements at and above an index: either there is none, or a first one and those behind it. -/
theorem presentFrom_induction (h : e.IsStored) {motive : Nat → List (Nat × α) → Prop}
    (nil : ∀ n, n ≤ e.length → (∀ k, n ≤ k → e.get? k = none) → motive n [])
    (cons : ∀ n i v rest, n ≤ i → e.get? i = some v → (∀ k, n ≤ k → k < i → e.get? k = none) →
      motive (i + 1) rest → motive n ((i, v) :: rest))
    (hn : n ≤ e.length) : motive n (e.presentFrom n) := by
  generalize hlist : e.presentFrom n = l
  induction l generalizing n with
  | nil =>
    refine nil n hn fun k hk => Option.eq_none_iff_forall_ne_some.mpr fun v hv => ?_
    have hmem := h.mem_presentFrom.mpr ⟨hk, hv⟩
    rw [hlist] at hmem
    cases hmem
  | cons p rest ih =>
    obtain ⟨i, v⟩ := p
    have hnext : e.nextPresent? n = some (i, v) := by rw [nextPresent?_eq_head?, hlist, List.head?_cons]
    obtain ⟨hle, hv, hbefore⟩ := h.nextPresent?_eq_some_iff.mp hnext
    have hrest : e.presentFrom (i + 1) = rest := by
      rw [h.presentFrom_skip hle hbefore, h.presentFrom_some hv] at hlist
      exact (List.cons.inj hlist).2
    exact cons n i v rest hle hv hbefore (ih (h.lt_of_get? hv) hrest)

/-- **No subtraction goes below zero** while the places of an array are written. -/
theorem placesDisplay?_eq (h : e.IsStored) (write : α → String) (hn : n ≤ e.length) :
    placesDisplay? e.length n ((e.presentFrom n).map fun (i, v) => (i, write v))
      = some (placesDisplay e.length n ((e.presentFrom n).map fun (i, v) => (i, write v))) := by
  refine h.presentFrom_induction (motive := fun n l =>
    placesDisplay? e.length n (l.map fun (i, v) => (i, write v))
      = some (placesDisplay e.length n (l.map fun (i, v) => (i, write v)))) ?_ ?_ hn
  · exact fun n hn _ => if_pos hn
  · intro n i v rest hle _ _ ih
    exact (if_pos hle).trans (congrArg _ ih)

end IsStored

namespace Lays

/-- **The parts of an array add up to its length.** -/
theorem total_eq (hlays : Lays e inner i parts) : i + Part.total parts = e.length := by
  induction hlays with
  | done => rfl
  | element _ _ ih =>
    rw [Part.total, Part.size, ← Nat.add_assoc]
    exact ih
  | holes before _ _ _ ih =>
    rw [Part.total, Part.size, ← Nat.add_assoc, Nat.add_sub_cancel' (Nat.le_of_lt before)]
    exact ih

/-- A run of empty places ends where the array ends, or else before that. -/
theorem stop_le (h : e.IsStored) (stop : i = e.length ∨ (e.get? i).isSome = true) : i ≤ e.length := by
  rcases stop with hend | hsome
  · exact Nat.le_of_eq hend
  · obtain ⟨v, hv⟩ := Option.isSome_iff_exists.mp hsome
    exact Nat.le_of_lt (h.lt_of_get? hv)

/-- A run of empty places ends nowhere before another one from the same index. -/
theorem stop_le_stop (h : e.IsStored) {j k : Nat} (before : i < j)
    (stop : j = e.length ∨ (e.get? j).isSome = true) (missing : ∀ l, i ≤ l → l < k → e.get? l = none)
    (stop' : k = e.length ∨ (e.get? k).isSome = true) : k ≤ j := by
  rcases stop with rfl | hsome
  · exact stop_le h stop'
  · by_contra hlt
    rw [missing j (Nat.le_of_lt before) (Nat.lt_of_not_le hlt)] at hsome
    cases hsome

/-- **An array consists of its parts in one way.** -/
theorem unique (h : e.IsStored) (hinner : ∀ i v, e.get? i = some v → inner i = inner' i)
    (hlays : Lays e inner i parts) (hlays' : Lays e inner' i parts') : parts = parts' := by
  induction hlays generalizing parts' with
  | done =>
    cases hlays' with
    | done => rfl
    | element present _ => exact absurd (h.lt_of_get? present) (Nat.lt_irrefl _)
    | holes before _ stop _ => exact absurd (stop_le h stop) (Nat.not_le_of_lt before)
  -- At every place the list says which rule applies: either an element is there, or the place begins
  -- a run of holes.
  | element present _ ih =>
    cases hlays' with
    | done => exact absurd (h.lt_of_get? present) (Nat.lt_irrefl _)
    | element _ rest' => rw [ih rest', hinner _ _ present]
    | holes before missing _ _ =>
      rw [missing _ (Nat.le_refl _) before] at present
      cases present
  | holes before missing stop _ ih =>
    cases hlays' with
    | done => exact absurd (stop_le h stop) (Nat.not_le_of_lt before)
    | element present _ =>
      rw [missing _ (Nat.le_refl _) before] at present
      cases present
    -- Both runs of holes stop where the next element is, so they are equally long.
    | holes before' missing' stop' rest' =>
      obtain rfl := Nat.le_antisymm (stop_le_stop h before' stop' missing stop)
        (stop_le_stop h before stop missing' stop')
      rw [ih rest']

end Lays

/-- **The places of an array are its parts, as they are written.** -/
theorem IsStored.exists_lays (h : e.IsStored) (inner : Nat → Drawing) (hn : n ≤ e.length) :
    ∃ parts, e.Lays inner n parts ∧
      placesDisplay e.length n ((e.presentFrom n).map fun (i, _) => (i, (inner i).render))
        = Drawing.renderParts parts := by
  refine h.presentFrom_induction (motive := fun n l => ∃ parts, e.Lays inner n parts ∧
    placesDisplay e.length n (l.map fun (i, _) => (i, (inner i).render)) = Drawing.renderParts parts)
    ?_ ?_ hn
  · intro n hn hnone
    rcases Nat.eq_or_lt_of_le hn with rfl | hlt
    · refine ⟨[], .done, ?_⟩
      rw [List.map_nil, placesDisplay, Nat.sub_self, Drawing.renderParts, holesDisplay]
    · refine ⟨[.holes (e.length - n)], .holes hlt (fun k hk _ => hnone k hk) (.inl rfl) .done, ?_⟩
      rw [List.map_nil, placesDisplay, Drawing.renderParts, Drawing.renderParts, List.append_nil]
  · rintro n i v rest hle hv hnone ⟨parts, hlays, hwrite⟩
    have helement : e.Lays inner i (.element (inner i) :: parts) := .element hv hlays
    have hsome : (e.get? i).isSome = true := by rw [hv, Option.isSome_some]
    rw [List.map_cons, placesDisplay, hwrite]
    rcases Nat.eq_or_lt_of_le hle with rfl | hlt
    · refine ⟨_, helement, ?_⟩
      rw [Nat.sub_self, Drawing.renderParts, holesDisplay, List.nil_append]
    · refine ⟨_, .holes hlt hnone (.inr hsome) helement, ?_⟩
      rw [Drawing.renderParts, Drawing.renderParts]

end Elements

/-! ### The drawing of a value -/

/-- The keys of an object are those that it has values for. -/
theorem Object.IsKeyed.mem_ownKeys_iff {o : Object} (h : o.IsKeyed) {k : PropertyKey} :
    k ∈ o.ownKeys ↔ ∃ v, o.ownValue? k = some v := by
  rw [h.mem_ownKeys, Object.hasOwn, ← Option.isSome_iff_exists, Object.ownValue?, Option.isSome_map]

/-- Properties are written one by one. -/
theorem Drawing.renderEntries_map (keys : List PropertyKey) (inner : PropertyKey → Drawing) :
    Drawing.renderEntries (keys.map fun k => (k, inner k))
      = keys.map fun k => keyDisplay k ++ ": " ++ (inner k).render := by
  induction keys with
  | nil => rfl
  | cons k keys ih => rw [List.map_cons, List.map_cons, Drawing.renderEntries, ih]

namespace Agent

variable {a : Agent} {path : List ObjectId} {v : Value} {d d' : Drawing}

/-- The mark is where an object is inside itself, and nowhere else. -/
theorem Draws.circular_iff {o : ObjectId} (h : a.Draws path (.object o) d) :
    d = .circular ↔ o ∈ path := by
  cases h with
  | plain isPlain => cases isPlain
  | inside on => exact ⟨fun _ => on, fun _ => rfl⟩
  | closed off _ => exact ⟨nofun, fun on => absurd on off⟩
  | array _ off _ _ _ => exact ⟨nofun, fun on => absurd on off⟩
  | ordinary _ off _ _ => exact ⟨nofun, fun on => absurd on off⟩

/-- An array that is not inside itself is drawn with all its places. -/
theorem Draws.array_parts {o : ObjectId} (h : a.Draws path (.object o) d) (hoff : o ∉ path)
    (harray : (a.object o).isArray = true) :
    ∃ parts, d = .array parts ∧ Part.total parts = (a.elements o).length := by
  cases h with
  | plain isPlain => cases isPlain
  | inside on => exact absurd on hoff
  | closed _ closed => cases hkind : (a.object o).kind <;> simp_all [Object.closedDisplay?, Object.isArray]
  | array inner _ kind draws lays =>
    refine ⟨_, rfl, ?_⟩
    have htotal := lays.total_eq
    rw [Nat.zero_add] at htotal
    rw [htotal, Agent.elements, Object.elements?, kind, Option.getD_some]
  | ordinary _ _ kind _ => rw [Object.isArray, kind] at harray; cases harray

/-- An object that is nothing but an object, and not inside itself, is drawn with all its
properties. -/
theorem Draws.object_entries {o : ObjectId} (h : a.Draws path (.object o) d) (hoff : o ∉ path)
    (hkind : (a.object o).kind = .ordinary) :
    ∃ entries, d = .object entries ∧ entries.map Prod.fst = (a.object o).ownKeys := by
  cases h with
  | plain isPlain => cases isPlain
  | inside on => exact absurd on hoff
  | closed _ closed => rw [Object.closedDisplay?, hkind] at closed; cases closed
  | array _ _ kind _ _ => cases hkind.symm.trans kind
  | ordinary inner _ _ _ =>
    refine ⟨_, rfl, ?_⟩
    rw [List.map_map]
    exact List.map_id _

/-- **A value has one drawing.** -/
theorem Draws.unique (ha : a.IsKeyed) (h : a.Draws path v d) (h' : a.Draws path v d') : d = d' := by
  induction h generalizing d' with
  -- The value and the kind of the object decide the rule, so the two drawings end in the same one.
  | plain isPlain =>
    cases h' with
    | plain _ => rfl
    | _ => cases isPlain
  | inside on => exact (h'.circular_iff.mpr on).symm
  | closed off closed =>
    cases h' with
    | plain isPlain => cases isPlain
    | inside on => exact absurd on off
    | closed _ closed' => rw [Option.some.inj (closed.symm.trans closed')]
    | array _ _ kind' _ _ => rw [Object.closedDisplay?, kind'] at closed; cases closed
    | ordinary _ _ kind' _ => rw [Object.closedDisplay?, kind'] at closed; cases closed
  | @array _ o e inner parts off kind draws lays ih =>
    cases h' with
    | plain isPlain => cases isPlain
    | inside on => exact absurd on off
    | closed _ closed => rw [Object.closedDisplay?, kind] at closed; cases closed
    | array inner' _ kind' draws' lays' =>
      cases kind.symm.trans kind'
      have hstored : e.IsStored := (ha.object o).stored e (by rw [Object.elements?, kind])
      rw [lays.unique hstored (fun i v hv => ih i v hv (draws' i v hv)) lays']
    | ordinary _ _ kind' _ => cases kind.symm.trans kind'
  | @ordinary _ o inner off kind draws ih =>
    cases h' with
    | plain isPlain => cases isPlain
    | inside on => exact absurd on off
    | closed _ closed => rw [Object.closedDisplay?, kind] at closed; cases closed
    | array _ _ kind' _ _ => cases kind.symm.trans kind'
    | ordinary inner' _ _ draws' =>
      refine congrArg Drawing.object (List.map_congr_left fun k hk => ?_)
      obtain ⟨v, hv⟩ := (ha.object o).mem_ownKeys_iff.mp hk
      rw [ih k v hv (draws' k v hv)]

section

variable {o : ObjectId} {write : Value → String} (ha : a.IsKeyed) (hon : o ∉ path)

include ha hon

/-- An array is drawn if its elements are. -/
theorem exists_draws_array {e : Elements Value} (hkind : (a.object o).kind = .array e)
    (hinner : ∀ v, ∃ d, a.Draws (o :: path) v d ∧ write v = d.render) :
    ∃ parts, a.Draws path (.object o) (.array parts) ∧
      placesDisplay e.length 0 (e.present.map fun (i, v) => (i, write v)) = Drawing.renderParts parts := by
  have hstored : e.IsStored := (ha.object o).stored e (by rw [Object.elements?, hkind])
  choose draw hdraws hwrite using hinner
  let inner : Nat → Drawing := fun i => draw ((e.get? i).getD .undefined)
  have hvalue : ∀ i v, e.get? i = some v → inner i = draw v := fun i v hv => by
    simp only [inner, hv, Option.getD_some]
  obtain ⟨parts, hlays, hplaces⟩ := hstored.exists_lays inner (Nat.zero_le _)
  refine ⟨parts, .array inner hon hkind (fun i v hv => ?_) hlays, ?_⟩
  · rw [hvalue i v hv]
    exact hdraws v
  · rw [← hplaces]
    refine congrArg (placesDisplay e.length 0) (List.map_congr_left fun p hmem => ?_)
    exact congrArg (p.1, ·) ((hwrite p.2).trans (by rw [hvalue p.1 p.2 (hstored.mem_present.mp hmem)]))

/-- An object that is nothing but an object is drawn if the values of its properties are. -/
theorem exists_draws_ordinary (hkind : (a.object o).kind = .ordinary)
    (hinner : ∀ k v, (a.object o).ownValue? k = some v → ∃ d, a.Draws (o :: path) v d ∧ write v = d.render) :
    ∃ entries, a.Draws path (.object o) (.object entries) ∧ (a.object o).ownKeys = entries.map Prod.fst ∧
      ((a.object o).ownKeys.map fun k => keyDisplay k ++ ": "
        ++ write (((a.object o).ownValue? k).getD .undefined)) = Drawing.renderEntries entries := by
  have hall : ∀ k, ∃ d, ∀ v, (a.object o).ownValue? k = some v →
      a.Draws (o :: path) v d ∧ write v = d.render := by
    intro k
    cases hv : (a.object o).ownValue? k with
    | none => exact ⟨.circular, nofun⟩
    | some v =>
      obtain ⟨d, hd⟩ := hinner k v hv
      exact ⟨d, fun w hw => Option.some.inj hw ▸ hd⟩
  choose inner hdraws using hall
  refine ⟨_, .ordinary inner hon hkind fun k v hv => (hdraws k v hv).1, ?_, ?_⟩
  · rw [List.map_map]
    exact (List.map_id _).symm
  · rw [Drawing.renderEntries_map]
    refine List.map_congr_left fun k hk => ?_
    obtain ⟨v, hv⟩ := (ha.object o).mem_ownKeys_iff.mp hk
    rw [hv, Option.getD_some, (hdraws k v hv).2]

end

/-- **What readers see of a value is its drawing**, if one may look so deep that it suffices for all
objects that are not on the path. -/
theorem exists_draws (ha : a.IsKeyed) (depth : Nat) (path : List ObjectId) (v : Value)
    (hdepth : a.off path < depth) : ∃ d, a.Draws path v d ∧ a.displayFrom depth path v = d.render := by
  induction depth generalizing path v with
  | zero => exact absurd hdepth (Nat.not_lt_zero _)
  | succ depth ih =>
    cases v with
    | object o =>
      by_cases hon : o ∈ path
      · refine ⟨.circular, .inside hon, ?_⟩
        rw [displayFrom, if_pos (List.contains_iff_mem.mpr hon), Drawing.render]
      · -- What the object holds is drawn inside it: that leaves fewer objects to go into.
        have hinner : a.object o ≠ .empty → ∀ w, ∃ d, a.Draws (o :: path) w d ∧
            a.displayFrom depth (o :: path) w = d.render := fun hobject w =>
          ih (o :: path) w (Nat.lt_of_lt_of_le (off_cons (lt_of_object hobject) hon)
            (Nat.le_of_lt_succ hdepth))
        rw [displayFrom, if_neg fun h => hon (List.contains_iff_mem.mp h)]
        dsimp only
        have hclosed : ∀ s, (a.object o).closedDisplay? = some s →
            ∃ d, a.Draws path (.object o) d ∧ s = d.render := fun s hs =>
          ⟨.leaf s, .closed hon hs, by rw [Drawing.render]⟩
        cases hkind : (a.object o).kind with
        | closure c => exact hclosed _ (by rw [Object.closedDisplay?, hkind])
        | builtin b => exact hclosed _ (by rw [Object.closedDisplay?, hkind])
        | error kind => exact hclosed _ (by rw [Object.closedDisplay?, hkind])
        | array e =>
          have hobject : a.object o ≠ .empty := fun h => by rw [h] at hkind; cases hkind
          obtain ⟨parts, hdraws, hplaces⟩ := exists_draws_array ha hon hkind (hinner hobject)
          exact ⟨_, hdraws, by rw [Drawing.render, ← hplaces]⟩
        | ordinary =>
          obtain ⟨entries, hdraws, hkeys, hentries⟩ := exists_draws_ordinary ha hon hkind
            fun k v hv => hinner (fun h => by rw [h] at hv; cases hv) v
          refine ⟨_, hdraws, ?_⟩
          dsimp only
          rw [hkeys] at hentries ⊢
          cases entries with
          | nil => rw [List.map_nil, Drawing.render]
          | cons e rest =>
            rw [Drawing.render, ← hentries]
            rfl
    | _ => exact ⟨_, .plain rfl, rfl⟩

end Agent

/-- **Every value has one drawing, and that is what readers see**; to look deeper than there are
objects makes no difference.  In the drawing the mark is where an object is inside itself, and nowhere
else: everywhere else it is drawn with all its places or properties.  The parts of an array add up to
its length, and no subtraction goes below zero while they are written.  All that is assumed is that the
objects are in order, as they are in whatever agent there is. -/
theorem display_draws :
    (∀ (a : Agent), a.IsKeyed →
      (∀ v, ∃ d, a.Draws [] v d ∧ (∀ d', a.Draws [] v d' → d' = d) ∧ a.display v = d.render ∧
        ∀ depth, a.objects.size < depth → a.displayFrom depth [] v = d.render) ∧
      (∀ path o d, a.Draws path (.object o) d →
        (d = .circular ↔ o ∈ path) ∧
        (o ∉ path → (a.object o).isArray = true →
          ∃ parts, d = .array parts ∧ Part.total parts = (a.elements o).length) ∧
        (o ∉ path → (a.object o).kind = .ordinary →
          ∃ entries, d = .object entries ∧ entries.map Prod.fst = (a.object o).ownKeys)) ∧
      ∀ o (write : Value → String),
        placesDisplay? (a.elements o).length 0 ((a.elements o).present.map fun (i, v) => (i, write v))
          = some (placesDisplay (a.elements o).length 0
            ((a.elements o).present.map fun (i, v) => (i, write v)))) ∧
    ∀ (n : Nat) (isVerbose : Bool) (requests : List (Request × Tidying)),
      (Agent.ofRequests n isVerbose requests).IsKeyed := by
  refine ⟨fun a ha => ⟨fun v => ?_, fun path o d hd => ⟨hd.circular_iff, hd.array_parts, hd.object_entries⟩,
    fun o write => (ha.isStored_elements o).placesDisplay?_eq write (Nat.zero_le _)⟩, isKeyed_ofRequests⟩
  -- There are never more objects off the path than objects, so every depth beyond their number draws
  -- the same.
  have hdeep : ∀ depth, a.objects.size < depth → a.off [] < depth := fun depth =>
    Nat.lt_of_le_of_lt (a.off_le [])
  obtain ⟨d, hd, hwrite⟩ := Agent.exists_draws ha _ [] v (hdeep _ (Nat.lt_succ_self _))
  refine ⟨d, hd, fun d' hd' => hd'.unique ha hd, hwrite, fun depth hdepth => ?_⟩
  obtain ⟨d', hd', hwrite'⟩ := Agent.exists_draws ha depth [] v (hdeep depth hdepth)
  rw [hwrite', hd'.unique ha hd]

/-- An agent with an array that holds an object twice, and itself. -/
def Agent.tangled : Agent :=
  { Agent.new false with
    objects :=
      #[.ofKind (.array (.ofPlaces
          #[some (.object ⟨1⟩), none, some (.object ⟨1⟩), some (.object ⟨0⟩)])),
        .ofKind .ordinary] }

theorem Agent.isKeyed_tangled : Agent.tangled.IsKeyed := by
  intro o ho
  rcases List.mem_cons.mp ho.val with rfl | ho
  · exact Object.isKeyed_array ⟨Elements.isStored_ofPlaces _, (by decide : 4 ≤ maxArrayLength)⟩
  · rw [List.mem_singleton.mp ho]
    exact Object.isKeyed_ofKind nofun

/-- An object that is held twice is drawn twice, and only the array inside itself is marked. -/
theorem display_draws_tangled : Agent.tangled.IsKeyed ∧
    ∃ d, Agent.tangled.Draws [] (.object ⟨0⟩) d ∧
      d.render = "[\x7b\x7d, <1 empty item>, \x7b\x7d, [Circular]]" := by
  obtain ⟨d, hd, -, hwrite, -⟩ := (display_draws.1 _ Agent.isKeyed_tangled).1 (.object ⟨0⟩)
  exact ⟨Agent.isKeyed_tangled, d, hd, hwrite.symm.trans (by decide +kernel)⟩

end Scriptlet
