import Scriptlet.Proofs.HeldProperties
import Scriptlet.Proofs.PropertyWrites
import Scriptlet.Proofs.Templates

/-!
# Entries

The entries of a value are an array of pairs, each a new array of a key and a value; keys that are symbols
have none.  An object is made from entries by reading each pair back by index and defining the property,
so that from the entries of a value come exactly the properties that it has under texts.

## Main definitions

* `textual` — the properties under keys that are texts.
* `Agent.Lists` — an array has pairs of texts and values as its elements.
* `Machine.takeEntry` — one step of the loop that makes an object from entries.

## Main results

* `entries_apply` — **entries make the array of the pairs**.
* `takeEntry_apply`, `iterate_takeEntry` — one pair after the other becomes a property.
* `fromEntries_entries` — **entries make the properties under texts again**.
-/

namespace Scriptlet

open Eval

/-! ### Pairs -/

/-- The properties under keys that are texts. -/
def textual (es : List (PropertyKey × Value)) : List (Text × Value) :=
  es.filterMap fun p =>
    match p.1 with
    | .text t => some (t, p.2)
    | .symbol _ => none

theorem map_textual (es : List (PropertyKey × Value)) :
    (textual es).map (fun p => (PropertyKey.text p.1, p.2)) = es.filter fun p => !p.1.isSymbol := by
  induction es with
  | nil => rfl
  | cons p es ih =>
    obtain ⟨k, v⟩ := p
    cases k with
    | text t => exact congrArg ((PropertyKey.text t, v) :: ·) ih
    | symbol s => exact ih

/-- **What is listed of a value is what it offers under texts.** -/
theorem listedOf_apply {v : Value} (hv : v.isNullish = false) (a : Agent) :
    listedOf v a = .ok (textual (a.offered v)) a := by
  cases v with
  | undefined | null => cases hv
  | object id =>
    refine congrArg (EStateM.Result.ok · a) ?_
    rw [textual, Agent.offered, List.filterMap_filterMap]
    refine List.filterMap_congr fun k _ => ?_
    rw [Agent.offered?]
    cases k with
    | symbol s => cases ((a.object id).ownProperty? (.symbol s)).bind _ <;> rfl
    | text t =>
      cases (a.object id).ownProperty? (.text t) with
      | none => rfl
      | some p => cases hp : p.isEnumerable <;> simp [hp]
  | text t =>
    refine congrArg (EStateM.Result.ok · a) ?_
    rw [textual, Agent.offered_text, List.filterMap_map]
    exact (congrFun List.filterMap_eq_map _).symm
  | _ => rfl

/-- A pair of a key and a value. -/
def Object.pair (p : Text × Value) : Object := .ofKind (.array (.ofList [.text p.1, p.2]))

namespace Agent

/-- The agent with new objects. -/
def adding (a : Agent) (xs : List Object) : Agent := { a with objects := a.objects ++ xs.toArray }

theorem adding_nil (a : Agent) : a.adding [] = a := by simp [adding]

theorem adding_cons (a : Agent) (x : Object) (xs : List Object) :
    (a.withNew x).adding xs = a.adding (x :: xs) := by
  have hobjects : a.objects.push x ++ xs.toArray = a.objects ++ (x :: xs).toArray :=
    Array.toList_inj.mp (by simp)
  rw [adding, adding, withNew, hobjects]

theorem withNew_adding (a : Agent) (x : Object) (xs : List Object) :
    (a.adding xs).withNew x = a.adding (xs ++ [x]) := by
  have hobjects : (a.objects ++ xs.toArray).push x = a.objects ++ (xs ++ [x]).toArray :=
    Array.toList_inj.mp (by simp)
  rw [adding, adding, withNew, hobjects]

theorem size_adding (a : Agent) (xs : List Object) :
    (a.adding xs).objects.size = a.objects.size + xs.length := by
  rw [adding, Array.size_append, xs.size_toArray]

theorem object_adding (a : Agent) {xs : List Object} {i : Nat} {x : Object} (h : xs[i]? = some x) :
    (a.adding xs).object ⟨a.objects.size + i⟩ = x := by
  rw [object_eq_getD, adding, Array.getElem?_append_right (Nat.le_add_right _ _), Nat.add_sub_cancel_left,
    List.getElem?_toArray, h]
  rfl

end Agent

theorem arrayOf_apply {vs : List Value} (h : vs.length ≤ maxArrayLength) (a : Agent) :
    arrayOf vs a = .ok (.object ⟨a.objects.size⟩) (a.withNew (.ofKind (.array (.ofList vs)))) := by
  unfold arrayOf
  rw [bind_ok (allocateArray_apply (by rwa [Elements.length_ofList]) a)]
  rfl

/-- The pairs are made one after the other. -/
theorem mapM_pairs (l : List (Text × Value)) (a : Agent) :
    (l.mapM fun p => arrayOf [.text p.1, p.2]) a
      = .ok ((List.range' a.objects.size l.length).map fun i => .object ⟨i⟩)
        (a.adding (l.map Object.pair)) := by
  induction l generalizing a with
  | nil =>
    rw [List.map_nil, a.adding_nil]
    rfl
  | cons p l ih =>
    have htwo : [.text p.1, p.2].length ≤ maxArrayLength := Nat.le_of_ble_eq_true rfl
    have hpair : arrayOf [.text p.1, p.2] a = .ok (.object ⟨a.objects.size⟩) (a.withNew (.pair p)) :=
      arrayOf_apply htwo a
    have hsize : (a.withNew (.pair p)).objects.size = a.objects.size + 1 := Array.size_push ..
    rw [List.mapM_cons, bind_ok hpair, bind_ok (ih (a.withNew (.pair p))), hsize, a.adding_cons]
    rfl

/-- The array has the pairs as its elements. -/
structure Agent.Lists (a : Agent) (list : ObjectId) (l : List (Text × Value)) : Prop where
  isArray : (a.object list).isArray = true
  length : (a.elements list).length = l.length
  pair : ∀ i p, l[i]? = some p → ∃ id : ObjectId, (a.elements list).get? i = some (.object id) ∧
    id.index < a.objects.size ∧ a.object id = .pair p

/-! ### Objects from entries -/

/-- Gives the next pair of a walk to an object as a property, or finds that there is none. -/
def Machine.takeEntry (m : Machine) (o : ObjectId) (w : Walk) : Eval (Sum Walk Value) := do
  match ← nextOf w with
  | (none, _) => return .inr (.object o)
  | (some (.object pair), w) =>
    let k ← getFrom pair "0"
    let v ← getFrom pair "1"
    defineOn o (← m.toKey k) v
    return .inl w
  | (some v, _) =>
    raise .typeError ("Iterator value " ++ (← get).display v ++ " is not an entry object")

theorem objectOfEntries_eq (m : Machine) (v : Value) : m.objectOfEntries v = (do
    let w ← startWalk v
    let o ← emptyObject
    Eval.iterate (m.takeEntry o) m.fuel w) := rfl

/-- **Entries make the array of the pairs.** -/
theorem entries_apply (m : Machine) {v : Value} (hv : v.isNullish = false) {a : Agent}
    (hfits : (textual (a.offered v)).length ≤ maxArrayLength) :
    ∃ news list, m.objectFunction .entries [v] a = .ok (.object list) (a.adding news) ∧
      (a.adding news).Lists list (textual (a.offered v)) := by
  generalize hl : textual (a.offered v) = l at hfits
  let ids : List Value := (List.range' a.objects.size l.length).map fun i => .object ⟨i⟩
  -- The pairs come first, in the order of the entries, and the list that holds them is the last
  -- object.
  let news : List Object := l.map .pair ++ [.ofKind (.array (.ofList ids))]
  have hlength : ids.length = l.length := by rw [List.length_map, List.length_range']
  have hpairs : (a.adding (l.map .pair)).objects.size = a.objects.size + l.length := by
    rw [Agent.size_adding, List.length_map]
  have hentries : m.objectFunction .entries [v] a
      = .ok (.object ⟨a.objects.size + l.length⟩) (a.adding news) := by
    change (listedOf v >>= fun l => (l.mapM fun p => arrayOf [.text p.1, p.2]) >>= arrayOf) a = _
    rw [bind_ok (listedOf_apply hv a), hl, bind_ok (mapM_pairs l a), arrayOf_apply (hlength.trans_le hfits),
      hpairs, Agent.withNew_adding]
  have hnews : ∀ i x, news[i]? = some x → (a.adding news).object ⟨a.objects.size + i⟩ = x := fun i x hx =>
    a.object_adding hx
  have hlist : (a.adding news).object ⟨a.objects.size + l.length⟩ = .ofKind (.array (.ofList ids)) := by
    refine hnews _ _ ?_
    rw [List.getElem?_append_right (by rw [List.length_map]), List.length_map, Nat.sub_self]
    rfl
  have helements : (a.adding news).elements ⟨a.objects.size + l.length⟩ = .ofList ids := by
    rw [Agent.elements, hlist]
    rfl
  refine ⟨news, _, hentries, ⟨by rw [hlist]; rfl, ?_, fun i p hp => ?_⟩⟩
  · rw [helements, Elements.length_ofList, hlength]
  · have hi : i < l.length := (List.getElem?_eq_some_iff.mp hp).1
    refine ⟨⟨a.objects.size + i⟩, ?_, ?_, hnews i _ ?_⟩
    · rw [helements, Elements.get?_ofList, List.getElem?_map, List.getElem?_range' hi, Nat.one_mul]
      rfl
    · rw [Agent.size_adding, List.length_append, List.length_map]
      exact Nat.add_lt_add_left (Nat.lt_add_right 1 hi) _
    · rw [List.getElem?_append_left (by rwa [List.length_map]), List.getElem?_map, hp]
      rfl

theorem Object.ownValue?_pair (p : Text × Value) :
    (pair p).ownValue? "0" = some (.text p.1) ∧ (pair p).ownValue? "1" = some p.2 := by
  have hzero : ("0" : PropertyKey).arrayIndex? = some 0 := by decide +kernel
  have hone : ("1" : PropertyKey).arrayIndex? = some 1 := by decide +kernel
  constructor
  · rw [ownValue?, ownProperty?, pair, ofKind]
    dsimp only
    rw [hzero]
    rfl
  · rw [ownValue?, ownProperty?, pair, ofKind]
    dsimp only
    rw [hone]
    rfl

section

variable {m : Machine} {a : Agent} {list : ObjectId} {l : List (Text × Value)}

theorem takeEntry_apply (m : Machine) (h : a.Lists list l) {done : List (PropertyKey × Value)}
    {p : Text × Value} {i : Nat} (hp : l[i]? = some p) (hk : .text p.1 ∉ done.map Prod.fst) :
    m.takeEntry ⟨a.objects.size⟩ (.elements list i) (a.withNew (.holding done))
      = .ok (.inl (.elements list (i + 1))) (a.withNew (.holding (done ++ [(.text p.1, p.2)]))) := by
  let b := a.withNew (.holding done)
  obtain ⟨id, hget, hid, hpair⟩ := h.pair i p hp
  have helements : b.elements list = a.elements list :=
    Agent.elements_withNew (Agent.lt_size_of_isArray h.isArray) _
  have hnext : nextOf (.elements list i) b = .ok (some (.object id), .elements list (i + 1)) b := by
    have hlt : i < (a.elements list).length := h.length ▸ (List.getElem?_eq_some_iff.mp hp).1
    refine congrArg (EStateM.Result.ok · b) ?_
    rw [Agent.advance, helements, if_pos hlt, hget]
    rfl
  have hobject : b.object id = .pair p := (Agent.object_withNew_of_lt hid _).trans hpair
  have hkey : getFrom id "0" b = .ok (.text p.1) b := getFrom_own (hobject ▸ (Object.ownValue?_pair p).1)
  have hvalue : getFrom id "1" b = .ok p.2 b := getFrom_own (hobject ▸ (Object.ownValue?_pair p).2)
  have hadd := adds_defineOn ⟨a.objects.size⟩ b done (.text p.1) p.2 (Array.size_push .. ▸ Nat.lt_succ_self _)
    (a.object_withNew _) hk
  rw [a.put_withNew] at hadd
  change (nextOf (.elements list i) >>= _) b = _
  rw [bind_ok hnext]
  change (getFrom id "0" >>= fun k => getFrom id "1" >>= fun v => m.toKey k >>= fun k =>
    defineOn ⟨a.objects.size⟩ k v >>= fun _ => pure (Sum.inl (Walk.elements list (i + 1)))) b = _
  rw [bind_ok hkey, bind_ok hvalue]
  change (defineOn ⟨a.objects.size⟩ (.text p.1) p.2 >>= fun _ =>
    pure (Sum.inl (Walk.elements list (i + 1)))) b = _
  rw [bind_ok hadd]
  rfl

/-- **All pairs that are left become properties**, one after the other. -/
theorem iterate_takeEntry (m : Machine) (h : a.Lists list l) (hnodup : (l.map Prod.fst).Nodup)
    {done rest : List (Text × Value)} (hl : l = done ++ rest) {fuel : Nat} (hfuel : rest.length < fuel) :
    Eval.iterate (m.takeEntry ⟨a.objects.size⟩) fuel (.elements list done.length)
        (a.withNew (.holding (done.map fun p => (.text p.1, p.2))))
      = .ok (.object ⟨a.objects.size⟩) (a.withNew (.holding (l.map fun p => (.text p.1, p.2)))) := by
  -- on the pairs that are left: the walk stands behind the others, whose properties the object has
  induction rest generalizing done fuel with
  | nil =>
    obtain ⟨fuel, rfl⟩ := Nat.exists_eq_succ_of_ne_zero (Nat.ne_of_gt hfuel)
    rw [List.append_nil] at hl
    subst hl
    -- No pairs are left: the walk stands at the end of the list.
    have hend : ¬l.length < (a.elements list).length := h.length ▸ Nat.lt_irrefl _
    have hnext : nextOf (.elements list l.length) (a.withNew (.holding (l.map fun p => (.text p.1, p.2))))
        = .ok (none, .done) (a.withNew (.holding (l.map fun p => (.text p.1, p.2)))) := by
      refine congrArg (EStateM.Result.ok · _) ?_
      rw [Agent.advance, Agent.elements_withNew (Agent.lt_size_of_isArray h.isArray), if_neg hend]
    have htake : m.takeEntry ⟨a.objects.size⟩ (.elements list l.length)
        (a.withNew (.holding (l.map fun p => (.text p.1, p.2)))) = .ok (.inr (.object ⟨a.objects.size⟩)) _ :=
      bind_ok hnext
    rw [iterate_succ, bind_ok htake]
    rfl
  | cons p rest ih =>
    obtain ⟨fuel, rfl⟩ := Nat.exists_eq_succ_of_ne_zero (Nat.ne_of_gt (Nat.zero_lt_of_lt hfuel))
    have hp : l[done.length]? = some p := by
      rw [hl, List.getElem?_append_right (Nat.le_refl _), Nat.sub_self]
      rfl
    -- No key comes twice, so the property is not there yet and comes last.
    have hk : PropertyKey.text p.1 ∉ (done.map fun p => (PropertyKey.text p.1, p.2)).map Prod.fst := by
      rw [hl, List.map_append] at hnodup
      intro hmem
      rw [List.map_map] at hmem
      obtain ⟨q, hq, heq⟩ := List.mem_map.mp hmem
      exact (List.nodup_append.mp hnodup).2.2 q.1 (List.mem_map_of_mem hq) p.1 List.mem_cons_self
        (PropertyKey.text.inj heq)
    have hnext : l = (done ++ [p]) ++ rest := hl.trans (List.append_cons ..)
    have hrest := ih hnext (Nat.lt_of_succ_lt_succ hfuel)
    rw [List.length_append, List.map_append] at hrest
    rw [iterate_succ, bind_ok (takeEntry_apply m h hp hk)]
    exact hrest

/-- **The pairs of an array make an object with these properties.** -/
theorem fromEntries_apply (m : Machine) (h : a.Lists list l) (hnodup : (l.map Prod.fst).Nodup)
    (hfuel : l.length < m.fuel) : m.objectFunction .fromEntries [.object list] a
      = .ok (.object ⟨a.objects.size⟩) (a.withNew (.holding (l.map fun p => (.text p.1, p.2)))) := by
  have hstart : startWalk (.object list) a = .ok (.elements list 0) a := by
    have harray : a.array? (.object list) = some list := if_pos h.isArray
    unfold startWalk
    rw [bind_ok (get_apply a), harray]
    rfl
  have hempty : emptyObject a = .ok ⟨a.objects.size⟩ (a.withNew .empty) := rfl
  have hall : l = [] ++ l := rfl
  change m.objectOfEntries (.object list) a = _
  rw [objectOfEntries_eq, bind_ok hstart, bind_ok hempty]
  exact iterate_takeEntry m h hnodup hall hfuel

end

/-- **Entries make the properties under texts again.** -/
theorem fromEntries_entries (m : Machine) {b : Agent} (hb : b.IsKeyed) {v : Value}
    (hv : v.isNullish = false) (hfits : (textual (b.offered v)).length ≤ maxArrayLength)
    (hfuel : (textual (b.offered v)).length < m.fuel) :
    ∃ news, (do m.objectFunction .fromEntries [← m.objectFunction .entries [v]]) b
      = .ok (.object ⟨b.objects.size + news.length⟩)
        ((b.adding news).withNew (.holding ((b.offered v).filter fun p => !p.1.isSymbol))) := by
  obtain ⟨news, list, hentries, hlists⟩ := entries_apply m hv hfits
  have hnodup : ((textual (b.offered v)).map Prod.fst).Nodup := by
    have hkeys := Agent.nodup_offered hb v fun k => !k.isSymbol
    rw [← map_textual, List.map_map] at hkeys
    exact List.Nodup.of_map PropertyKey.text (by rwa [List.map_map])
  refine ⟨news, ?_⟩
  rw [bind_ok hentries, fromEntries_apply m hlists hnodup hfuel, map_textual, Agent.size_adding]

end Scriptlet
