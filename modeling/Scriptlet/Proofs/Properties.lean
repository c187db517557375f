import Scriptlet.Agent.Walk
import Scriptlet.Proofs.Methods

/-!
# Related reading and writing of properties

Corresponding values look the same to readers, have corresponding properties, and are walked over in
the same way.

## Main results

* `Agrees.display` — **corresponding values are displayed alike**.
* `Related.getOf`, `Related.getFrom`, `Related.defineOn`, `Related.copyProperties` — properties.
* `Related.startWalk`, `Related.nextOf`, `Related.restOf` — walks.
* `Related.callable` — values as functions.
-/

namespace Scriptlet

open Eval

variable {φ : RealmId → Filing} {ρ : World} {K : Stack φ} {a b : Agent}

/-- Corresponding values under the same key. -/
def World.keyed {κ : Type} (ρ : World) (p q : κ × Value) : Prop := p.1 = q.1 ∧ ρ.value p.2 q.2

/-- What corresponds under a key does so in later worlds. -/
theorem World.keyed.mono {κ : Type} {σ : World} (h : ρ ≤ σ) {l l' : List (κ × Value)}
    (hl : List.Forall₂ ρ.keyed l l') : List.Forall₂ σ.keyed l l' :=
  hl.imp fun _ _ hpq => ⟨hpq.1, hpq.2.mono h⟩

/-! ### Values as readers see them -/

namespace Agrees

/-- The objects around a value are different ones, so there are no more of them than objects. -/
theorem length_le_objects (h : Agrees ρ K a b) {u : List (ObjectId × ObjectId)}
    (hu : ∀ p ∈ u, ρ.object p.1 p.2) (hl : (u.map Prod.fst).Nodup) (hr : (u.map Prod.snd).Nodup) :
    u.length ≤ a.objects.size ∧ u.length ≤ b.objects.size := by
  have hinj : Function.Injective ObjectId.index := by
    rintro ⟨i⟩ ⟨j⟩ rfl
    rfl
  constructor
  · rw [← List.length_map Prod.fst]
    refine List.length_le_of_nodup hinj hl fun o ho => ?_
    obtain ⟨p, hp, rfl⟩ := List.mem_map.mp ho
    exact h.lt_left (hu p hp)
  · rw [← List.length_map Prod.snd]
    refine List.length_le_of_nodup hinj hr fun o ho => ?_
    obtain ⟨p, hp, rfl⟩ := List.mem_map.mp ho
    exact h.lt_right (hu p hp)

/-- An object is among those around a value on both sides or on neither. -/
theorem contains_eq {u : List (ObjectId × ObjectId)} (hu : ∀ p ∈ u, ρ.object p.1 p.2)
    {o p : ObjectId} (hop : ρ.object o p) :
    (u.map Prod.fst).contains o = (u.map Prod.snd).contains p := by
  rw [Bool.eq_iff_iff, List.contains_iff_mem, List.contains_iff_mem, List.mem_map, List.mem_map]
  constructor
  · rintro ⟨q, hq, rfl⟩
    exact ⟨q, hq, ρ.object_unique.2 (hu q hq) hop⟩
  · rintro ⟨q, hq, rfl⟩
    exact ⟨q, hq, ρ.object_unique.1 (hu q hq) hop⟩

/-- The depths suffice, as the objects around the value are different ones. -/
theorem displayFrom (h : Agrees ρ K a b) :
    ∀ (n m : Nat) (u : List (ObjectId × ObjectId)) {v w : Value}, ρ.value v w →
      (∀ p ∈ u, ρ.object p.1 p.2) → (u.map Prod.fst).Nodup → (u.map Prod.snd).Nodup →
      a.objects.size < n + u.length → b.objects.size < m + u.length →
      a.displayFrom n (u.map Prod.fst) v = b.displayFrom m (u.map Prod.snd) w := by
  intro n
  -- The objects on the path are all different: when the depth is used up the path would be longer
  -- than there are objects, on either side.
  induction n with
  | zero =>
    intro m u v w _ hu hl hr hn _
    have hle := (h.length_le_objects hu hl hr).1
    omega
  | succ n ih =>
    intro m u v w hv hu hl hr hn hm
    cases m with
    | zero =>
      have hle := (h.length_le_objects hu hl hr).2
      omega
    | succ m =>
      cases hv with
      | @object o p hop =>
        simp only [Agent.displayFrom]
        rw [contains_eq hu hop]
        split
        · rfl
        · rename_i hmem
          have hinner : ∀ {v w}, ρ.value v w →
              a.displayFrom n (o :: u.map Prod.fst) v = b.displayFrom m (p :: u.map Prod.snd) w := by
            intro v w hv
            refine ih m ((o, p) :: u) hv (List.forall_mem_cons.mpr ⟨hop, hu⟩) ?_ ?_ ?_ ?_
            · refine List.nodup_cons.mpr ⟨fun ho => hmem ?_, hl⟩
              rw [← contains_eq hu hop]
              exact List.contains_iff_mem.mpr ho
            · exact List.nodup_cons.mpr
                ⟨fun hp => hmem (List.contains_iff_mem.mpr hp), hr⟩
            · rw [List.length_cons]
              omega
            · rw [List.length_cons]
              omega
          have hobj := h.object_rel hop
          have hmessage := hobj.ownValue? "message"
          have hkeys := hobj.ownKeys
          have hvalues := fun k => World.value?.getD (hobj.ownValue? k)
          generalize a.object o = x, b.object p = y at hobj hmessage hkeys hvalues
          -- Related objects are of one kind, so they are written in one way.
          have hk := hobj.kind
          generalize x.kind = k, y.kind = l at hk
          cases hk with
          | array he =>
            dsimp only
            rw [he.length_eq]
            congr 4
            exact List.map_rel (fun p q hpq => by rw [hpq.1, hinner hpq.2]) he.present
          | closure hc =>
            dsimp only
            rw [hc.name]
          | builtin b => rfl
          | error k =>
            dsimp only
            obtain ⟨h1, h2⟩ | ⟨v, w, h1, h2, hvw⟩ := Option.rel_cases hmessage
            · rw [h1, h2]
            · rw [h1, h2]
              cases hvw <;> rfl
          | ordinary =>
            dsimp only
            rw [hkeys]
            cases y.ownKeys with
            | nil => rfl
            | cons k keys =>
              dsimp only
              congr 3
              refine List.map_congr_left fun k _ => ?_
              rw [hinner (hvalues k)]
      | _ => rfl

/-- **Corresponding values are displayed alike.** -/
theorem display (h : Agrees ρ K a b) {v w : Value} (hv : ρ.value v w) :
    a.display v = b.display w :=
  h.displayFrom _ _ [] hv (by simp) (by simp) (by simp) (by simp) (by simp)

/-- The text of a function is that of its code, or says that it is built in. -/
theorem functionSource (h : Agrees ρ K a b) {o p : ObjectId} (hop : ρ.object o p) :
    a.functionSource o = b.functionSource p := by
  unfold Agent.functionSource
  have hk := (h.object_rel hop).kind
  generalize (a.object o).kind = k, (b.object p).kind = l at hk
  cases hk with
  | closure hc =>
    obtain ⟨x, y, hx, hy, hxy⟩ := h.realm hc.realm
    dsimp only
    rw [hx, hy, hc.code, Option.map_some, Option.map_some, hxy.source]
  | _ => rfl

end Agrees

/-! ### Reading -/

namespace Agrees

/-- What values have because of their kind corresponds. -/
theorem feature? (h : Agrees ρ K a b) {v w : Value} (hv : ρ.value v w) (k : PropertyKey) :
    ρ.value? (a.feature? v k) (b.feature? w k) := by
  cases hv with
  | object hop => exact (h.object_rel hop).feature? k
  | text t =>
    simp only [Agent.feature?, Text.feature?]
    split
    · cases t.charAt? _ with
      | none => exact .none
      | some t => exact .some (.text t)
    · split
      · exact .some (.refl rfl)
      · exact .none
  | symbol s =>
    simp only [Agent.feature?, Symbol.feature?]
    split
    · cases s.description <;> exact .some (.refl rfl)
    · exact .none
  | _ => exact .none

/-- The method of a name is the same: it depends on the kind of the value. -/
theorem method? (h : Agrees ρ K a b) {v w : Value} (hv : ρ.value v w) (name : String) :
    a.method? v name = b.method? w name := by
  cases hv with
  | object hop => exact (h.object_rel hop).method? name
  | _ => rfl

/-- Corresponding objects list the same keys with corresponding values. -/
theorem listed (h : Agrees ρ K a b) {o p : ObjectId} (hop : ρ.object o p) :
    List.Forall₂ ρ.keyed (a.listed o) (b.listed p) := by
  have hobj := h.object_rel hop
  unfold Agent.listed
  dsimp only
  rw [hobj.ownKeys]
  refine List.filterMap_same (fun k => ?_) _
  cases k with
  | symbol s => exact .none
  | text t =>
    obtain ⟨h1, h2⟩ | ⟨x, y, h1, h2, hxy⟩ := Option.rel_cases (hobj.ownProperty? (.text t))
    · rw [h1, h2]
      exact .none
    · rw [h1, h2]
      dsimp only
      rw [hxy.isEnumerable]
      split
      · exact .some ⟨rfl, hxy.value⟩
      · exact .none

end Agrees

namespace Related

variable {o p : ObjectId} {v w : Value}

/-- **What values of a kind have in common corresponds.** -/
theorem common? (hv : ρ.value v w) (k : PropertyKey) :
    Related ρ K (Eval.common? v k) (Eval.common? w k) fun σ x y => σ.value? x y := by
  refine get fun a b hab => ?_
  obtain ⟨h1, h2⟩ | ⟨x, y, h1, h2, hxy⟩ := Option.rel_cases (hab.feature? hv k)
  · rw [h1, h2]
    cases k with
    | symbol s => exact pure .none
    | text t =>
      refine get fun a b hab => ?_
      rw [hab.method? hv]
      cases b.method? w t.toString with
      | none => exact pure .none
      | some m => exact (method m).bind fun _ hm => pure (.some hm)
  · rw [h1, h2]
    exact pure (.some hxy)

/-- An own property is looked up first, and then what the kind has in common. -/
theorem getFrom (h : ρ.object o p) (k : PropertyKey) :
    Related ρ K (Eval.getFrom o k) (Eval.getFrom p k) fun σ v w => σ.value v w := by
  refine (object h).bind fun hle hxy => ?_
  obtain ⟨h1, h2⟩ | ⟨v, w, h1, h2, hvw⟩ := Option.rel_cases (hxy.ownValue? k)
  · rw [h1, h2]
    exact (common? (.object (hle.object h)) k).bind fun _ hc => pure (World.value?.getD hc)
  · rw [h1, h2]
    exact pure hvw

/-- The property of a value, whatever the value is. -/
theorem getOf (hv : ρ.value v w) (k : PropertyKey) :
    Related ρ K (Eval.getOf v k) (Eval.getOf w k) fun σ v w => σ.value v w := by
  have hcommon := common? (K := K) hv k
  cases hv with
  | object hop => exact getFrom hop k
  | undefined | null => exact raise _ _
  | _ => exact hcommon.bind fun _ hc => pure (World.value?.getD hc)

/-! ### Creating -/

theorem defineOn (h : ρ.object o p) (k : PropertyKey) (hv : ρ.value v w) :
    Related ρ K (Eval.defineOn o k v) (Eval.defineOn p k w) fun _ _ _ => True := by
  refine (changeObject (R := fun _ x y => x = y) h (fun hxy => hxy.define k hv)
    (Object.KeepsFunctions.define k v)).bind fun _ hxy => ?_
  rw [hxy]
  split
  · exact pure trivial
  · exact raise _ _

/-- Properties are defined one after the other. -/
theorem defineAll {l l' : List (PropertyKey × Value)} (h : ρ.object o p)
    (hl : List.Forall₂ ρ.keyed l l') :
    Related ρ K (Eval.defineAll o l) (Eval.defineAll p l') fun _ _ _ => True := by
  induction l generalizing ρ l' with
  | nil =>
    cases hl
    exact pure trivial
  | cons x l ih =>
    obtain ⟨k, v⟩ := x
    cases hl with
    | @cons _ y _ l' hxy hl =>
      obtain ⟨k', w⟩ := y
      obtain ⟨rfl, hv⟩ : k = k' ∧ ρ.value v w := hxy
      exact (defineOn h k hv).bind fun hle _ => ih (hle.object h) (World.keyed.mono hle hl)

/-- What is copied from a value are its enumerable properties, or the units of a text. -/
theorem copied (hv : ρ.value v w) :
    Related ρ K (Eval.copied v) (Eval.copied w) fun σ l l' => List.Forall₂ σ.keyed l l' := by
  cases hv with
  | object hop =>
    refine (object hop).bind fun _ hxy => pure ?_
    rw [hxy.ownKeys]
    refine List.filterMap_same (fun k => ?_) _
    obtain ⟨h1, h2⟩ | ⟨p, q, h1, h2, hpq⟩ := Option.rel_cases (hxy.ownProperty? k)
    · rw [h1, h2]
      exact .none
    · rw [h1, h2]
      dsimp only
      rw [hpq.isEnumerable]
      split
      · exact .some ⟨rfl, hpq.value⟩
      · exact .none
  | text t => exact pure (List.map_same (fun p => ⟨rfl, .text _⟩) _)
  | _ => exact pure .nil

/-- The keys that are left out are the same. -/
theorem copyProperties (h : ρ.object o p) (hv : ρ.value v w) (excluded : List PropertyKey) :
    Related ρ K (Eval.copyProperties o v excluded) (Eval.copyProperties p w excluded)
      fun _ _ _ => True := by
  refine (copied hv).bind fun hle hl => defineAll (hle.object h) ?_
  exact List.filter_rel (fun p q hpq => congrArg (fun k => !excluded.contains k) hpq.1) hl

/-! ### Listing -/

theorem keysOf (h : ρ.object o p) :
    Related ρ K (Eval.keysOf o) (Eval.keysOf p) fun σ vs ws => σ.values vs ws := by
  refine get fun a b hab => pure ?_
  refine List.forall₂_map_left_iff.mpr (List.forall₂_map_right_iff.mpr ?_)
  refine (hab.listed h).imp fun p q hpq => ?_
  obtain ⟨t, v⟩ := p
  obtain ⟨u, w⟩ := q
  obtain ⟨rfl, -⟩ : t = u ∧ ρ.value v w := hpq
  exact .text t

/-! ### Functions -/

/-- A value is a function on both sides, or the same error is thrown. -/
theorem callable (hv : ρ.value v w) :
    Related ρ K (Eval.callable v) (Eval.callable w) fun σ o p => σ.callable o p := by
  refine noting fun a b hab => ?_
  obtain ⟨σ, ext, hagree, hf⟩ := hab.function? hv
  refine ⟨σ, ext, hagree, ?_⟩
  obtain ⟨h1, h2⟩ | ⟨o, p, h1, h2, hop⟩ := Option.rel_cases hf
  · rw [h1, h2]
    refine get fun a b hab => ?_
    rw [hab.display (hv.mono ext.le)]
    exact raise _ _
  · rw [h1, h2]
    exact pure hop

end Related

/-! ### Walks -/

/-- Corresponding walks. -/
inductive Walk.Rel (ρ : World) : Walk → Walk → Prop
  | elements {o p} (h : ρ.object o p) (next : Nat) : Rel ρ (.elements o next) (.elements p next)
  | points (rest : List Nat) : Rel ρ (.points rest) (.points rest)
  | done : Rel ρ .done .done

/-- Walks correspond in later worlds. -/
theorem Walk.Rel.mono {σ : World} (h : ρ ≤ σ) {w w' : Walk} (hw : Walk.Rel ρ w w') :
    Walk.Rel σ w w' := by
  cases hw with
  | elements ho n => exact .elements (h.object ho) n
  | points ps => exact .points ps
  | done => exact .done

namespace Agrees

/-- A step takes corresponding elements, or the same point of a text. -/
theorem advance (h : Agrees ρ K a b) {w w' : Walk} (hw : Walk.Rel ρ w w') :
    ρ.value? (a.advance w).1 (b.advance w').1 ∧ Walk.Rel ρ (a.advance w).2 (b.advance w').2 := by
  cases hw with
  | elements ho n =>
    have he := h.elements ho
    simp only [Agent.advance, he.length_eq]
    split
    · exact ⟨.some (World.value?.getD (he.get? n)), .elements ho _⟩
    · exact ⟨.none, .done⟩
  | points ps =>
    cases ps with
    | nil => exact ⟨.none, .done⟩
    | cons p ps => exact ⟨.some (.text _), .points ps⟩
  | done => exact ⟨.none, .done⟩

/-- So do all steps that are left. -/
theorem remaining (h : Agrees ρ K a b) {w w' : Walk} (hw : Walk.Rel ρ w w') :
    ρ.values (a.remaining w) (b.remaining w') := by
  cases hw with
  | elements ho n =>
    have he := h.elements ho
    simp only [Agent.remaining, Elements.toList]
    rw [he.length_eq]
    exact List.forall₂_drop n (List.map_same (fun i => World.value?.getD (he.get? i)) _)
  | points ps => exact List.map_same (fun p => .text _) ps
  | done => exact .nil

end Agrees

namespace Related

variable {v v' : Value} {w w' : Walk}

/-- A walk begins on both sides, or the same error is thrown. -/
theorem startWalk (hv : ρ.value v v') :
    Related ρ K (Eval.startWalk v) (Eval.startWalk v') fun σ w w' => Walk.Rel σ w w' := by
  refine get fun a b hab => ?_
  obtain ⟨h1, h2⟩ | ⟨o, p, h1, h2, hop⟩ := Option.rel_cases (hab.array? hv)
  · rw [h1, h2]
    have hraise : Related ρ K
        (MonadState.get >>= fun a => Eval.raise .typeError (a.display v ++ " is not iterable"))
        (MonadState.get >>= fun b => Eval.raise .typeError (b.display v' ++ " is not iterable"))
        fun σ w w' => Walk.Rel σ w w' := by
      refine get fun a b hab => ?_
      rw [hab.display hv]
      exact raise _ _
    cases hv with
    | text t => exact pure (.points _)
    | _ => exact hraise
  · rw [h1, h2]
    cases hv <;> exact pure (.elements hop 0)

theorem nextOf (hw : Walk.Rel ρ w w') :
    Related ρ K (Eval.nextOf w) (Eval.nextOf w')
      fun σ r r' => σ.value? r.1 r'.1 ∧ Walk.Rel σ r.2 r'.2 :=
  get fun _ _ hab => pure (hab.advance hw)

theorem restOf (hw : Walk.Rel ρ w w') :
    Related ρ K (Eval.restOf w) (Eval.restOf w') fun σ vs ws => σ.values vs ws :=
  get fun _ _ hab => pure (hab.remaining hw)

theorem itemsOf (hv : ρ.value v v') :
    Related ρ K (Eval.itemsOf v) (Eval.itemsOf v') fun σ vs ws => σ.values vs ws :=
  (startWalk hv).bind fun _ hw => restOf hw

end Related

end Scriptlet
