import Scriptlet.Proofs.World

/-!
# Corresponding environments

The places of environments are kept in order: the free ones hold nothing, and each is listed once.
A new environment then never takes the place of one that is there.  A search for a name goes through
corresponding environments on both sides and ends in corresponding ones.

## Main definitions

* `Environments.IsTidy` — the free places are in order.
* `Environments.Rel` — corresponding environments are there on both sides.
* `Environments.Holder.Rel` — corresponding outcomes of a search.

## Main results

* `Environments.get?_allocate_self`, `Environments.get?_allocate_of_ne`,
  `Environments.vacant_allocate` — allocation.
* `Environments.Rel.holder` — **a search ends in corresponding places, and never in an empty one**.
-/

namespace Scriptlet

/-! ### Variables of an environment -/

namespace Environment

variable {ρ : World}

/-- The first variable of a name is looked up in both lists at the same place. -/
theorem lookup_rel {l l' : List (String × Variable)} (h : List.Forall₂ (Variable.NamedRel ρ) l l')
    (name : String) : Option.Rel (Variable.Rel ρ) (lookup name l) (lookup name l') := by
  induction h with
  | nil => exact .none
  | @cons p q _ _ hpq _ ih =>
    obtain ⟨n, u⟩ := p
    obtain ⟨n', v⟩ := q
    obtain ⟨hn, huv⟩ := hpq
    dsimp only at hn huv
    subst hn
    simp only [lookup]
    split
    · exact .some huv
    · exact ih

/-- Assigning goes to the same place in both lists, or to the end of both. -/
theorem assign_rel {l l' : List (String × Variable)} (h : List.Forall₂ (Variable.NamedRel ρ) l l')
    (name : String) {u v : Variable} (huv : Variable.Rel ρ u v) :
    List.Forall₂ (Variable.NamedRel ρ) (assign name u l) (assign name v l') := by
  induction h with
  | nil => exact .cons ⟨rfl, huv⟩ .nil
  | @cons p q _ _ hpq h ih =>
    obtain ⟨n, u'⟩ := p
    obtain ⟨n', v'⟩ := q
    obtain ⟨hn, huv'⟩ := hpq
    dsimp only at hn huv'
    subst hn
    simp only [assign]
    split
    · exact .cons ⟨rfl, huv⟩ h
    · exact .cons ⟨rfl, huv'⟩ ih

/-- What is assigned to a name is found under it, and nothing else is found otherwise than before. -/
theorem lookup_assign (name n : String) (v : Variable) (l : List (String × Variable)) :
    lookup n (assign name v l) = if name = n then some v else lookup n l := by
  induction l with
  | nil => simp [assign, lookup]
  | cons p l ih =>
    obtain ⟨m, w⟩ := p
    by_cases hm : m = name
    · subst hm
      simp only [assign, lookup, beq_self_eq_true, if_true, beq_iff_eq]
      split <;> rfl
    · simp only [assign, lookup, beq_iff_eq, if_neg hm, ih]
      by_cases hn : name = n
      · subst hn
        simp [hm]
      · rw [if_neg hn, if_neg hn]

theorem find?_insert (e : Environment) (name n : String) (v : Variable) :
    (e.insert name v).find? n = if name = n then some v else e.find? n :=
  lookup_assign name n v e.entries

theorem has_insert (e : Environment) (name n : String) (v : Variable) :
    (e.insert name v).has n = true ↔ name = n ∨ e.has n = true := by
  unfold has
  rw [find?_insert]
  split <;> simp_all

namespace Rel

variable {e : EnvironmentId} {x y : Environment}

theorem find? (h : Rel ρ e x y) (name : String) :
    Option.Rel (Variable.Rel ρ) (x.find? name) (y.find? name) :=
  lookup_rel h.entries name

theorem has (h : Rel ρ e x y) (name : String) : x.has name = y.has name := by
  unfold Environment.has
  obtain ⟨hx, hy⟩ | ⟨u, v, hx, hy, -⟩ := Option.rel_cases (h.find? name) <;> rw [hx, hy]
  rfl

/-- Corresponding environments have no variables that may be deleted. -/
theorem lasting (h : Rel ρ e x y) {name : String} {v : Variable} (hv : x.find? name = some v) :
    v.isDeletable = false := by
  obtain ⟨hn, -⟩ | ⟨u, w, hu, -, huw⟩ := Option.rel_cases (h.find? name)
  · rw [hn] at hv
    cases hv
  · cases hu.symm.trans hv
    exact huw.isDeletable.1

/-- A name that the world says is bound has variables on both sides. -/
theorem isSome_find? (h : Rel ρ e x y) {name : String} (hb : ρ.isBound e name) :
    ∃ u v, x.find? name = some u ∧ y.find? name = some v ∧ Variable.Rel ρ u v := by
  have hx := h.bound name hb
  unfold Environment.has at hx
  obtain ⟨hn, -⟩ | huv := Option.rel_cases (h.find? name)
  · rw [hn] at hx
    cases hx
  · exact huv

/-- A variable may be put where the plan allows its name. -/
theorem insert (h : Rel ρ e x y) {name : String} (hn : (ρ.plan e).allows name) {u v : Variable}
    (huv : Variable.Rel ρ u v) : Rel ρ e (x.insert name u) (y.insert name v) where
  outer := h.outer
  entries := assign_rel h.entries name huv
  plan := h.plan
  depth := h.depth
  allowed := by
    intro n
    rw [has_insert]
    rintro (rfl | hx)
    · exact hn
    · exact h.allowed n hx
  bound := fun n hb => (has_insert x name n u).mpr (.inr (h.bound n hb))

end Rel

end Environment

/-! ### Places -/

namespace Environments

/-- The free places are those that hold nothing, and each is listed once. -/
structure IsTidy (s : Environments) : Prop where
  nodup : s.free.Nodup
  mem_free : ∀ i, i ∈ s.free ↔ s.records[i]? = some none

variable {s : Environments}

theorem IsTidy.vacant (h : s.IsTidy) : ∀ i ∈ s.free, s.records[i]? = some none :=
  fun i => (h.mem_free i).mp

theorem isTidy_empty : empty.IsTidy := ⟨.nil, fun i => by simp [empty]⟩

/-- An environment is at a place if the record there is one. -/
theorem get?_eq_some {id : EnvironmentId} {e : Environment} :
    s.get? id = some e ↔ s.records[id.index]? = some (some e) := by
  unfold get?
  cases s.records[id.index]? <;> simp

theorem lt_of_get? {id : EnvironmentId} {e : Environment} (h : s.get? id = some e) :
    id.index < s.records.size := by
  rw [get?_eq_some] at h
  exact (Array.getElem?_eq_some_iff.mp h).1

/-- A place that is given away was empty. -/
theorem vacant_allocate (h : s.IsTidy) (e : Environment) : s.get? (s.allocate e).1 = none := by
  obtain ⟨records, free, threshold⟩ := s
  cases free with
  | nil => simp [allocate, get?]
  | cons i free =>
    have hi := h.vacant i List.mem_cons_self
    simp only [allocate, get?, hi, Option.join_some]

theorem get?_allocate_self (h : s.IsTidy) (e : Environment) :
    (s.allocate e).2.get? (s.allocate e).1 = some e := by
  obtain ⟨records, free, threshold⟩ := s
  cases free with
  | nil => simp [allocate, get?]
  | cons i free =>
    have hi := h.vacant i List.mem_cons_self
    have hlt : i < records.size := (Array.getElem?_eq_some_iff.mp hi).1
    simp [allocate, get?, hlt]

/-- All other places stay as they are. -/
theorem get?_allocate_of_ne (e : Environment) {id : EnvironmentId} (hne : id ≠ (s.allocate e).1) :
    (s.allocate e).2.get? id = s.get? id := by
  obtain ⟨records, free, threshold⟩ := s
  cases free with
  | nil =>
    have hi : id.index ≠ records.size := fun hi => hne (congrArg EnvironmentId.mk hi)
    simp only [allocate, get?, Array.getElem?_push, if_neg hi]
  | cons i free =>
    have hi : i ≠ id.index := fun hi => hne (congrArg EnvironmentId.mk hi.symm)
    simp only [allocate, get?, Array.getElem?_setIfInBounds_ne hi]

/-- A place that has been given away is not free any more. -/
theorem isTidy_allocate (h : s.IsTidy) (e : Environment) : (s.allocate e).2.IsTidy := by
  obtain ⟨records, free, threshold⟩ := s
  cases free with
  | nil =>
    refine ⟨List.nodup_nil, fun j => ?_⟩
    simp only [allocate, Array.getElem?_push]
    split
    · simp
    · exact h.mem_free j
  | cons i free =>
    have hnodup := List.nodup_cons.mp h.nodup
    refine ⟨hnodup.2, fun j => ?_⟩
    have hj := h.mem_free j
    by_cases hij : i = j
    · subst hij
      simp [allocate, hnodup.1, Array.getElem?_setIfInBounds]
    · simp only [allocate, Array.getElem?_setIfInBounds_ne hij]
      rwa [List.mem_cons, or_iff_right (Ne.symm hij)] at hj

theorem get?_set_self {id : EnvironmentId} {x : Environment} (h : s.get? id = some x)
    (e : Environment) : (s.set id e).get? id = some e := by
  rw [get?_eq_some]
  simp only [set, Array.getElem?_setIfInBounds, lt_of_get? h, if_true]

theorem get?_set_of_ne {id j : EnvironmentId} (hne : j ≠ id) (e : Environment) :
    (s.set id e).get? j = s.get? j := by
  have hi : id.index ≠ j.index := fun hi => hne (by cases id; cases j; cases hi; rfl)
  simp only [set, get?, Array.getElem?_setIfInBounds_ne hi]

/-- Setting an environment empties no place. -/
theorem isTidy_set (h : s.IsTidy) {id : EnvironmentId} {x : Environment} (hx : s.get? id = some x)
    (e : Environment) : (s.set id e).IsTidy := by
  refine ⟨h.nodup, fun i => ?_⟩
  by_cases hi : id.index = i
  · subst hi
    have hfree : id.index ∉ s.free := fun hfree => by
      rw [get?_eq_some, h.vacant _ hfree] at hx
      cases hx
    simp [set, hfree, Array.getElem?_setIfInBounds]
  · simp only [set, Array.getElem?_setIfInBounds_ne hi]
    exact h.mem_free i

/-! ### Searches -/

/-- Corresponding environments are there on both sides, and the free places of both are in order.  No
variable of the first ones may be deleted, whether its environment corresponds or not. -/
structure Rel (ρ : World) (s t : Environments) : Prop where
  record : ∀ {e f}, ρ.environment e f →
    ∃ x y, s.get? e = some x ∧ t.get? f = some y ∧ Environment.Rel ρ e x y
  tidy_left : s.IsTidy
  tidy_right : t.IsTidy
  lasting : ∀ {e x name v}, s.get? e = some x → x.find? name = some v → v.isDeletable = false

/-- Corresponding outcomes of a search: corresponding environments, or nowhere. -/
inductive Holder.Rel (ρ : World) : Holder → Holder → Prop
  | environment {e f} (h : ρ.environment e f) : Rel ρ (.environment e) (.environment f)
  | nowhere : Rel ρ .nowhere .nowhere

variable {ρ : World} {t : Environments}

/-- No more environments than places can be passed without passing one twice. -/
theorem length_le_of_nodup {l : List EnvironmentId} (hl : l.Nodup)
    (hs : ∀ e ∈ l, e.index < s.records.size) : l.length ≤ s.records.size := by
  have hinj : Function.Injective EnvironmentId.index := by
    rintro ⟨i⟩ ⟨j⟩ rfl
    rfl
  exact List.length_le_of_nodup hinj hl hs

/-- The environments that a search has passed are deeper than where it is, so they are different
ones, and fewer than there are places: the search does not run out of steps. -/
theorem Rel.holderFrom (h : Rel ρ s t) (name : String) :
    ∀ (n m : Nat) (u : List (EnvironmentId × EnvironmentId)) {e f : EnvironmentId},
      ρ.environment e f → (∀ p ∈ u, ρ.environment p.1 p.2) →
      (∀ p ∈ u, (ρ.plan e).depth < (ρ.plan p.1).depth) → (u.map Prod.fst).Nodup →
      (u.map Prod.snd).Nodup → s.records.size < n + u.length → t.records.size < m + u.length →
      Holder.Rel ρ (s.holderFrom name n (some e)) (t.holderFrom name m (some f)) := by
  intro n
  induction n with
  | zero =>
    intro m u e f _ hu _ hl _ hn _
    -- The environments passed are all different: there cannot be more of them than records.
    have hle : (u.map Prod.fst).length ≤ s.records.size := by
      refine length_le_of_nodup hl fun i hi => ?_
      obtain ⟨p, hp, rfl⟩ := List.mem_map.mp hi
      obtain ⟨x, y, hx, -, -⟩ := h.record (hu p hp)
      exact lt_of_get? hx
    rw [List.length_map] at hle
    omega
  | succ n ih =>
    intro m u e f hef hu hd hl hr hn hm
    cases m with
    | zero =>
      have hle : (u.map Prod.snd).length ≤ t.records.size := by
        refine length_le_of_nodup hr fun i hi => ?_
        obtain ⟨p, hp, rfl⟩ := List.mem_map.mp hi
        obtain ⟨x, y, -, hy, -⟩ := h.record (hu p hp)
        exact lt_of_get? hy
      rw [List.length_map] at hle
      omega
    | succ m =>
      obtain ⟨x, y, hx, hy, hxy⟩ := h.record hef
      simp only [Environments.holderFrom, hx, hy, hxy.has]
      split
      · exact .environment hef
      · obtain ⟨hxo, hyo⟩ | ⟨o, o', hxo, hyo, ho⟩ := Option.rel_cases hxy.outer
        · rw [hxo, hyo]
          cases n <;> cases m <;> exact .nowhere
        · rw [hxo, hyo]
          -- Outwards the depth falls, so an environment met before is not met again.
          have hdepth := hxy.depth o hxo
          refine ih m ((e, f) :: u) ho ?_ ?_ ?_ ?_ ?_ ?_
          · exact List.forall_mem_cons.mpr ⟨hef, hu⟩
          · exact List.forall_mem_cons.mpr ⟨hdepth, fun p hp => Nat.lt_trans hdepth (hd p hp)⟩
          · refine List.nodup_cons.mpr ⟨fun he => ?_, hl⟩
            obtain ⟨p, hp, hpe⟩ := List.mem_map.mp he
            dsimp only at hpe
            exact absurd (hd p hp) (by rw [hpe]; exact Nat.lt_irrefl _)
          · refine List.nodup_cons.mpr ⟨fun hf => ?_, hr⟩
            obtain ⟨p, hp, hpf⟩ := List.mem_map.mp hf
            dsimp only at hpf
            have hpe : p.1 = e := ρ.environment_unique.1 (hu p hp) (hpf ▸ hef)
            exact absurd (hd p hp) (by rw [hpe]; exact Nat.lt_irrefl _)
          · rw [List.length_cons]
            omega
          · rw [List.length_cons]
            omega

/-- **A search ends in corresponding places, and never in an empty one.** -/
theorem Rel.holder (h : Rel ρ s t) (name : String) {e f : EnvironmentId}
    (hef : ρ.environment e f) : Holder.Rel ρ (s.holder name e) (t.holder name f) :=
  h.holderFrom name _ _ [] hef (by simp) (by simp) (by simp) (by simp) (by simp) (by simp)

end Environments

end Scriptlet
