import Scriptlet.Loading
import Scriptlet.Proofs.Agreement

/-!
# Removal of environments

Marking goes from the roots outwards, up to what is marked already.  What it has marked is closed
under the environments around it, so everything that the roots reach is marked and stays where it
is.

## Main definitions

* `Environments.Reach` — the environments that roots reach.
* `Environments.IsClosed` — marks that are closed, but for an environment that is still to be marked.
* `Agent.Trims` — an agent without some of the environments that nothing reaches.

## Main results

* `Environments.isClosed_mark`, `Environments.isMarked_of_reach` — **everything that is reached is
  marked**.
* `Environments.get?_sweep`, `Environments.isTidy_sweep` — sweeping.
* `Agent.trims_sweep`, `Agent.trims_collect` — collections.
-/

namespace Scriptlet

namespace Environments

/-- The environments that roots reach. -/
inductive Reach (s : Environments) (roots : List EnvironmentId) : EnvironmentId → Prop
  | root {e} (h : e ∈ roots) : Reach s roots e
  | outer {e x o} (h : Reach s roots e) (hx : s.get? e = some x) (ho : x.outer = some o) :
    Reach s roots o

/-! ### Marks -/

variable {s : Environments} {roots : List EnvironmentId} {marks : Array Bool} {e : EnvironmentId}

/-- Whether an environment is marked; one without place is. -/
def IsMarked (marks : Array Bool) (e : EnvironmentId) : Prop := marks[e.index]?.getD true = true

/-- The marks are closed under the environments around, but for one that is still to be marked. -/
def IsClosed (s : Environments) (marks : Array Bool) (next : Option EnvironmentId) : Prop :=
  ∀ e x o, IsMarked marks e → s.get? e = some x → x.outer = some o →
    IsMarked marks o ∨ next = some o

theorem isMarked_set (i : EnvironmentId) :
    IsMarked (marks.setIfInBounds i.index true) e ↔ e = i ∨ IsMarked marks e := by
  have hindex : e.index = i.index ↔ e = i :=
    ⟨fun h => by cases e; cases i; cases h; rfl, congrArg EnvironmentId.index⟩
  unfold IsMarked
  rw [Array.getElem?_setIfInBounds]
  by_cases h : i.index = e.index
  · rw [if_pos h]
    have he : e = i := hindex.mp h.symm
    subst he
    by_cases hlt : e.index < marks.size
    · simp [hlt]
    · simp [hlt]
  · rw [if_neg h]
    have hne : e ≠ i := fun he => h (hindex.mpr he).symm
    simp [hne]

/-- Marking one more environment leaves fewer without mark. -/
theorem count_set_lt (h : ¬IsMarked marks e) :
    (marks.setIfInBounds e.index true).count false < marks.count false := by
  unfold IsMarked at h
  by_cases hlt : e.index < marks.size
  · have hfalse : marks[e.index] = false := by
      rw [Array.getElem?_eq_getElem hlt] at h
      simpa using h
    have hpos : 0 < marks.count false :=
      Array.count_pos_iff.mpr (hfalse ▸ Array.getElem_mem hlt)
    have hfewer : marks.count false - 1 + 0 < marks.count false := by omega
    rw [Array.setIfInBounds, dif_pos hlt, Array.count_set hlt, hfalse]
    exact hfewer
  · rw [Array.getElem?_eq_none (Nat.le_of_not_lt hlt)] at h
    simp at h

theorem size_mark (fuel : Nat) (marks : Array Bool) (next : Option EnvironmentId) :
    (s.mark fuel marks next).size = marks.size := by
  induction fuel generalizing marks next with
  | zero => rfl
  | succ fuel ih =>
    cases next with
    | none => rfl
    | some i =>
      unfold mark
      split
      · rfl
      · rw [ih, Array.size_setIfInBounds]

/-- Once an environment is marked, the one around it is all that is still to be marked. -/
theorem IsClosed.set {i : EnvironmentId} (h : s.IsClosed marks (some i)) :
    s.IsClosed (marks.setIfInBounds i.index true) ((s.get? i).bind (·.outer)) := by
  intro e x o he hx ho
  rw [isMarked_set] at he ⊢
  obtain rfl | he := he
  · rw [hx]
    exact .inr ho
  · obtain hm | heq := h e x o he hx ho
    · exact .inl (.inr hm)
    · cases heq
      exact .inl (.inl rfl)

/-- Nothing is still to be marked if that is marked already. -/
theorem IsClosed.of_isMarked {i : EnvironmentId} (h : s.IsClosed marks (some i))
    (hi : IsMarked marks i) : s.IsClosed marks none := by
  intro e x o he hx ho
  obtain hm | heq := h e x o he hx ho
  · exact .inl hm
  · cases heq
    exact .inl hi

/-- **Marking keeps marks, marks where it starts, and ends with closed marks.** -/
theorem isClosed_mark (fuel : Nat) (next : Option EnvironmentId) (h : s.IsClosed marks next)
    (hfuel : marks.count false < fuel) :
    s.IsClosed (s.mark fuel marks next) none ∧
      ∀ e, IsMarked marks e ∨ next = some e → IsMarked (s.mark fuel marks next) e := by
  -- Each round marks an environment that has no mark, or ends a path at one that has.
  induction fuel generalizing marks next with
  | zero => cases hfuel
  | succ fuel ih =>
    cases next with
    | none => exact ⟨h, fun e he => he.resolve_right (by simp)⟩
    | some i =>
      unfold mark
      split
      · next hi =>
        refine ⟨h.of_isMarked hi, fun e he => ?_⟩
        obtain hm | heq := he
        · exact hm
        · cases heq
          exact hi
      · next hi =>
        -- There is enough fuel for the rest, as one environment less is without mark.
        have hless := Nat.lt_of_lt_of_le (count_set_lt hi) (Nat.le_of_lt_succ hfuel)
        obtain ⟨hc, hm⟩ := ih _ h.set hless
        refine ⟨hc, fun e he => hm e (.inl ((isMarked_set i).mpr ?_))⟩
        obtain he | heq := he
        · exact .inr he
        · cases heq
          exact .inl rfl

/-- The marks after all roots are closed and contain the roots. -/
theorem isClosed_foldl (h : s.IsClosed marks none) (hsize : marks.size = s.records.size) :
    let all := roots.foldl (fun marks e => s.mark (s.records.size + 1) marks (some e)) marks
    s.IsClosed all none ∧ (∀ e, IsMarked marks e ∨ e ∈ roots → IsMarked all e) ∧
      all.size = s.records.size := by
  induction roots generalizing marks with
  | nil => exact ⟨h, fun e he => he.resolve_right (by simp), hsize⟩
  | cons i roots ih =>
    have hstart : s.IsClosed marks (some i) := fun e x o he hx ho => by
      obtain hm | heq := h e x o he hx ho
      · exact .inl hm
      · cases heq
    have hfuel : marks.count false < s.records.size + 1 :=
      Nat.lt_succ_of_le (hsize ▸ Array.count_le_size)
    obtain ⟨hc, hm⟩ := isClosed_mark _ _ hstart hfuel
    obtain ⟨hc', hm', hs'⟩ := ih hc ((size_mark _ _ _).trans hsize)
    refine ⟨hc', fun e he => hm' e ?_, hs'⟩
    rcases he with he | he
    · exact .inl (hm e (.inl he))
    · rcases List.mem_cons.mp he with rfl | he
      · exact .inl (hm e (.inr rfl))
      · exact .inr he

theorem reached_spec (s : Environments) (roots : List EnvironmentId) :
    s.IsClosed (s.reached roots) none ∧ (∀ e ∈ roots, IsMarked (s.reached roots) e) ∧
      (s.reached roots).size = s.records.size := by
  have hempty : s.IsClosed (Array.replicate s.records.size false) none := by
    intro e x o he hx _
    have hlt := lt_of_get? hx
    unfold IsMarked at he
    simp [hlt] at he
  obtain ⟨hc, hm, hs⟩ := @isClosed_foldl s roots _ hempty Array.size_replicate
  exact ⟨hc, fun e he => hm e (.inr he), hs⟩

/-- **Everything that is reached is marked.** -/
theorem isMarked_of_reach (h : s.Reach roots e) : IsMarked (s.reached roots) e := by
  induction h with
  | root he => exact (reached_spec s roots).2.1 _ he
  | outer _ hx ho ih => exact ((reached_spec s roots).1 _ _ _ ih hx ho).resolve_right (by simp)

/-! ### Sweeping -/

/-- **What is reached stays where it is.** -/
theorem get?_sweep (h : s.Reach roots e) {x : Environment} (hx : s.get? e = some x) :
    (s.sweep roots).get? e = some x := by
  have hlt := lt_of_get? hx
  have hmarked := isMarked_of_reach h
  have hsize := (reached_spec s roots).2.2
  rw [get?_eq_some] at hx ⊢
  unfold IsMarked at hmarked
  unfold sweep
  rw [Array.getElem?_mapIdx, hx]
  rw [Array.getElem?_eq_getElem (hsize ▸ hlt)] at hmarked ⊢
  exact congrArg some (if_pos hmarked)

/-- **Nothing comes to be.** -/
theorem get?_of_sweep {x : Environment} (hx : (s.sweep roots).get? e = some x) : s.get? e = some x := by
  rw [get?_eq_some] at hx ⊢
  unfold sweep at hx
  rw [Array.getElem?_mapIdx] at hx
  obtain ⟨r, hr, heq⟩ := Option.map_eq_some_iff.mp hx
  split at heq
  · exact hr.trans (congrArg some heq)
  · cases heq

theorem isTidy_sweep (h : s.IsTidy) (roots : List EnvironmentId) : (s.sweep roots).IsTidy where
  nodup := by
    refine List.Nodup.append ?_ h.nodup ?_
    · exact List.nodup_reverse.mpr (List.nodup_range.filter _)
    · -- What is freed held an environment, and what is free already does not.
      intro i hi hfree
      rw [List.mem_reverse] at hi
      have hsome := (List.mem_filter.mp hi).2
      rw [h.vacant i hfree] at hsome
      simp at hsome
  mem_free := by
    intro i
    have hi := h.mem_free i
    have hfreed : i ∈ s.unmarked (s.reached roots) ↔ i < s.records.size ∧
        (!((s.reached roots)[i]?.getD false) && (s.records[i]?.join).isSome) = true := by
      rw [unmarked, List.mem_filter, List.mem_range]
    unfold sweep
    dsimp only
    rw [List.mem_append, List.mem_reverse, hfreed, hi, Array.getElem?_mapIdx]
    -- A place is free afterwards if it was before, or if its environment has not been reached.
    cases hrecord : s.records[i]? with
    | none =>
      have hsize := Array.getElem?_eq_none_iff.mp hrecord
      simp [Nat.not_lt.mpr hsize]
    | some r =>
      have hlt := (Array.getElem?_eq_some_iff.mp hrecord).1
      cases r <;> cases (s.reached roots)[i]?.getD false <;> simp [hlt]

end Environments

/-! ### Agents -/

/-- The second agent is the first one without some of the environments that nothing reaches; it
differs besides only in what it records. -/
structure Agent.Trims (a a' : Agent) : Prop where
  objects : a'.objects = a.objects
  realms : a'.realms = a.realms
  contexts : a'.contexts = a.contexts
  joining : a'.joining = a.joining
  methods : a'.methods = a.methods
  tidy : a.environments.IsTidy → a'.environments.IsTidy
  kept : ∀ {e x}, a.environments.Reach a.roots e → a.environments.get? e = some x →
    a'.environments.get? e = some x
  there : ∀ {e x}, a'.environments.get? e = some x → a.environments.get? e = some x

namespace Agent

theorem trims_refl (a : Agent) : a.Trims a := ⟨rfl, rfl, rfl, rfl, rfl, id, fun _ hx => hx, id⟩

theorem trims_sweep (a : Agent) : a.Trims a.sweep :=
  ⟨rfl, rfl, rfl, rfl, rfl, fun h => Environments.isTidy_sweep h a.roots,
    fun h hx => Environments.get?_sweep h hx, Environments.get?_of_sweep⟩

/-- A collection removes what nothing reaches, or nothing. -/
theorem trims_collect (a : Agent) : a.Trims a.collect := by
  unfold collect
  split
  · unfold Environments.collect
    split
    · exact a.trims_refl
    · exact ⟨rfl, rfl, rfl, rfl, rfl, fun h => { Environments.isTidy_sweep h a.roots with },
        fun h hx => Environments.get?_sweep h hx, Environments.get?_of_sweep⟩
  · exact a.trims_refl

theorem Trims.reportUncaught {a a' : Agent} (h : a.Trims a') (v : Value) :
    a.Trims (a'.reportUncaught v) := by
  unfold Agent.reportUncaught
  split
  · exact { h with }
  · exact h

end Agent

end Scriptlet
