import Scriptlet.Proofs.Collection

/-!
# The marking loop

A collector keeps a list of environments that wait to be marked.  In each round it takes one of them;
if it has no mark yet it gets one, and the environment around it waits next.  A round marks an
environment or leaves fewer waiting, so there is a last one, whatever refers to what, cycles and empty
places included.

As only one environment is around another one, the loop goes from each root outwards before it takes
the next root, as `Environments.mark` does.  What is marked in the end is what the roots reach and
nothing else, so the order of the roots does not count.

## Main definitions

* `Marking` — the marks and what waits.
* `Marking.round`, `Marking.finish` — one round, and all rounds to the last one.

## Main results

* `Marking.wellFounded_round` — **the loop ends**.
* `Environments.getElem?_reached` — **exactly what the roots reach is marked**.
* `Marking.finish_start` — the loop leaves these marks.
* `Environments.get?_sweep_iff` — **exactly what the roots reach stays**.
-/

namespace Scriptlet

/-! ### The loop -/

/-- The marks of environments, and those that wait to be marked, the next one first. -/
structure Marking where
  /-- The marks. -/
  marks : Array Bool
  /-- What waits. -/
  waiting : List EnvironmentId

namespace Marking

/-- Nothing is marked, and the roots wait; the last one is the next. -/
def start (s : Environments) (roots : List EnvironmentId) : Marking :=
  ⟨Array.replicate s.records.size false, roots.reverse⟩

/-- One round, if anything waits. -/
def round (s : Environments) : Marking → Option Marking
  | ⟨_, []⟩ => none
  | ⟨marks, e :: waiting⟩ =>
    if marks[e.index]?.getD true then some ⟨marks, waiting⟩
    else
      some ⟨marks.setIfInBounds e.index true, ((s.get? e).bind (·.outer)).toList ++ waiting⟩

/-- How much there is to do: environments to be marked, and ones that wait. -/
def left (m : Marking) : Nat × Nat := (m.marks.count false, m.waiting.length)

variable {s : Environments} {m m' : Marking} {marks : Array Bool} {waiting : List EnvironmentId}
  {e : EnvironmentId}

theorem round_marked (h : Environments.IsMarked marks e) :
    (⟨marks, e :: waiting⟩ : Marking).round s = some ⟨marks, waiting⟩ := if_pos h

theorem round_unmarked (h : ¬Environments.IsMarked marks e) :
    (⟨marks, e :: waiting⟩ : Marking).round s = some ⟨marks.setIfInBounds e.index true,
      ((s.get? e).bind (·.outer)).toList ++ waiting⟩ := if_neg h

/-- **A round marks an environment, or leaves fewer waiting.** -/
theorem left_round (h : m.round s = some m') :
    Prod.Lex (· < ·) (· < ·) m'.left m.left := by
  obtain ⟨marks, _ | ⟨e, waiting⟩⟩ := m
  · cases h
  · by_cases he : Environments.IsMarked marks e
    · cases (round_marked he).symm.trans h
      exact .right _ (Nat.lt_succ_self _)
    · cases (round_unmarked he).symm.trans h
      exact .left _ _ (Environments.count_set_lt he)

/-- **The loop ends**, wherever it starts. -/
theorem wellFounded_round (s : Environments) :
    WellFounded fun m' m : Marking => m.round s = some m' :=
  Subrelation.wf left_round (InvImage.wf left (Prod.lex Nat.lt_wfRel Nat.lt_wfRel).wf)

/-- The marks after the last round. -/
def finish (s : Environments) (m : Marking) : Array Bool :=
  match _h : m.round s with
  | some m' => m'.finish s
  | none => m.marks
termination_by m.left
decreasing_by exact left_round _h

theorem finish_of_round (h : m.round s = some m') : m.finish s = m'.finish s := by
  rw [finish]
  split
  · next h' => cases h.symm.trans h'; rfl
  · next h' => cases h.symm.trans h'

theorem finish_nil : (⟨marks, []⟩ : Marking).finish s = marks := by
  rw [finish]
  split
  · next h => cases h
  · rfl

/-- **The loop goes outwards** from what waits before it takes what waits behind. -/
theorem finish_mark {fuel : Nat} (next : Option EnvironmentId) (hfuel : marks.count false < fuel) :
    (⟨marks, next.toList ++ waiting⟩ : Marking).finish s
      = (⟨s.mark fuel marks next, waiting⟩ : Marking).finish s := by
  induction fuel generalizing marks next with
  | zero => cases hfuel
  | succ fuel ih =>
    cases next with
    | none => rfl
    | some e =>
      unfold Environments.mark
      split
      · next he => exact finish_of_round (round_marked he)
      · next he =>
        -- What is around waits in front, as the next one of `mark` does.
        have hless := Nat.lt_of_lt_of_le (Environments.count_set_lt he) (Nat.le_of_lt_succ hfuel)
        exact (finish_of_round (round_unmarked he)).trans (ih _ hless)

/-- What waits is marked one after the other. -/
theorem finish_eq_foldl (hsize : marks.size = s.records.size) :
    (⟨marks, waiting⟩ : Marking).finish s
      = waiting.foldl (fun marks e => s.mark (s.records.size + 1) marks (some e)) marks := by
  induction waiting generalizing marks with
  | nil => exact finish_nil
  | cons e waiting ih =>
    have hfuel : marks.count false < s.records.size + 1 :=
      Nat.lt_succ_of_le (hsize ▸ Array.count_le_size)
    have hsame : (s.mark (s.records.size + 1) marks (some e)).size = s.records.size :=
      (Environments.size_mark _ _ _).trans hsize
    exact (finish_mark (some e) hfuel).trans (ih hsame)

end Marking

namespace Environments

variable {s : Environments} {roots roots' : List EnvironmentId} {marks : Array Bool}
  {e : EnvironmentId} {x : Environment}

/-! ### What is marked -/

/-- What an environment is marked for is handed on outwards. -/
theorem mark_sound {P : EnvironmentId → Prop}
    (hP : ∀ e x o, P e → s.get? e = some x → x.outer = some o → P o) (fuel : Nat)
    (next : Option EnvironmentId) (hmarks : ∀ e, marks[e.index]? = some true → P e)
    (hnext : ∀ e, next = some e → P e) :
    ∀ e, (s.mark fuel marks next)[e.index]? = some true → P e := by
  induction fuel generalizing marks next with
  | zero => exact hmarks
  | succ fuel ih =>
    cases next with
    | none => exact hmarks
    | some i =>
      unfold mark
      split
      · exact hmarks
      · refine ih _ (fun e he => ?_) (fun o ho => ?_)
        · rw [Array.getElem?_setIfInBounds] at he
          split at he
          · next hi =>
            cases i
            cases e
            cases hi
            exact hnext _ rfl
          · exact hmarks e he
        · obtain ⟨x, hx, ho⟩ := Option.bind_eq_some_iff.mp ho
          exact hP i x o (hnext i rfl) hx ho

theorem foldl_sound {P : EnvironmentId → Prop}
    (hP : ∀ e x o, P e → s.get? e = some x → x.outer = some o → P o) (fuel : Nat)
    (hmarks : ∀ e, marks[e.index]? = some true → P e) (hroots : ∀ e ∈ roots, P e) :
    ∀ e, (roots.foldl (fun marks e => s.mark fuel marks (some e)) marks)[e.index]? = some true →
      P e := by
  induction roots generalizing marks with
  | nil => exact hmarks
  | cons i roots ih =>
    obtain ⟨hi, hroots⟩ := List.forall_mem_cons.mp hroots
    refine ih (mark_sound hP fuel _ hmarks fun e he => ?_) hroots
    cases he
    exact hi

/-- **Exactly what the roots reach is marked.** -/
theorem getElem?_reached (s : Environments) (roots : List EnvironmentId) (e : EnvironmentId) :
    (s.reached roots)[e.index]? = some true ↔ e.index < s.records.size ∧ s.Reach roots e := by
  have hsize := (reached_spec s roots).2.2
  constructor
  · intro he
    refine ⟨hsize ▸ (Array.getElem?_eq_some_iff.mp he).1, ?_⟩
    refine foldl_sound (fun _ _ _ => .outer) _ (fun i hi => ?_) (fun _ => .root) e he
    rw [Array.getElem?_replicate] at hi
    split at hi <;> cases hi
  · rintro ⟨hlt, he⟩
    have hmarked := isMarked_of_reach he
    unfold IsMarked at hmarked
    rw [Array.getElem?_eq_getElem (hsize ▸ hlt)] at hmarked ⊢
    exact congrArg some hmarked

theorem Reach.congr (h : ∀ e ∈ roots, e ∈ roots') (he : s.Reach roots e) : s.Reach roots' e := by
  induction he with
  | root he => exact .root (h _ he)
  | outer _ hx ho ih => exact .outer ih hx ho

/-- The order of the roots does not count. -/
theorem reached_reverse (s : Environments) (roots : List EnvironmentId) :
    s.reached roots.reverse = s.reached roots := by
  have hsize := (reached_spec s roots).2.2
  have hsize' := (reached_spec s roots.reverse).2.2
  refine Array.ext (hsize'.trans hsize.symm) fun i hi hi' => ?_
  have hreach : s.Reach roots.reverse ⟨i⟩ ↔ s.Reach roots ⟨i⟩ :=
    ⟨.congr fun _ => List.mem_reverse.mp, .congr fun _ => List.mem_reverse.mpr⟩
  have hsame := (getElem?_reached s roots.reverse ⟨i⟩).trans
    ((and_congr_right' hreach).trans (getElem?_reached s roots ⟨i⟩).symm)
  rw [Array.getElem?_eq_getElem hi, Array.getElem?_eq_getElem hi', Option.some.injEq,
    Option.some.injEq] at hsame
  exact Bool.eq_iff_iff.mpr hsame

/-- **Exactly what the roots reach stays**, and it stays as it is. -/
theorem get?_sweep_iff : (s.sweep roots).get? e = some x ↔ s.get? e = some x ∧ s.Reach roots e := by
  refine ⟨fun h => ?_, fun h => get?_sweep h.2 h.1⟩
  rw [get?_eq_some] at h
  unfold sweep at h
  rw [Array.getElem?_mapIdx] at h
  obtain ⟨r, hr, h⟩ := Option.map_eq_some_iff.mp h
  split at h
  · next hmark =>
    subst h
    refine ⟨get?_eq_some.mpr hr, ((getElem?_reached s roots e).mp ?_).2⟩
    cases hreached : (s.reached roots)[e.index]? with
    | none =>
      rw [hreached] at hmark
      cases hmark
    | some b =>
      rw [hreached] at hmark
      exact congrArg some hmark
  · cases h

end Environments

/-- **The loop leaves the marks of what the roots reach.** -/
theorem Marking.finish_start (s : Environments) (roots : List EnvironmentId) :
    (start s roots).finish s = s.reached roots :=
  (finish_eq_foldl Array.size_replicate).trans (Environments.reached_reverse s roots)

end Scriptlet
