import Scriptlet.Proofs.Stopping

/-!
# Heights of stacks

A stack of machines comes to its end when tasks are nested too deeply, or a loop goes round too often.
As nothing catches exhaustion, a task that is not exhausted is done in the same way by every higher
stack: how high the stack is cannot be found out.

## Main definitions

* `Stopping.exhaustion` — computations may be exhausted, and nothing else stops them.
* `Eval.Reaches` — the outcome to which high enough stacks come.

## Main results

* `Task.run_follows` — **a higher stack gives the answers of a lower one**.
* `Eval.Reaches.unique` — **there is one outcome at most**.
* `Eval.reaches_run`, `Eval.reaches_bind_ok`, `Eval.reaches_bind_error` — outcomes of tasks and
  sequences.
-/

namespace Scriptlet

open Eval

/-- The law that everything obeys. -/
def SessionLaw.anything : SessionLaw where
  Holds _ := True
  CountsOnKeys := False
  pure _ := trivial
  throw _ := trivial
  get := trivial
  bindOf _ _ := trivial
  catching _ _ := trivial
  followedBy _ _ := trivial
  joining _ _ := trivial
  adjust _ _ := trivial
  newRealm _ _ := trivial
  allocate _ _ := trivial
  method _ := trivial
  functionValue _ := trivial
  templateObject _ := trivial
  causedError _ _ _ := trivial
  nameFunction _ _ := trivial
  freeze _ := trivial
  delete _ _ := trivial
  setLength _ _ _ := trivial
  write _ _ _ _ _ := trivial
  define _ _ _ := trivial
  changeArray _ _ _ _ := trivial
  growArray _ _ _ _ := trivial
  deleteVariable _ _ := trivial
  Roams _ := True
  roam _ := trivial
  bindRoaming _ _ := trivial
  iterateRoaming _ _ _ := trivial
  setEnvironment _ := trivial
  inEnvironment _ _ := trivial
  inContext _ _ := trivial
  newEnvironment _ := trivial
  createVariable _ _ _ _ := trivial
  initializeVariable _ _ _ := trivial
  writeVariable _ _ _ _ := trivial
  tidy _ := trivial
  concluding _ _ := trivial

namespace Stopping

/-- Computations may be exhausted, and nothing else stops them. -/
def exhaustion : Stopping where
  law := .anything
  free := id
  settled _ := trivial
  Stops i _ _ := i = .exhausted
  uncaught := nofun
  later _ h := h
  ending _ _ h := h

variable {α : Type} {p q : Eval α}

/-- What is exhausted from the beginning follows everything. -/
theorem exhausted_follows (q : Eval α) : exhaustion.Follows (throw .exhausted) q :=
  ⟨trivial, fun a => .inl ⟨.exhausted, a, rfl, rfl⟩⟩

/-- Loops may end early. -/
theorem allowsRounds {n l : Nat} (hn : n ≤ l) : exhaustion.AllowsRounds n l :=
  .inr ⟨hn, fun _ => exhausted_follows _⟩

/-- An outcome other than exhaustion is that of the second computation too. -/
theorem Follows.eq_of_ne (h : exhaustion.Follows p q) {a : Agent}
    (hp : ∀ b, p a ≠ .error .exhausted b) : q a = p a := by
  rcases h.follows a with ⟨i, b, hb, rfl⟩ | hq
  · exact absurd hb (hp b)
  · exact hq

end Stopping

/-- **A higher stack gives the answers of a lower one.** -/
theorem Task.run_follows {n l : Nat} (hn : n ≤ l) {α : Type} (t : Task α) :
    Stopping.exhaustion.Follows (Task.run n t) (Task.run l t) := by
  induction n generalizing l α t with
  | zero => exact Stopping.exhausted_follows _
  | succ n ih =>
    obtain ⟨l, rfl⟩ := Nat.exists_eq_add_of_le' (Nat.lt_of_lt_of_le n.succ_pos hn)
    have hle := Nat.le_of_succ_le_succ hn
    exact Stopping.IsBelow.step ⟨fun t => ih hle t, Stopping.allowsRounds hle⟩ t

/-- A higher stack of machines is a machine above. -/
theorem Machine.isBelow_ofDepth {n l : Nat} (hn : n ≤ l) :
    Stopping.exhaustion.IsBelow (ofDepth n) (ofDepth l) :=
  ⟨fun t => t.run_follows hn, Stopping.allowsRounds hn⟩

/-! ### High enough stacks -/

namespace Eval

variable {α β : Type} {F : Machine → Eval α} {f : Machine → α → Eval β} {a b c : Agent}
  {r s : EStateM.Result Interrupt Agent α}

/-- On a machine above the computation does what it does on a machine below that is not exhausted. -/
def Rises (F : Machine → Eval α) : Prop :=
  ∀ ⦃m m'⦄, Stopping.exhaustion.IsBelow m m' → Stopping.exhaustion.Follows (F m) (F m')

/-- High enough stacks of machines come to the outcome. -/
def Reaches (F : Machine → Eval α) (a : Agent) (r : EStateM.Result Interrupt Agent α) : Prop :=
  (∃ n, F (.ofDepth n) a = r) ∧ ∀ b, r ≠ .error .exhausted b

/-- All higher stacks come to the outcome too. -/
theorem Reaches.eventually (h : Reaches F a r) (hF : Rises F) :
    ∃ n, ∀ l, n ≤ l → F (.ofDepth l) a = r := by
  obtain ⟨⟨n, rfl⟩, hr⟩ := h
  exact ⟨n, fun l hl => (hF (Machine.isBelow_ofDepth hl)).eq_of_ne hr⟩

/-- **There is one outcome at most.** -/
theorem Reaches.unique (h : Reaches F a r) (hs : Reaches F a s) (hF : Rises F) : r = s := by
  obtain ⟨n, hn⟩ := h.eventually hF
  obtain ⟨l, hl⟩ := hs.eventually hF
  exact (hn _ (Nat.le_max_left n l)).symm.trans (hl _ (Nat.le_max_right n l))

/-- A computation without a machine. -/
theorem reaches_const {p : Eval α} :
    Reaches (fun _ => p) a r ↔ p a = r ∧ ∀ b, r ≠ .error .exhausted b :=
  and_congr_left' ⟨fun ⟨_, h⟩ => h, fun h => ⟨0, h⟩⟩

theorem reaches_pure {x y : α} : Reaches (fun _ => Pure.pure x) a (.ok y b) ↔ x = y ∧ a = b := by
  rw [reaches_const]
  constructor
  · rintro ⟨h, -⟩
    cases h
    exact ⟨rfl, rfl⟩
  · rintro ⟨rfl, rfl⟩
    exact ⟨rfl, nofun⟩

theorem not_reaches_pure_error {x : α} {i : Interrupt} :
    ¬Reaches (fun _ => Pure.pure x) a (.error i b) := fun h => nomatch (reaches_const.mp h).1

/-- **A task is done by steps.** -/
theorem reaches_run {t : Task α} : Reaches (fun m => m.run t) a r ↔ Reaches (fun m => m.step t) a r := by
  refine and_congr_left fun hr => ⟨?_, fun ⟨n, hn⟩ => ⟨n + 1, hn⟩⟩
  rintro ⟨n, hn⟩
  cases n with
  | zero => exact absurd hn.symm (hr a)
  | succ n => exact ⟨n, hn⟩

/-- A result of one computation after the other. -/
theorem reaches_bind_ok (hF : Rises F) (hf : ∀ x, Rises fun m => f m x) {y : β} :
    Reaches (fun m => F m >>= f m) a (.ok y c) ↔
      ∃ x b, Reaches F a (.ok x b) ∧ Reaches (fun m => f m x) b (.ok y c) := by
  constructor
  · rintro ⟨⟨n, hn⟩, -⟩
    obtain ⟨x, b, hx, hy⟩ := bind_eq_ok hn
    exact ⟨x, b, ⟨⟨n, hx⟩, nofun⟩, ⟨n, hy⟩, nofun⟩
  · rintro ⟨x, b, hx, hy⟩
    obtain ⟨n, hn⟩ := hx.eventually hF
    obtain ⟨l, hl⟩ := hy.eventually (hf x)
    refine ⟨⟨max n l, ?_⟩, nofun⟩
    exact (bind_ok (hn _ (Nat.le_max_left n l))).trans (hl _ (Nat.le_max_right n l))

/-- An interrupt in one computation or the other. -/
theorem reaches_bind_error (hF : Rises F) (hf : ∀ x, Rises fun m => f m x) {i : Interrupt} :
    Reaches (fun m => F m >>= f m) a (.error i c) ↔ Reaches F a (.error i c) ∨
      ∃ x b, Reaches F a (.ok x b) ∧ Reaches (fun m => f m x) b (.error i c) := by
  constructor
  · rintro ⟨⟨n, hn⟩, hi⟩
    have hother : ∀ b, (EStateM.Result.error i c : EStateM.Result Interrupt Agent α)
        ≠ .error .exhausted b := by
      rintro b heq
      cases heq
      exact hi c rfl
    cases hF : F (.ofDepth n) a with
    | ok x b => exact .inr ⟨x, b, ⟨⟨n, hF⟩, nofun⟩, ⟨n, (bind_ok hF).symm.trans hn⟩, hi⟩
    | error j b =>
      cases (bind_error hF).symm.trans hn
      exact .inl ⟨⟨n, hF⟩, hother⟩
  · rintro (hx | ⟨x, b, hx, hy⟩)
    · obtain ⟨n, hn⟩ := hx.eventually hF
      refine ⟨⟨n, bind_error (hn n (Nat.le_refl n))⟩, fun b heq => ?_⟩
      cases heq
      exact hx.2 c rfl
    · obtain ⟨n, hn⟩ := hx.eventually hF
      obtain ⟨l, hl⟩ := hy.eventually (hf x)
      refine ⟨⟨max n l, ?_⟩, hy.2⟩
      exact (bind_ok (hn _ (Nat.le_max_left n l))).trans (hl _ (Nat.le_max_right n l))

end Eval

end Scriptlet
