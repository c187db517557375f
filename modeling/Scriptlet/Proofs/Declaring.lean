import Scriptlet.Proofs.Blocks
import Scriptlet.Proofs.Lifetimes

/-!
# Giving names their first values

Declarations, patterns and parameters give each of their names a value, once, and nothing else does.
What is said of a computation is which names of which environment it gives values to; all other variables
it may only create, or assign to if they have a value already.

## Main definitions

* `Fills` — a computation gives values to names of an environment, which have none before.
* `Opens` — it makes an environment in which names have no values yet.
* `Machine.IsLawful` — a machine that does its tasks so.

## Main results

* `Fills.bind_append` — **one after the other**, if no name comes twice.
* `Opens.inside` — a new environment is filled, of which those that were there notice nothing.
* `opens_blockEnvironment` — the environment of a block.
* `Machine.IsLawful.bindPattern` — **a pattern gives its names their values**.
* `Machine.IsLawful.declaration` — **so does a declaration**.
-/

namespace Scriptlet

open Eval

/-- Which environments are meant, in terms of those of what is being evaluated. -/
abbrev Whereabouts := List EnvironmentId → EnvironmentId → Prop

/-- The environment of what is being evaluated. -/
def innermost : Whereabouts := fun l e => l.head? = some e

/-- A certain environment. -/
def certain (i : EnvironmentId) : Whereabouts := fun _ e => e = i

/-- The computation gives values to the names of an environment, if they have none, and leaves another
environment at most in the innermost `k` contexts. -/
def Fills {α : Type} (E : Whereabouts) (k : Nat) (G : Prop) (ns : List String) (p : Eval α) : Prop :=
  ∀ a, Runs k (fun e n => E a.places e ∧ n ∈ ns)
    (G ∧ ∀ n ∈ ns, ∃ e, E a.places e ∧ a.environments.Awaits e n) a p fun _ _ => True

variable {α β : Type} {E : Whereabouts} {k : Nat} {G : Prop} {ns ms : List String} {p : Eval α}
  {f : α → Eval β}

namespace Fills

theorem of_quiet (h : Quiet k G p) (ns : List String) : Fills E k G ns p := fun _ =>
  h.anywhere.given fun _ _ hg => hg.1

/-- A computation that has no names to give values to. -/
theorem quiet {G' : Prop} (h : Fills E k G' ns p) (hns : G → G' ∧ ns = []) : Quiet k G p := fun a =>
  (h a).weaken (Nat.le_refl k) fun _ _ hg => by
    obtain ⟨hg', rfl⟩ := hns hg
    exact ⟨⟨hg', nofun⟩, fun _ _ _ hF => List.not_mem_nil hF.2⟩

theorem roam (h : Fills E 0 G ns p) : Fills E k G ns p := fun a =>
  (h a).mono (Nat.zero_le k) fun _ _ _ hF => hF

theorem given {G' : Prop} (h : Fills E k G' ns p) (hG : G → G') : Fills E k G ns p := fun a =>
  (h a).given fun _ _ hg => ⟨hG hg.1, hg.2⟩

theorem subset (h : Fills E k G ns p) (hns : G → ns ⊆ ms) : Fills E k G ms p := fun a =>
  (h a).weaken (Nat.le_refl k) fun _ _ hg =>
    ⟨⟨hg.1, fun n hn => hg.2 n (hns hg.1 hn)⟩, fun _ _ _ hF => ⟨hF.1, hns hg.1 hF.2⟩⟩

/-- **One after the other**, if they give values to different names. -/
theorem bind_of (h : Fills E 0 G ns p) (hf : ∀ a x b, p a = .ok x b → Fills E k G ms (f x))
    (hd : G → ∀ n ∈ ns, n ∉ ms) : Fills E k G (ns ++ ms) (p >>= f) := by
  intro a
  refine ((h a).framed.weaken (Nat.zero_le k) fun _ _ hg => ⟨⟨hg.1, fun n hn => ?_⟩, ?_⟩).bind
    fun x b hx => (hf a x b hx b).weaken (Nat.le_refl k) ?_
  · exact hg.2 n (List.mem_append_left _ hn)
  · exact fun e n _ hF => ⟨hF.1, List.mem_append_left _ hF.2⟩
  · rintro - - ⟨hg, -, hs, -, hgrows, -⟩
    have hplaces : b.places = a.places := hgrows.drop
    rw [hplaces]
    refine ⟨⟨hg.1, fun n hn => ?_⟩, fun e n _ hF _ => ⟨hF.1, List.mem_append_right _ hF.2⟩⟩
    obtain ⟨e, he, hawaits⟩ := hg.2 n (List.mem_append_right _ hn)
    refine ⟨e, he, Environments.stable_awaits hgrows.lawful hs hgrows.spares ?_ hawaits⟩
    exact fun hF => hd hg.1 n hF.2 hn

theorem bind (h : Fills E 0 G ns p) (hf : ∀ x, Fills E k G ms (f x))
    (hd : G → ∀ n ∈ ns, n ∉ ms) : Fills E k G (ns ++ ms) (p >>= f) :=
  h.bind_of (fun _ x _ _ => hf x) hd

/-- **One after the other**, if no name comes twice. -/
theorem bind_append (h : Fills E 0 ns.Nodup ns p) (hf : ∀ x, Fills E k ms.Nodup ms (f x)) :
    Fills E k (ns ++ ms).Nodup (ns ++ ms) (p >>= f) :=
  bind (h.given fun hd => (List.nodup_append.mp hd).1)
    (fun x => (hf x).given fun hd => (List.nodup_append.mp hd).2.1)
    fun hd n hn hn' => (List.nodup_append.mp hd).2.2 n hn n hn' rfl

/-- Before, nothing is given a value. -/
theorem bind_right (h : Quiet 0 G p) (hf : ∀ x, Fills E k G ns (f x)) : Fills E k G ns (p >>= f) :=
  (of_quiet h []).bind hf fun _ _ hn => by cases hn

theorem bind_right_of (h : Quiet 0 G p) (hf : ∀ a x b, p a = .ok x b → Fills E k G ns (f x)) :
    Fills E k G ns (p >>= f) :=
  (of_quiet h []).bind_of hf fun _ _ hn => by cases hn

/-- Afterwards, nothing is given a value. -/
theorem bind_left (h : Fills E 0 G ns p) (hf : ∀ x, Quiet k G (f x)) : Fills E k G ns (p >>= f) := by
  have := h.bind (fun x => of_quiet (E := E) (hf x) []) fun _ _ _ => List.not_mem_nil
  rwa [List.append_nil] at this

theorem initializeVariable (e : EnvironmentId) (name : String) (v : Value) :
    Fills (certain e) k G [name] (Eval.initializeVariable e name v) := by
  intro a
  refine ((Runs.initializeVariable e name v).weaken (Nat.le_refl k) fun _ _ hg => ⟨?_, ?_⟩).imp
    fun _ _ _ _ _ _ => trivial
  · obtain ⟨i, rfl, hawaits⟩ := hg.2 name List.mem_cons_self
    exact hawaits
  · exact fun _ _ _ hF => hF

end Fills

/-- A name stands for a variable of the environment of what is being evaluated, or of one of those
around it. -/
theorem Eval.resolve_apply {a : Agent} {c : Context} {rest : List Context}
    (hc : a.contexts = c :: rest) (name : String) :
    resolve name a = match a.environments.holder name c.environment with
      | .environment e => .ok (.variable e name) a
      | .nowhere => .ok (.unresolvable name) a
      | .dangling => .error (.broken .missingEnvironment) a := by
  unfold resolve
  rw [bind_ok (environment_eq hc), bind_ok (get_apply a)]
  cases a.environments.holder name c.environment <;> rfl

namespace Runs

variable {F : EnvironmentId → String → Prop} {a : Agent} (name : String)

/-- A name that the environment itself has stands for its variable. -/
theorem resolve : Runs k F G a (Eval.resolve name) fun r b => b = a ∧
    ∀ e, a.places.head? = some e → a.environments.Binds e name → r = .variable e name := by
  cases hc : a.contexts with
  | nil =>
    -- Without a context nothing is resolved.
    have hfails : Eval.resolve name a = _ := bind_error (bind_error (context_of_nil hc))
    refine (look (after_error hfails)).imp fun r b _ _ _ hr => absurd (hfails.symm.trans hr.2) ?_
    intro h
    cases h
  | cons c rest =>
    have happly := resolve_apply hc name
    have hafter : (Eval.resolve name).after a = a := by
      rw [Eval.after, happly]
      cases a.environments.holder name c.environment <;> rfl
    refine (look hafter).imp fun r b _ _ _ hr => ⟨hr.1, fun e he hbinds => ?_⟩
    -- The innermost environment has the name, so the search ends there.
    have hr := hr.2
    obtain ⟨v, hv⟩ := Option.isSome_iff_exists.mp hbinds
    obtain ⟨x, hx⟩ := Option.isSome_iff_exists.mp (Environments.isSome_get?_of_find? hv)
    rw [Environments.find?_of_get? hx] at hv
    have hplace : e = c.environment := by
      rw [Agent.places, hc] at he
      cases he
      rfl
    subst hplace
    rw [happly, Environments.holder_of_has hx (by rw [Environment.has, hv]; rfl)] at hr
    cases hr
    rfl

/-- A variable that may get a value is given it through what stands for it. -/
theorem initializeReference (r : Reference) (v : Value) :
    Runs k F (∃ e, r = .variable e name ∧ F e name ∧ a.environments.Awaits e name) a
      (Eval.initializeReference r v) fun _ _ => True := by
  cases r with
  | «variable» e n =>
    refine ((Runs.initializeVariable e n v).weaken (Nat.le_refl k) fun _ _ hg => ?_).imp
      fun _ _ _ _ _ _ => trivial
    obtain ⟨_, heq, hF, hawaits⟩ := hg
    cases heq
    refine ⟨hawaits, ?_⟩
    rintro i j - ⟨rfl, hj⟩
    cases List.mem_singleton.mp hj
    exact hF
  | _ => exact (Quiet.throw _).anywhere.given fun _ _ _ => trivial

end Runs

/-- A variable that belongs to its list is found in the environment of what is being evaluated. -/
theorem Fills.declareName (name : String) {q : Eval Value} (hq : Quiet 0 G q) :
    Fills innermost 0 G [name] (do
      let r ← resolve name
      let v ← q
      initializeReference r v) := by
  intro a
  refine (Runs.resolve name).bind fun r b _ => ?_
  refine (hq.given fun hg => hg.1.1).frame.bind fun v c _ => ?_
  refine (Runs.initializeReference name r v).given ?_
  rintro - - ⟨⟨⟨-, hawaits⟩, -, hs, rfl, hr⟩, -, -, hgrows⟩
  obtain ⟨e, he, hawaits⟩ := hawaits name List.mem_cons_self
  refine ⟨e, hr e he hawaits.binds, fun _ _ => ⟨he, List.mem_cons_self⟩, ?_⟩
  exact Environments.stable_awaits hgrows.lawful hs hgrows.spares not_false hawaits

/-! ### New environments -/

/-- What is done in a new environment is of no concern to those that were there. -/
theorem Runs.new {F : EnvironmentId → String → Prop} {a : Agent} {outer : Option EnvironmentId}
    {f : EnvironmentId → Eval α} {R : α → Agent → Prop}
    (hf : ∀ e b, Runs k (fun i n => i = e ∨ F i n)
      (G ∧ a.environments.get? e = none ∧ ∀ n, b.environments.Lacks e n) b (f e) R) :
    Runs k F G a (Eval.newEnvironment outer >>= f) R := by
  refine (Runs.newEnvironment outer).bind fun e b _ => (hf e b).weaken (Nat.le_refl k) ?_
  rintro - - ⟨hg, -, -, hvacant, hlacks⟩
  refine ⟨⟨hg, hvacant, hlacks⟩, fun i n _ hF hi => hF.resolve_left ?_⟩
  rintro rfl
  rw [hvacant] at hi
  cases hi

/-- The result of a computation that has only to give it back. -/
theorem Runs.result {F : EnvironmentId → String → Prop} {a : Agent} (x : α) :
    Runs k F G a (pure x) fun y b => y = x ∧ b = a :=
  (Runs.look rfl).imp fun _ _ _ _ _ h => by
    cases h.2
    exact ⟨rfl, h.1⟩

/-- The computation makes an environment in which the names have no values yet. -/
def Opens (G : Prop) (ns : List String) (p : Eval EnvironmentId) : Prop :=
  ∀ a, Runs 0 (fun _ _ => False) G a p fun e b =>
    a.environments.get? e = none ∧ ∀ n ∈ ns, b.environments.Awaits e n

theorem Opens.given {G' : Prop} {p : Eval EnvironmentId} (h : Opens G' ns p) (hG : G → G') :
    Opens G ns p := fun a => (h a).given fun _ _ => hG

/-- **A new environment is filled with values**, of which those that were there notice nothing. -/
theorem Opens.inside {p : Eval EnvironmentId} {f : EnvironmentId → Eval α} (h : Opens G ns p)
    {E : EnvironmentId → Whereabouts} (hE : ∀ {e l i}, l.head? = some e → (E e l i ↔ i = e))
    (hf : ∀ e, Fills (E e) 1 G ns (f e)) : Quiet 0 G (do
      let e ← p
      inEnvironment e (f e)) := by
  intro a
  refine (h a).bind fun e b _ => .inEnvironment (Q := fun _ _ => True) ?_
  refine (hf e _).weaken (Nat.le_refl 1) ?_
  rintro - - ⟨⟨hg, -, -, hvacant, hawaits⟩, hplace⟩
  refine ⟨⟨hg, fun n hn => ⟨e, (hE hplace).mpr rfl, ?_⟩⟩, fun i n _ hF hi => ?_⟩
  · rw [environments_withEnvironmentOf]
    exact hawaits n hn
  · obtain rfl := (hE hplace).mp hF.1
    rw [hvacant] at hi
    cases hi

theorem Runs.createName (e : EnvironmentId) (isConstant : Bool) (name : String) (a : Agent) :
    Runs 0 (Slots e [name]) (a.environments.Lacks e name) a (Eval.createName e isConstant name)
      fun _ b => b.environments.Awaits e name := by
  cases isConstant <;> exact Runs.createVariable e name rfl rfl

/-- The environment of the head of a loop or of a handler. -/
theorem opens_nestedEnvironment (isConstant : Bool) (names : List String) :
    Opens names.Nodup names (nestedEnvironment isConstant names) := by
  intro a
  unfold nestedEnvironment
  refine Runs.environment.bind fun e b _ => Runs.new fun i c => ?_
  have hnames := Runs.forM id (fun _ => Environments.stable_lacks)
    (fun _ => Environments.stable_awaits) (e := i) (l := names)
    (fun n _ d => Runs.createName i isConstant n d) c
  rw [List.map_id] at hnames
  refine (hnames.weaken (Nat.le_refl 0) fun _ _ hg => ⟨⟨hg.1.1, fun n _ => hg.2.2 n⟩, ?_⟩).bind
    fun _ d _ => (Runs.result i).imp fun _ _ _ hg _ hi => ?_
  · exact fun _ _ _ hF => .inl hF.1
  · obtain ⟨⟨⟨-, -, -, rfl, -⟩, hvacant, -⟩, -, -, hawaits⟩ := hg
    obtain ⟨rfl, rfl⟩ := hi
    exact ⟨hvacant, hawaits⟩

/-- A new variable is given its first value at once. -/
theorem Runs.createInitialized {v : Variable} (e : EnvironmentId) (name : String) {q : Eval Value}
    (hvalue : v.value = none) (hlasting : v.isDeletable = false) (hq : Quiet 0 True q) (a : Agent) :
    Runs 0 (Slots e [name]) (a.environments.Lacks e name) a (do
      Eval.createVariable e name v
      Eval.initializeVariable e name (← q)) fun _ b => b.environments.Binds e name := by
  refine (Runs.createVariable e name hvalue hlasting).bind fun _ b _ => ?_
  refine (hq.given fun _ => trivial).frame.bind fun w c _ => ?_
  refine (Runs.initializeVariable e name w).weaken (Nat.le_refl 0) ?_
  rintro - - ⟨⟨-, -, -, hawaits⟩, -, hs, hgrows⟩
  exact ⟨Environments.stable_awaits hgrows.lawful hs hgrows.spares not_false hawaits,
    fun _ _ _ hF _ _ => hF⟩

theorem Runs.copyVariable (source target : EnvironmentId) (name : String) (a : Agent) :
    Runs 0 (Slots target [name]) (a.environments.Lacks target name) a
      (Eval.copyVariable source target name) fun _ b => b.environments.Binds target name :=
  .createInitialized target name rfl rfl (Law.readVariable (L := quiet _) source name) a

/-- A loop goes on in a copy of its environment. -/
theorem Quiet.renewEnvironment (names : List String) :
    Quiet 1 names.Nodup (Eval.renewEnvironment names) := by
  intro a
  unfold Eval.renewEnvironment
  split
  · refine Runs.environment.bind fun e b _ => ?_
    refine (Runs.environmentAt e).bind fun x c _ => Runs.new fun i d => ?_
    have hnames := Runs.forM id (fun _ => Environments.stable_lacks)
      (fun _ => Environments.stable_binds) (e := i) (l := names)
      (fun n _ a => Runs.copyVariable e i n a) d
    rw [List.map_id] at hnames
    refine (hnames.weaken (Nat.zero_le 1) fun _ _ hg => ⟨⟨hg.1.1.1, fun n _ => hg.2.2 n⟩, ?_⟩).bind
      fun _ x _ => (Runs.setEnvironment i).imp fun _ _ _ _ _ _ => trivial
    exact fun _ _ _ hF => .inl hF.1
  · exact Quiet.pure _ a

/-! ### Blocks -/

/-- Whether an environment has a name. -/
theorem Runs.hasVariable {F : EnvironmentId → String → Prop} {a : Agent} (e : EnvironmentId)
    (name : String) : Runs k F G a (Eval.hasVariable e name)
      fun x b => b = a ∧ (x = true ↔ a.environments.Binds e name) := by
  refine (Runs.environmentAt e).bind fun x b hb => (Runs.result _).imp fun y c _ _ _ hy => ?_
  obtain ⟨rfl, hx⟩ := environmentAt_ok hb
  obtain ⟨rfl, rfl⟩ := hy
  refine ⟨rfl, ?_⟩
  unfold Environments.Binds Environment.has
  rw [Environments.find?_of_get? hx]

/-- A name that is not there yet is created. -/
theorem Runs.createMissing (e : EnvironmentId) (name : String) (a : Agent) :
    Runs 0 (Slots e [name]) (a.environments.Lacks e name) a (do
      unless ← Eval.hasVariable e name do Eval.createVariable e name .changing)
      fun _ b => b.environments.Awaits e name := by
  refine (Runs.hasVariable e name).bind fun x b _ => ?_
  cases x with
  | true =>
    refine (Runs.result ()).imp fun _ _ _ hg _ _ => ?_
    have hbinds := hg.2.2.2.2.mp rfl
    rw [Environments.Binds, hg.1.2] at hbinds
    cases hbinds
  | false =>
    refine (Runs.createVariable e name rfl rfl).weaken (Nat.le_refl 0) ?_
    rintro - - ⟨hlacks, -, -, rfl, -⟩
    exact ⟨hlacks, fun _ _ _ hF _ => hF⟩

theorem Runs.createBlockName (e : EnvironmentId) (d : Declaration) (a : Agent) :
    Runs 0 (Slots e [d.name]) (a.environments.Lacks e d.name) a (Eval.createBlockName e d)
      fun _ b => b.environments.Awaits e d.name := by
  unfold Eval.createBlockName
  split
  · exact Runs.createVariable e d.name rfl rfl
  · exact Runs.createMissing e d.name a

/-- A declared function is given to its name. -/
theorem Runs.initializeFunction (e : EnvironmentId) (f : Function) (a : Agent) :
    Runs 0 (Slots e [f.name.getD ""]) (a.environments.Awaits e (f.name.getD "")) a
      (Eval.initializeFunction e f) fun _ b => b.environments.Binds e (f.name.getD "") := by
  unfold Eval.initializeFunction
  cases f.name with
  | none =>
    refine (Runs.result ()).imp fun _ _ _ hg _ h => ?_
    rw [h.2]
    exact Environments.Awaits.binds hg
  | some name =>
    refine (Quiet.closure f e _).frame.bind fun v b _ => ?_
    refine (Runs.initializeVariable e name v).weaken (Nat.le_refl 0) ?_
    rintro - - ⟨hawaits, -, hs, hgrows⟩
    exact ⟨Environments.stable_awaits hgrows.lawful hs hgrows.spares not_false hawaits,
      fun _ _ _ hF _ => hF⟩

/-- **The environment of a block** has the functions of the block, and its other names without
value. -/
theorem opens_blockEnvironment (ts : List Stmt) :
    Opens (namesOnce ts = true) (lexicalNames ts) (blockEnvironment (Scope.ofStatements ts)) := by
  intro a
  unfold blockEnvironment
  -- There are two passes over a new environment: one that creates names, and one that gives
  -- functions to theirs.
  refine Runs.environment.bind fun e b _ => Runs.new fun i c => ?_
  have hnames := Runs.forM (·.name) (fun _ => Environments.stable_lacks)
    (fun _ => Environments.stable_awaits) (e := i) (l := (Scope.ofStatements ts).declarations)
    (fun d _ a => Runs.createBlockName i d a) c
  have hfunctions := fun d => (Runs.forM (fun f => f.name.getD "")
    (fun _ => Environments.stable_awaits) (fun _ => Environments.stable_binds) (e := i)
    (l := (Scope.ofStatements ts).functions) (fun f _ a => Runs.initializeFunction i f a) d).framed
  -- Functions are given to their names when all names have been made; the others go on waiting.
  have hnamed := Scope.hasNamedFunctions_ofStatements ts
  refine (hnames.weaken (Nat.le_refl 0) fun _ _ hg => ⟨⟨Scope.nodup_ofStatements ts, ?_⟩, ?_⟩).bind
    fun _ d _ => ((hfunctions d).weaken (Nat.le_refl 0) fun _ _ hg => ⟨⟨hnamed.nodup_names, ?_⟩, ?_⟩).bind
      fun _ x _ => (Runs.result i).imp fun _ _ _ hg _ hi => ?_
  · exact fun _ _ => hg.2.2 _
  · exact fun _ _ _ hF => .inl hF.1
  · intro f hf
    obtain ⟨n, -, hn⟩ := hnamed.named f hf
    obtain ⟨y, hy, hyn, -⟩ := (Scope.isSettled_ofStatements ts).functions f hf n hn
    have hawaits := hg.2.2.2 y hy
    rwa [hyn, ← Option.getD_some (a := n) (b := ""), ← hn] at hawaits
  · exact fun _ _ _ hF _ => .inl hF.1
  · obtain ⟨⟨⟨⟨honce, -, -, rfl, -⟩, hvacant, -⟩, -, -, hawaits⟩, -, -, hs, hgrows, -⟩ := hg
    obtain ⟨rfl, rfl⟩ := hi
    -- What is left waiting are the lexical names, which no function has.
    refine ⟨hvacant, fun n hn => ?_⟩
    obtain ⟨t, ht, htn⟩ := List.mem_flatMap.mp hn
    obtain ⟨y, hy, rfl⟩ := Scope.has_iff.mp (Scope.has_lexical ht htn)
    refine Environments.stable_awaits hgrows.lawful hs hgrows.spares (fun hF => ?_) (hawaits y hy)
    exact (namesOnce_iff.mp honce).2 _ hn (hnamed.mem_of_mem_names hF.2)

theorem innermost_iff {e i : EnvironmentId} {l : List EnvironmentId} (h : l.head? = some e) :
    innermost l i ↔ i = e := by
  unfold innermost
  rw [h, Option.some_inj, eq_comm]

/-- The scope is the one that belongs to the place, if the realm knows it. -/
theorem Runs.scopeAt_bind {F : EnvironmentId → String → Prop} {a : Agent} {place : Span} {s : Scope}
    {f : Scope → Eval α} {R : α → Agent → Prop} (h : Runs k F G a (f s) R) :
    Runs k F G a (scopeAt place s >>= f) R := by
  have hafter : (scopeAt place s).after a = a := by
    rcases Eval.scopeAt_apply place s a with hs | ⟨i, hs⟩
    · exact after_ok hs
    · exact after_error hs
  refine (Runs.look hafter).bind fun x b hx => ?_
  rcases Eval.scopeAt_apply place s a with hs | ⟨i, hs⟩
  · rw [hs] at hx
    cases hx
    exact h.weaken (Nat.le_refl k) fun _ _ hg => ⟨hg.1, fun _ _ _ hF _ => hF⟩
  · rw [hs] at hx
    cases hx

theorem Quiet.scopeAt_bind {place : Span} {s : Scope} {f : Scope → Eval α} (h : Quiet k G (f s)) :
    Quiet k G (scopeAt place s >>= f) := fun a => Runs.scopeAt_bind (h a)

/-- A machine that does its tasks lawfully: patterns and statements give values to the names that they
declare, the other tasks to no name. -/
structure Machine.IsLawful (m : Machine) : Prop where
  plain : (quiet True).Obeys m
  assigns : (quiet True).Assigns m
  bind : ∀ p v e, Fills (certain e) 0 p.names.Nodup p.names (m.run (.bind p v (some e)))
  statement : ∀ s, Fills innermost 0 (s.declaresOnce = true ∧ s.lexicalNames.Nodup) s.lexicalNames
    (m.run (.statement s))

namespace Machine.IsLawful

variable {m : Machine} (h : m.IsLawful)

include h

theorem obeys (G : Prop) : (quiet G).Obeys m := fun _ _ ht =>
  Quiet.given (h.plain ht) fun _ => trivial

theorem assignsGiven (G : Prop) : (quiet G).Assigns m where
  write e name v := Quiet.given (h.assigns.write e name v) fun _ => trivial
  assign t v := Quiet.given (h.assigns.assign t v) fun _ => trivial
  bind p v := Quiet.given (h.assigns.bind p v) fun _ => trivial

/-! ### Patterns -/

section Patterns

variable (v : Value) (e : EnvironmentId)

theorem bindElements (ps : List (Option Pattern)) (w : Walk) :
    Fills (certain e) 0 (elementNames ps).Nodup (elementNames ps)
      (m.bindElements (some e) ps w) := by
  induction ps generalizing w with
  | nil => exact .of_quiet (.pure _) _
  | cons p ps ih =>
    have hnext : ∀ G, Quiet 0 G (nextOf w) := fun G => Law.nextOf (L := quiet G) w
    cases p with
    | none => exact .bind_right (hnext _) fun x => ih x.2
    | some p => exact .bind_right (hnext _) fun x => .bind_append (h.bind p _ e) fun _ => ih x.2

theorem bindProperties (ps : List PatternProperty) (keys : List PropertyKey) :
    Fills (certain e) 0 (propertyNames ps).Nodup (propertyNames ps)
      (m.bindProperties (some e) v ps keys) := by
  induction ps generalizing keys with
  | nil => exact .of_quiet (.pure _) _
  | cons p ps ih =>
    obtain ⟨name, p⟩ := p
    refine .bind_right (Law.nameKey (h.obeys _) name) fun k => ?_
    refine .bind_right (Law.getOf (L := quiet _) v k) fun w => ?_
    exact .bind_append (h.bind p w e) fun _ => ih _

/-- **A pattern gives its names their values.** -/
theorem bindPattern (p : Pattern) :
    Fills (certain e) 0 p.names.Nodup p.names (m.bindPattern p v (some e)) := by
  cases p with
  | identifier name =>
    exact .initializeVariable e name v
  | array elements rest =>
    -- The parts of a pattern fill its names one after the other, and the rest comes last.
    refine .bind_right (Law.startWalk (L := quiet _) v) fun w => ?_
    refine .bind_append (h.bindElements e elements w) fun w => ?_
    cases rest with
    | none => exact .of_quiet (.pure _) _
    | some p =>
      exact .bind_right (Law.restOf (L := quiet _) w) fun vs =>
        .bind_right (Law.arrayOf (L := quiet _) vs) fun v => h.bind p v e
  | object properties rest =>
    refine .bind_right (Law.requireParts (L := quiet _) v) fun _ => ?_
    refine .bind_append (h.bindProperties v e properties []) fun keys => ?_
    cases rest with
    | none => exact .of_quiet (.pure _) _
    | some p =>
      exact .bind_right (quiet _).emptyObject fun o =>
        .bind_right (Law.copyProperties (L := quiet _) o v keys) fun _ => h.bind p _ e
  | withDefault target initializer =>
    unfold Machine.bindPattern
    dsimp only
    split
    · exact .bind_right (Law.namedBy (h.obeys _) initializer _) fun w => h.bind target w e
    · exact h.bind target v e

omit v e in
/-- The value of a parameter is its argument or its default. -/
theorem parameterValue (G : Prop) (b : Binding) (argument : Value) :
    Quiet 0 G (m.parameterValue b argument) := by
  unfold Machine.parameterValue
  split
  · split
    · exact Law.namedBy (h.obeys G) _ _
    · exact .pure _
  · exact .pure _

/-- The arguments of a function are given to its parameters. -/
theorem bindParameters (bs : List Binding) (args : List Value) :
    Fills (certain e) 0 (bindingNames bs).Nodup (bindingNames bs) (m.bindParameters e bs args) := by
  induction bs generalizing args with
  | nil => exact .of_quiet (.pure _) _
  | cons b bs ih =>
    exact .bind_right (h.parameterValue _ b _) fun v =>
      .bind_append (h.bind b.pattern v e) fun _ => ih _

theorem bindRest (p : Option Pattern) (left : List Value) :
    Fills (certain e) 0 (restNames p).Nodup (restNames p) (m.bindRest e p left) := by
  cases p with
  | none => exact .of_quiet (.pure _) _
  | some p => exact .bind_right (Law.arrayOf (L := quiet _) left) fun v => h.bind p v e

end Patterns

/-! ### Declarations -/

/-- The names of a pattern get their values where what is being evaluated is. -/
theorem bindHere (p : Pattern) (v : Value) : Fills innermost 0 p.names.Nodup p.names (do
    m.run (.bind p v (← declarationPlace false))) := by
  intro a
  have hplace : Runs 0 (fun e n => innermost a.places e ∧ n ∈ p.names)
      (p.names.Nodup ∧ ∀ n ∈ p.names, ∃ e, innermost a.places e ∧ a.environments.Awaits e n) a
      (declarationPlace false) fun o b => b = a ∧ ∃ e, o = some e ∧ a.places.head? = some e := by
    refine Runs.environment.bind fun e b _ => (Runs.look rfl).imp fun o c _ hg _ hc => ?_
    obtain ⟨-, -, -, rfl, he⟩ := hg
    cases hc.2
    exact ⟨hc.1, e, rfl, he⟩
  refine hplace.bind fun o b _ => ?_
  cases o with
  | none => exact (Quiet.anywhere (h.assigns.bind p v)).given fun _ _ _ => trivial
  | some e =>
    refine (h.bind p v e b).weaken (Nat.le_refl 0) ?_
    rintro - - ⟨⟨hd, hawaits⟩, -, -, rfl, i, hei, hi⟩
    cases hei
    refine ⟨⟨hd, fun n hn => ⟨e, rfl, ?_⟩⟩, ?_⟩
    · obtain ⟨j, hj, hawaits⟩ := hawaits n hn
      cases hi.symm.trans hj
      exact hawaits
    · rintro j n - ⟨rfl, hn⟩ -
      exact ⟨hi, hn⟩

/-- **A declaration gives the names of its list their values.** -/
theorem declareLexical (b : Binding) :
    Fills innermost 0 b.pattern.names.Nodup b.pattern.names (m.declare false b) := by
  obtain ⟨p, i⟩ := b
  cases p with
  | identifier name =>
    cases i with
    | none => exact .declareName name (.pure _)
    | some e => exact .declareName name (Law.named (h.obeys _) e name)
  | _ =>
    cases i with
    | none => exact .of_quiet (.pure _) _
    | some e => exact .bind_right (Law.expression (h.obeys _) e) fun v => h.bindHere _ v

/-- A declaration for the whole function assigns. -/
theorem declareWide (G : Prop) (b : Binding) : Quiet 0 G (m.declare true b) := by
  have hm := h.obeys G
  have ha := h.assignsGiven G
  obtain ⟨p, i⟩ := b
  cases p with
  | identifier name =>
    have hr := Law.resolve (L := quiet G) name
    cases i with
    | none => exact hr.bind fun r => .pure _
    | some e => exact hr.bind fun r => (Law.named hm e name).bind fun v => Law.writeReference hm v ha r
  | _ =>
    cases i with
    | none => exact .pure _
    | some e => exact Quiet.bind (Law.expression hm e) fun v => ha.bind _ v

theorem declareAllLexical (bs : List Binding) :
    Fills innermost 0 (bindingNames bs).Nodup (bindingNames bs) (m.declareAll false bs) := by
  induction bs with
  | nil => exact .of_quiet (.pure _) _
  | cons b bs ih => exact .bind_append (h.declareLexical b) fun _ => ih

theorem declareAllWide (G : Prop) (bs : List Binding) : Quiet 0 G (m.declareAll true bs) := by
  induction bs with
  | nil => exact .pure _
  | cons b bs ih => exact (h.declareWide G b).bind fun _ => ih

/-- **A declaration gives values to the names that it declares for its list.** -/
theorem declaration (d : VarDecl) : Fills innermost 0 (Stmt.declaration d).lexicalNames.Nodup
    (Stmt.declaration d).lexicalNames (m.declaration d) := by
  obtain ⟨span, kind, isAmbient, bs⟩ := d
  unfold Machine.declaration Stmt.lexicalNames
  cases isAmbient with
  | true => exact .of_quiet (.pure _) _
  | false =>
    cases hkind : kind.isLexical with
    | true =>
      simp only [Bool.not_false, if_true, hkind, Bool.not_true]
      exact h.declareAllLexical bs
    | false =>
      simp only [Bool.not_false, if_true, hkind]
      exact .of_quiet (h.declareAllWide _ bs) _

end Machine.IsLawful

end Scriptlet
