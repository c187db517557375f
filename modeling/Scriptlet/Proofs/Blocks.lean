import Scriptlet.Proofs.Functions

/-!
# Related environments of blocks

The names of a block, of the head of a loop or of a handler are created in an environment of their
own, which then represents their scope inside the scopes around it.  A counting loop goes on in a
copy of its environment, which represents the same scopes.

## Main results

* `Related.blockEnvironment`, `Related.nestedEnvironment` — **environments with the names of a
  scope**.
* `World.Represents.renewed`, `Roams.renewEnvironment` — copies of environments.
* `Related.resolveBound` — names that the environment itself has.
-/

namespace Scriptlet

open Eval

variable {φ : RealmId → Filing} {ρ : World} {c : Context × Context} {K : Stack φ} {S : List Scope}

/-- Names that statements declare for their list are declared in its scope. -/
theorem Scope.has_lexical {ts : List Stmt} {t : Stmt} (ht : t ∈ ts) {n : String}
    (hn : n ∈ t.lexicalNames) : (ofStatements ts).has n = true := by
  obtain ⟨d, hd, rfl, -⟩ := isLexical_of_mem (hasKind_lexical ht hn)
  exact has_iff.mpr ⟨d, hd, rfl⟩

theorem statementNotes_append (s : Surroundings) (ts us : List Stmt) :
    statementNotes s (ts ++ us) = statementNotes s ts ++ statementNotes s us := by
  induction ts with
  | nil => rfl
  | cons t ts ih => rw [List.cons_append, statementNotes, statementNotes, ih, List.append_assoc]

/-- An environment of its own represents a scope, if it may have its names and has them. -/
theorem World.Represents.ofOwn {r : RealmId} {e o : EnvironmentId} {s : Scope} (hk : ρ.Knows e)
    (houter : (ρ.plan e).outer = some o)
    (hallows : ∀ n, (ρ.plan e).allows n ↔ s.has n = true)
    (hb : ∀ n, s.has n = true → ρ.isBound e n) (ho : ρ.Represents r o S) :
    ρ.Represents r e (s :: S) :=
  .single hk houter (fun n => (hallows n).symm) (fun n hn => hb n ((hallows n).mp hn)) ho

/-- A computation that stays in another environment. -/
theorem Related.inside {α β : Type} {p : Eval α} {q : Eval β} {R : World → α → β → Prop}
    {e f : EnvironmentId} (hef : ρ.environment e f)
    (h : ∀ {σ}, ρ ≤ σ → Related σ (K.push (moved c e f)) p q R) :
    Related ρ (K.push c) (Eval.inEnvironment e p) (Eval.inEnvironment f q) R :=
  inEnvironment hef fun hle => (Roams.ofRelated (h hle)).imp fun _ h => h.2

namespace Related

variable {e e' : EnvironmentId}

/-! ### Blocks -/

theorem createBlockName (he : ρ.environment e e') {d : Declaration}
    (hd : (ρ.plan e).allows d.name) :
    Related ρ K (Eval.createBlockName e d) (Eval.createBlockName e' d)
      fun σ _ _ => σ.isBound e d.name := by
  unfold Eval.createBlockName
  split
  · exact createVariable he hd (.constant true)
  · refine (hasVariable he d.name).bind fun hle hxy => ?_
    obtain ⟨rfl, hb⟩ := hxy
    split
    · rename_i hx
      exact pure (hb (by simpa using hx))
    · rw [← hle.plan ⟨e', he⟩] at hd
      exact createVariable (hle.environment he) hd .changing

theorem initializeFunction {g : Function} (he : ρ.environment e e') (hbody : g.isBodiless = false)
    (hS : ρ.Represents c.1.realm e S)
    (hn : (ρ.filing c.1.realm).Covers
      (Stmt.notes ⟨(ρ.filing c.1.realm).rules, S⟩ (.function g)))
    (hb : ∀ n, g.name = some n → ρ.isBound e n) :
    Related ρ (K.push c) (Eval.initializeFunction e g) (Eval.initializeFunction e' g)
      fun _ _ _ => True := by
  unfold Eval.initializeFunction
  cases hname : g.name with
  | none => exact pure trivial
  | some name =>
    refine (declaredFunction he hbody hS hn).bind fun hle hv => ?_
    exact initializeVariable (hle.environment he) (hle.isBound ⟨e', he⟩ (hb name hname)) hv

/-- **The environment of a block represents its scope and has all its names.** -/
theorem blockEnvironment {ts : List Stmt} {s : Scope} (hs : s = Scope.ofStatements ts)
    (hS : ρ.Represents c.1.realm c.1.environment S)
    (hn : (ρ.filing c.1.realm).Covers (statementNotes ⟨(ρ.filing c.1.realm).rules, s :: S⟩ ts)) :
    Related ρ (K.push c) (Eval.blockEnvironment s) (Eval.blockEnvironment s)
      fun σ e e' => σ.environment e e' ∧ σ.Represents c.1.realm e (s :: S) ∧
        ∀ n, s.has n = true → σ.isBound e n := by
  subst hs
  refine environment.bind fun hle he => ?_
  obtain ⟨⟨rfl, rfl⟩, he⟩ := he
  refine (newEnvironment (.some he) ((Scope.ofStatements ts).has · = true)).bind
    fun {σ e e'} hle₁ hi => ?_
  obtain ⟨hi, houter, hallows⟩ := hi
  have hle := World.le_trans hle hle₁
  -- All names of the block are created before its functions are.
  refine (createAll hi (fun _ => True) (·.name) fun {τ d} hle₁ hd => ?_).bind
    fun {τ _ _} hle₂ hbound => ?_
  · refine (createBlockName (hle₁.environment hi) ?_).imp fun _ hb _ => hb
    rw [hle₁.plan ⟨e', hi⟩, hallows]
    exact Scope.has_iff.mpr ⟨d, hd, rfl⟩
  have hle := World.le_trans hle hle₂
  have hi' := hle₂.environment hi
  have hbound : ∀ n, (Scope.ofStatements ts).has n = true → τ.isBound e n := by
    intro n hn
    obtain ⟨d, hd, rfl⟩ := Scope.has_iff.mp hn
    exact hbound d hd trivial
  -- With its names bound the environment represents the block inside what is around it.
  have hrep : τ.Represents c.1.realm e (Scope.ofStatements ts :: S) := by
    refine .ofOwn ⟨e', hi'⟩ ?_ (fun n => ?_) hbound (hS.mono hle)
    · rw [hle₂.plan ⟨e', hi⟩, houter]
    · rw [hle₂.plan ⟨e', hi⟩, hallows]
  -- So the functions of the block may be closed over it.
  refine (forM (Q := fun _ _ => True) (fun _ _ _ => trivial) fun {υ g} hle₃ hg => ?_).bind
    fun hle₃ _ => ?_
  · obtain ⟨hmem, hbody⟩ := Scope.mem_functions_ofStatements hg
    refine initializeFunction (hle₃.environment hi') hbody (hrep.mono hle₃) ?_ fun n hname => ?_
    · rw [(World.le_trans hle hle₃).filing]
      exact fun m hm => hn m (mem_statementNotes hmem hm)
    · exact hle₃.isBound ⟨e', hi'⟩ (hbound n (Scope.has_of_hasKind
        ((Scope.isSettled_ofStatements ts).functions g hg n hname)))
  · exact pure ⟨hle₃.environment hi', hrep.mono hle₃,
      fun n hn => hle₃.isBound ⟨e', hi'⟩ (hbound n hn)⟩

/-! ### Loops and handlers -/

theorem createName (he : ρ.environment e e') (isConstant : Bool) {name : String}
    (hn : (ρ.plan e).allows name) :
    Related ρ K (Eval.createName e isConstant name) (Eval.createName e' isConstant name)
      fun σ _ _ => σ.isBound e name := by
  unfold Eval.createName
  cases isConstant with
  | true => exact createVariable he hn (.constant true)
  | false => exact createVariable he hn .changing

/-- **The environment of the head of a loop or of a handler represents its scope and has all its
names.** -/
theorem nestedEnvironment (isConstant : Bool) {names : List String} {s : Scope}
    (hs : ∀ n, s.has n = true ↔ n ∈ names) (hS : ρ.Represents c.1.realm c.1.environment S) :
    Related ρ (K.push c) (Eval.nestedEnvironment isConstant names)
      (Eval.nestedEnvironment isConstant names)
      fun σ e e' => σ.environment e e' ∧ σ.Represents c.1.realm e (s :: S) ∧
        ∀ n ∈ names, σ.isBound e n := by
  refine environment.bind fun hle he => ?_
  obtain ⟨⟨rfl, rfl⟩, he⟩ := he
  refine (newEnvironment (.some he) (· ∈ names)).bind fun {σ e e'} hle₁ hi => ?_
  obtain ⟨hi, houter, hallows⟩ := hi
  have hle := World.le_trans hle hle₁
  refine (createAll hi (fun _ => True) id fun {τ n} hle₁ hn => ?_).bind fun {τ _ _} hle₂ hbound => ?_
  · refine (createName (hle₁.environment hi) isConstant ?_).imp fun _ hb _ => hb
    rw [hle₁.plan ⟨e', hi⟩, hallows]
    exact hn
  have hbound : ∀ n ∈ names, τ.isBound e n := fun n hn => hbound n hn trivial
  refine pure ⟨hle₂.environment hi, .ofOwn ⟨e', hle₂.environment hi⟩ ?_ (fun n => ?_)
    (fun n hn => hbound n ((hs n).mp hn)) (hS.mono (World.le_trans hle hle₂)), hbound⟩
  · rw [hle₂.plan ⟨e', hi⟩, houter]
  · rw [hle₂.plan ⟨e', hi⟩, hallows, hs]

theorem copyVariable {i i' : EnvironmentId} (hi : ρ.environment i i') (he : ρ.environment e e')
    {name : String} (hn : (ρ.plan e).allows name) :
    Related ρ K (Eval.copyVariable i e name) (Eval.copyVariable i' e' name)
      fun σ _ _ => σ.isBound e name :=
  createInitialized he hn .changing fun hle => readVariable (hle.environment hi) name

end Related

/-- Names of the innermost scope that are copied from one round of a loop to the next one: none, or
all of them. -/
def World.Renews (names : List String) (S : List Scope) : Prop :=
  names = [] ∨ ∃ s T, S = s :: T ∧ ∀ n, s.has n = true ↔ n ∈ names

/-- **A copy of an environment represents the same scopes.** -/
theorem World.Represents.renewed {r : RealmId} {e f : EnvironmentId} {s : Scope}
    {names : List String} (h : ρ.Represents r e (s :: S)) (hs : ∀ n, s.has n = true ↔ n ∈ names)
    (hne : names ≠ []) (hk : ρ.Knows f) (houter : (ρ.plan f).outer = (ρ.plan e).outer)
    (hallows : ∀ n, (ρ.plan f).allows n ↔ n ∈ names) (hb : ∀ n ∈ names, ρ.isBound f n) :
    ρ.Represents r f (s :: S) := by
  have hbound : ∀ n, (ρ.plan f).allows n → ρ.isBound f n :=
    fun n hn => hb n ((hallows n).mp hn)
  cases h with
  | nameless hnames hrest =>
    obtain ⟨n, hn⟩ := List.exists_mem_of_ne_nil names hne
    obtain ⟨d, hd, -⟩ := Scope.has_iff.mp ((hs n).mpr hn)
    rw [hnames] at hd
    cases hd
  | single hk' ho hnames hbound' hrest =>
    exact .single hk (houter.trans ho) (fun n => (hs n).trans (hallows n).symm) hbound hrest
  | split hk' ho hkp hop hnames hbound' hboundp hrest =>
    refine .split hk (houter.trans ho) hkp hop (fun n => ⟨fun hn => ?_, ?_⟩) hbound hboundp hrest
    · exact .inl ((hallows n).mpr ((hs n).mp hn))
    · rintro (hn | hn)
      · exact (hs n).mpr ((hallows n).mp hn)
      · exact (hnames n).mpr (.inr hn)

/-- **A loop goes on in an environment that represents the same scopes.** -/
theorem Roams.renewEnvironment {names : List String} (hS : ρ.Represents c.1.realm c.1.environment S)
    (hn : World.Renews names S) :
    Roams ρ c K (Eval.renewEnvironment names) (Eval.renewEnvironment names)
      fun σ e _ _ _ => σ.Represents c.1.realm e S := by
  -- Without names there is nothing to renew, and the round goes on where it is.
  by_cases hne : names = []
  · subst hne
    exact .pure hS
  obtain ⟨s, T, rfl, hs⟩ := hn.resolve_left hne
  unfold Eval.renewEnvironment
  rw [if_pos (by simpa using hne)]
  refine .bind_left Related.environment fun {σ₁ _ _} hle₁ he => ?_
  obtain ⟨⟨rfl, rfl⟩, he⟩ := he
  refine .bind_left (Related.environmentAt he) fun {σ₂ x y} hle₂ hxy => ?_
  have he := hle₂.environment he
  refine .bind_left (Related.newEnvironment hxy.outer (· ∈ names)) fun {σ₃ f f'} hle₃ hf => ?_
  obtain ⟨hf, houter, hallows⟩ := hf
  -- The new environment has the plan of the old one, and so its place in the scopes.
  rw [hxy.plan, ← hle₃.plan ⟨_, he⟩] at houter
  have he := hle₃.environment he
  refine .bind_left (Related.createAll hf (fun _ => True) id fun {τ n} hle hn => ?_)
    fun {σ₄ _ _} hle₄ hbound => ?_
  · refine (Related.copyVariable (hle.environment he) (hle.environment hf) ?_).imp
      fun _ hb _ => hb
    rw [hle.plan ⟨f', hf⟩, hallows]
    exact hn
  have hle := World.le_trans (World.le_trans (World.le_trans hle₁ hle₂) hle₃) hle₄
  have hf' := hle₄.environment hf
  have hrep : σ₄.Represents c.1.realm f (s :: T) := by
    refine (hS.mono hle).renewed hs hne ⟨f', hf'⟩ ?_ (fun n => ?_) fun n hn => hbound n hn trivial
    · rw [hle₄.plan ⟨f', hf⟩, hle₄.plan ⟨_, he⟩, houter]
    · rw [hle₄.plan ⟨f', hf⟩, hallows]
  refine (setEnvironment hf').imp fun hle₅ h => ?_
  obtain ⟨rfl, rfl⟩ := h
  exact hrep.mono hle₅

/-! ### Names that an environment has -/

theorem Environments.holder_of_has {t : Environments} {e : EnvironmentId} {x : Environment}
    {name : String} (hx : t.get? e = some x) (hn : x.has name = true) :
    t.holder name e = .environment e := by
  unfold Environments.holder Environments.holderFrom
  rw [hx]
  exact if_pos hn

/-- A name that the environment itself has stands for its variable. -/
theorem Related.resolveBound {name : String} (hb : ρ.isBound c.1.environment name) :
    Related ρ (K.push c) (Eval.resolve name) (Eval.resolve name)
      fun _ r s => r = .variable c.1.environment name ∧ s = .variable c.2.environment name := by
  refine inKnown fun he => environment.bind fun hle he' => get fun a b hab => ?_
  obtain ⟨⟨rfl, rfl⟩, -⟩ := he'
  obtain ⟨x, y, hx, hy, hxy⟩ := hab.environments.record (hle.environment he)
  have hn := hxy.bound name (hle.isBound ⟨_, he⟩ hb)
  rw [Environments.holder_of_has hx hn, Environments.holder_of_has hy (hxy.has name ▸ hn)]
  exact pure ⟨rfl, rfl⟩

end Scriptlet
