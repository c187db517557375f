import Scriptlet.Proofs.ArrayFunctions

/-!
# Related functions and calls

A function is made where its environment represents the scopes that the analysis found around it.  A
call creates the names of the function in one environment or in two, which then represent the scope
of the function inside those scopes, so that its body may be run.

## Main results

* `Related.closure`, `Related.functionValue` — function objects.
* `Machine.Agree.receive` — **parameters get their values** in related ways.
* `Machine.Agree.enter` — **the names of a function represent its scope**.
* `Machine.Agree.callClosure` — calls.
-/

namespace Scriptlet

open Eval

variable {φ : RealmId → Filing} {m m' : Machine} {ρ : World} {c : Context × Context} {K : Stack φ}
  {S : List Scope}
  {v w : Value} {vs ws : List Value}

/-! ### Function objects -/

/-- The notes on a function with a body. -/
theorem functionNotes_eq (s : Surroundings) {f : Function} (h : f.isBodiless = false) :
    functionNotes s f = f.kindNotes s.rules ++ f.innerNotes (s.insideName f) := by
  obtain ⟨span, form, name, isAsync, isGenerator, isAmbient, parameters, rest, body⟩ := f
  unfold functionNotes
  dsimp only
  rw [h]
  rfl

namespace Related

variable {f : Function}

/-- **Functions are made where their environments represent the scopes around them.** -/
theorem closure {e e' : EnvironmentId} (he : ρ.environment e e') (hbody : f.isBodiless = false)
    (hwritten : f ∈ (ρ.filing c.1.realm).root.functions (ρ.filing c.1.realm).rules)
    (hchecked : (ρ.filing c.1.realm).Covers (f.kindNotes (ρ.filing c.1.realm).rules))
    (hf : ρ.Represents c.1.realm e S)
    (hn : (ρ.filing c.1.realm).Covers (f.innerNotes ⟨(ρ.filing c.1.realm).rules, S⟩))
    (name : String) :
    Related ρ (K.push c) (Eval.closure f e name) (Eval.closure f e' name)
      fun σ v w => σ.value v w := by
  refine context.bind fun {σ _ _} hle hc => ?_
  obtain ⟨⟨rfl, rfl⟩, hc⟩ := hc
  have hrel : Closure.Rel σ ⟨f, e, c.1.realm, name⟩ ⟨f, e', c.2.realm, name⟩ :=
    { code := rfl, name := rfl, environment := hle.environment he, realm := hc.realm
      hasBody := hbody
      isWritten := by rw [hle.filing]; exact hwritten
      isChecked := by rw [hle.filing]; exact hchecked
      around := ⟨S, hf.mono hle, by rw [hle.filing]; exact hn⟩ }
  exact (allocate (.ofKind (.closure hrel))).bind fun _ ho => pure (.object ho)

/-- **The values of function expressions correspond.** -/
theorem functionValue (hf : ρ.Admits c S fun s => .placed (.expressed f) :: functionNotes s f) :
    Related ρ (K.push c) (Eval.functionValue f) (Eval.functionValue f)
      fun σ v w => σ.value v w := by
  have hplaced := hf.isGrammatical
  unfold Placement.isGrammatical at hplaced
  rw [Bool.and_eq_true, Bool.not_eq_true'] at hplaced
  obtain ⟨hbody, hform⟩ := hplaced
  have hinner := hf.tail
  simp only [functionNotes_eq _ hbody] at hinner
  have hchecked := hinner.left.covers
  have hinner := hinner.right
  have hwritten := Filing.mem_functions_of_covers hf.head.covers rfl
  refine environment.bind fun hle he => ?_
  obtain ⟨⟨rfl, rfl⟩, he⟩ := he
  cases hname : f.name with
  | none =>
    -- Nothing is between the function and what is around it.
    have hsame : ∀ s : Surroundings, s.insideName f = s := by
      intro s
      unfold Surroundings.insideName
      rw [hname]
      cases f.form <;> rfl
    simp only [hsame] at hinner
    have hinner := hinner.mono hle
    rw [← hle.filing] at hwritten hchecked
    exact closure he hbody hwritten hchecked hinner.represents hinner.covers _
  | some name =>
    -- The name of the function is in an environment between the two.
    have hinside : ∀ s : Surroundings, s.insideName f = s.inside (Scope.ofName name) := by
      intro s
      unfold Surroundings.insideName
      rw [hname]
      rw [hname] at hform
      revert hform
      cases f.form with
      | expression => exact fun _ => rfl
      | declaration => exact fun h => by cases h
      | arrow => exact fun h => by cases h
    simp only [hinside] at hinner
    have hinner := hinner.mono hle
    refine (newEnvironment (.some he) (· = name)).bind fun {σ i i'} hle₁ hi => ?_
    obtain ⟨hi, houter, hallows⟩ := hi
    refine (createVariable hi (by rw [hallows]) ⟨.none, rfl, rfl, rfl, rfl⟩).bind
      fun {τ _ _} hle₂ hb => ?_
    have hplan := hle₂.plan ⟨i', hi⟩
    -- That environment represents the scope of the name once the name is bound in it.
    have hrep : τ.Represents c.1.realm i (Scope.ofName name :: S) := by
      refine .single ⟨i', hle₂.environment hi⟩ (by rw [hplan, houter]) (fun n => ?_) (fun n hn => ?_)
        (hinner.represents.mono (World.le_trans hle₁ hle₂))
      · rw [Scope.has_ofName, hplan, hallows]
      · rw [hplan, hallows] at hn
        subst hn
        exact hb
    have hn := hinner.covers
    rw [← (World.le_trans hle₁ hle₂).filing] at hn
    rw [← (World.le_trans hle (World.le_trans hle₁ hle₂)).filing] at hwritten hchecked
    refine (closure (hle₂.environment hi) hbody hwritten hchecked hrep hn name).bind fun hle₃ hv => ?_
    refine (initializeVariable (hle₃.environment (hle₂.environment hi))
      (hle₃.isBound ⟨i', hle₂.environment hi⟩ hb) hv).bind fun hle₄ _ => ?_
    exact pure (hv.mono hle₄)

/-- A function that is a statement is made for its name. -/
theorem declaredFunction {e e' : EnvironmentId} (he : ρ.environment e e')
    (hbody : f.isBodiless = false) (hS : ρ.Represents c.1.realm e S)
    (hn : (ρ.filing c.1.realm).Covers
      (.placed (.declared f) :: functionNotes ⟨(ρ.filing c.1.realm).rules, S⟩ f)) :
    Related ρ (K.push c) (Eval.declaredFunction f e) (Eval.declaredFunction f e')
      fun σ v w => σ.value v w := by
  rw [Filing.covers_cons, functionNotes_eq _ hbody, Filing.covers_append] at hn
  obtain ⟨hplaced, hchecked, hinner⟩ := hn
  have hform := Filing.isGrammatical_of_covers hplaced
  have hsame : ∀ s : Surroundings, s.insideName f = s := by
    intro s
    unfold Surroundings.insideName
    rw [beq_iff_eq.mp hform]
  rw [hsame] at hinner
  exact closure he hbody (Filing.mem_functions_of_covers hplaced rfl) hchecked hS hinner _

end Related

/-! ### Names of scopes -/

/-- A variable without value that assignments change. -/
theorem Variable.Rel.changing : Variable.Rel ρ .changing .changing := ⟨.none, rfl, rfl, rfl, rfl⟩

/-- A variable without value that assignments do not change. -/
theorem Variable.Rel.constant (isStrict : Bool) :
    Variable.Rel ρ (.constant isStrict) (.constant isStrict) :=
  ⟨.none, rfl, rfl, rfl, rfl⟩

namespace Related

variable {e e' : EnvironmentId} {d : Declaration}

/-- Names that are created for the things of a list are there after the last of them. -/
theorem createAll {α : Type} (he : ρ.environment e e') (needs : α → Prop) (name : α → String)
    {p q : α → Eval Unit} {l : List α}
    (h : ∀ {σ x}, ρ ≤ σ → x ∈ l →
      Related σ K (p x) (q x) fun τ _ _ => needs x → τ.isBound e (name x)) :
    Related ρ K (l.forM p) (l.forM q) fun σ _ _ => ∀ x ∈ l, needs x → σ.isBound e (name x) :=
  forM (Q := fun σ x => needs x → σ.isBound e (name x))
    (fun hle hle' hb hx => hle'.isBound ⟨e', hle.environment he⟩ (hb hx)) h

theorem createParameter (he : ρ.environment e e')
    (hd : d.isKind .parameter = true → (ρ.plan e).allows d.name) :
    Related ρ K (Eval.createParameter e d) (Eval.createParameter e' d)
      fun σ _ _ => d.isKind .parameter = true → σ.isBound e d.name := by
  unfold Eval.createParameter
  split
  · rename_i hk
    refine (hasVariable he d.name).bind fun hle hxy => ?_
    obtain ⟨rfl, hb⟩ := hxy
    split
    · rename_i hx
      exact pure fun _ => hb (by simpa using hx)
    · have hn := hd hk
      rw [← hle.plan ⟨e', he⟩] at hn
      exact (createVariable (hle.environment he) hn .changing).imp fun _ hb _ => hb
  · rename_i hk
    exact pure fun h => absurd h hk

/-- A name is created and gets its first value. -/
theorem createInitialized (he : ρ.environment e e') {name : String}
    (hn : (ρ.plan e).allows name) {u u' : Variable} (hu : Variable.Rel ρ u u')
    {p q : Eval Value} (hpq : ∀ {σ}, ρ ≤ σ → Related σ K p q fun σ v w => σ.value v w) :
    Related ρ K
      (do
        Eval.createVariable e name u
        Eval.initializeVariable e name (← p))
      (do
        Eval.createVariable e' name u'
        Eval.initializeVariable e' name (← q)) fun σ _ _ => σ.isBound e name := by
  refine (createVariable he hn hu).bind fun hle hb => ?_
  refine (hpq hle).bind fun hle₁ hv => ?_
  have he := hle.environment he
  have hb := hle₁.isBound ⟨e', he⟩ hb
  have he := hle₁.environment he
  exact (initializeVariable he hb hv).imp fun hle₂ _ => hle₂.isBound ⟨e', he⟩ hb

theorem createFunctionWide (he : ρ.environment e e')
    (hd : d.isFunctionWide = true → (ρ.plan e).allows d.name) :
    Related ρ K (Eval.createFunctionWide e d) (Eval.createFunctionWide e' d)
      fun σ _ _ => (d.isFunctionWide = true ∧ d.isKind .parameter = false) →
        σ.isBound e d.name := by
  unfold Eval.createFunctionWide
  split
  · rename_i hk
    rw [Bool.and_eq_true] at hk
    exact (createInitialized he (hd hk.1) .changing (p := Pure.pure .undefined)
      (q := Pure.pure .undefined) fun _ => pure .undefined).imp fun _ hb _ => hb
  · rename_i hk
    exact pure fun h => absurd (by rw [h.1, h.2]; rfl) hk

theorem inheritVariable {i i' : EnvironmentId} (hi : ρ.environment i i') (he : ρ.environment e e')
    (hd : d.isFunctionWide = true → (ρ.plan e).allows d.name) :
    Related ρ K (Eval.inheritVariable i e d) (Eval.inheritVariable i' e' d)
      fun σ _ _ => d.isFunctionWide = true → σ.isBound e d.name := by
  unfold Eval.inheritVariable
  split
  · rename_i hk
    refine (createInitialized he (hd hk) .changing fun hle => ?_).imp fun _ hb _ => hb
    unfold Eval.startValue
    split
    · exact readVariable (hle.environment hi) _
    · exact pure .undefined
  · rename_i hk
    exact pure fun h => absurd h hk

theorem createLexical (he : ρ.environment e e')
    (hd : d.isLexical = true → (ρ.plan e).allows d.name) :
    Related ρ K (Eval.createLexical e d) (Eval.createLexical e' d)
      fun σ _ _ => d.isLexical = true → σ.isBound e d.name := by
  unfold Eval.createLexical
  unfold Declaration.isLexical at hd ⊢
  split
  · rename_i hk
    exact (createVariable he (hd (by rw [hk, Bool.or_true])) (.constant true)).imp
      fun _ hb _ => hb
  split
  · rename_i hk
    exact (createVariable he (hd (by rw [hk, Bool.true_or])) .changing).imp fun _ hb _ => hb
  · rename_i hc hl
    refine pure fun h => ?_
    rw [Bool.or_eq_true] at h
    exact absurd h (not_or.mpr ⟨hl, hc⟩)

theorem recordCall {x y : Closure} (h : Closure.Rel ρ x y) :
    Related ρ K (Eval.recordCall x) (Eval.recordCall y) fun _ _ _ => True := by
  unfold Eval.recordCall
  rw [h.code]
  split
  · exact recordIn h.realm _
  · exact pure trivial

theorem assignFunction {g : Function} (he : ρ.environment e e') (hbody : g.isBodiless = false)
    (hS : ρ.Represents c.1.realm e S)
    (hn : (ρ.filing c.1.realm).Covers
      (.placed (.declared g) :: functionNotes ⟨(ρ.filing c.1.realm).rules, S⟩ g))
    (hb : ∀ n, g.name = some n → ρ.isBound e n) :
    Related ρ (K.push c) (Eval.assignFunction e g) (Eval.assignFunction e' g)
      fun _ _ _ => True := by
  unfold Eval.assignFunction
  cases hname : g.name with
  | none => exact pure trivial
  | some name =>
    refine (declaredFunction he hbody hS hn).bind fun hle hv => ?_
    exact writeVariable (hle.environment he) hv (.inr (hle.isBound ⟨e', he⟩ (hb name hname)))

end Related

/-! ### Parameters -/

/-- A parameter that is a name and nothing else. -/
def Binding.IsPlain (b : Binding) : Prop :=
  b.initializer = none ∧ ∃ n, b.pattern = .identifier n

theorem Function.isPlain_of_hasParameterExpressions {f : Function}
    (h : f.hasParameterExpressions = false) :
    f.rest = none ∧ ∀ b ∈ f.parameters, b.IsPlain := by
  unfold Function.hasParameterExpressions at h
  rw [Bool.or_eq_false_iff, Option.isSome_eq_false_iff, Option.isNone_iff_eq_none,
    List.any_eq_false] at h
  refine ⟨h.1, fun b hb => ?_⟩
  have hb := h.2 b hb
  rw [Bool.not_eq_true, Bool.or_eq_false_iff, Option.isSome_eq_false_iff,
    Option.isNone_iff_eq_none, Bool.not_eq_false'] at hb
  obtain ⟨pattern, initializer⟩ := b
  refine ⟨hb.1, ?_⟩
  cases pattern with
  | identifier n => exact ⟨n, rfl⟩
  | _ => cases hb.2

theorem World.values.headD (h : ρ.values vs ws) :
    ρ.value (vs.headD .undefined) (ws.headD .undefined) := by
  cases h with
  | nil => exact .undefined
  | cons hv _ => exact hv

namespace Machine.Agree

theorem parameterValue (h : m.Agree φ m') {b : Binding}
    (hb : b.initializer = none ∨ ρ.Admits c S (optionalNotes · b.initializer))
    (hv : ρ.value v w) :
    Related ρ (K.push c) (m.parameterValue b v) (m'.parameterValue b w)
      fun σ v w => σ.value v w := by
  obtain ⟨pattern, initializer⟩ := b
  unfold Machine.parameterValue
  cases initializer with
  | none => exact .pure hv
  | some e =>
    obtain he | he := hb
    · cases he
    dsimp only
    rw [hv.isUndefined]
    split
    · exact h.namedBy (e := e) he _
    · exact .pure hv

/-- **The arguments are given to the parameters**, which are names or admitted patterns. -/
theorem bindParameters (h : m.Agree φ m') {e e' : EnvironmentId} (he : ρ.environment e e')
    {bs : List Binding} (hbs : (∀ b ∈ bs, b.IsPlain) ∨ ρ.Admits c S (bindingNotes · bs))
    (hn : ∀ n ∈ bindingNames bs, ρ.isBound e n) (hv : ρ.values vs ws) :
    Related ρ (K.push c) (m.bindParameters e bs vs) (m'.bindParameters e' bs ws)
      fun σ vs ws => σ.values vs ws := by
  induction bs generalizing ρ vs ws with
  | nil => exact .pure hv
  | cons b bs ih =>
    -- Either the parameters are plain names, for which nothing is evaluated, or the analysis has
    -- been at them.
    have hhead : ρ.Admits c S (bindingNotes · (b :: bs)) →
        ρ.Admits c S fun s => b.pattern.notes s ++ optionalNotes s b.initializer :=
      fun h => by
        obtain ⟨pattern, initializer⟩ := b
        exact h.left
    have hinit : b.initializer = none ∨ ρ.Admits c S (optionalNotes · b.initializer) :=
      hbs.imp (fun h => (h b List.mem_cons_self).1) fun h => (hhead h).right
    have hpattern : (∃ n, b.pattern = .identifier n) ∨ ρ.Admits c S (Pattern.notes · b.pattern) :=
      hbs.imp (fun h => (h b List.mem_cons_self).2) fun h => (hhead h).left
    have hrest : (∀ b ∈ bs, b.IsPlain) ∨ ρ.Admits c S (bindingNotes · bs) :=
      hbs.imp (fun h b hb => h b (List.mem_cons_of_mem _ hb)) fun h => by
        obtain ⟨pattern, initializer⟩ := b
        exact h.right
    unfold bindingNames at hn
    rw [List.flatMap_cons, List.forall_mem_append] at hn
    refine (h.parameterValue hinit (World.values.headD hv)).bind fun hle hx => ?_
    have hbinds : World.Binds _ b.pattern.names (some e) (some e') := .some ⟨he, hn.1⟩
    refine (h.run (.bind (hpattern.imp id fun h => ⟨S, h.mono hle⟩) hx
      (hbinds.mono hle))).bind fun hle₁ _ => ?_
    have hle := World.le_trans hle hle₁
    exact ih (hle.environment he) (hrest.imp id fun h => h.mono hle)
      (fun n hb => hle.isBound ⟨e', he⟩ (hn.2 n hb)) (World.values.mono hle (World.values.tail hv))

theorem bindRest (h : m.Agree φ m') {e e' : EnvironmentId} (he : ρ.environment e e')
    {p : Option Pattern} (hp : p = none ∨ ρ.Admits c S (optionalPatternNotes · p))
    (hn : ∀ n ∈ restNames p, ρ.isBound e n) (hv : ρ.values vs ws) :
    Related ρ (K.push c) (m.bindRest e p vs) (m'.bindRest e' p ws) fun _ _ _ => True := by
  cases p with
  | none => exact .pure trivial
  | some p =>
    obtain hp | hp := hp
    · cases hp
    have hbinds : ρ.Binds p.names (some e) (some e') := .some ⟨he, hn⟩
    refine (Related.arrayOf hv).bind fun hle hx => ?_
    exact h.run (.bind (.inr ⟨S, hp.mono hle⟩) hx (hbinds.mono hle))

end Machine.Agree

/-! ### Names of functions -/

/-- The notes on a statement are among those on the list that it is in. -/
theorem mem_statementNotes {s : Surroundings} {ts : List Stmt} {t : Stmt} (ht : t ∈ ts) {n : Note}
    (hn : n ∈ t.notes s) : n ∈ statementNotes s ts := by
  induction ts with
  | nil => cases ht
  | cons u ts ih =>
    rw [statementNotes, List.mem_append]
    rcases List.mem_cons.mp ht with rfl | ht
    · exact .inl hn
    · exact .inr (ih ht)

/-- The notes on a statement of a body are among those on the body. -/
theorem mem_bodyNotes {s : Surroundings} {b : Body} {t : Stmt} (ht : t ∈ b.statements) {n : Note}
    (hn : n ∈ t.notes s) : n ∈ bodyNotes s b := by
  cases b with
  | block _ ts => exact mem_statementNotes ht hn
  | _ => cases ht

/-- Whether a name is created in the environment of the body of a function, if there is one. -/
def Declaration.IsInner (d : Declaration) : Prop := d.isFunctionWide = true ∨ d.isLexical = true

/-- Every name of a function is one of its parameters or is created for its body. -/
theorem Scope.has_ofFunction (f : Function) (n : String) :
    (ofFunction f).has n = true ↔
      (∃ d ∈ (ofFunction f).declarations, d.name = n ∧ d.IsInner) ∨ n ∈ f.parameterNames := by
  constructor
  · intro hn
    obtain ⟨k, d, hd, rfl, hk⟩ := (isSettled_ofFunction f).kinds n hn
    unfold Declaration.IsInner Declaration.isFunctionWide Declaration.isLexical
    cases k with
    | parameter => exact .inr ((hasKind_parameter_ofFunction f d.name).mp ⟨d, hd, rfl, hk⟩)
    | _ => exact .inl ⟨d, hd, rfl, by simp [hk]⟩
  · rintro (⟨d, hd, hn, -⟩ | hn)
    · exact has_iff.mpr ⟨d, hd, hn⟩
    · exact has_of_hasKind ((hasKind_parameter_ofFunction f n).mpr hn)

/-- The names that the environment of the parameters of a function may have: all names of the
function, unless its body has an environment of its own. -/
def Function.firstNames (f : Function) (n : String) : Prop :=
  if f.hasParameterExpressions then n ∈ f.parameterNames else (Scope.ofFunction f).has n = true

theorem Function.firstNames_of_parameter {f : Function} {n : String} (h : n ∈ f.parameterNames) :
    f.firstNames n := by
  unfold firstNames
  split
  · exact h
  · exact (Scope.has_ofFunction f n).mpr (.inr h)

/-- An environment that represents the scope of a function as soon as it has the names that have no
value until their declarations are reached. -/
structure World.Prepares (ρ : World) (r : RealmId) (e : EnvironmentId) (f : Function)
    (S : List Scope) : Prop where
  allows : ∀ d ∈ (Scope.ofFunction f).declarations, d.isLexical = true → (ρ.plan e).allows d.name
  bound : ∀ d ∈ (Scope.ofFunction f).declarations, d.isFunctionWide = true → ρ.isBound e d.name
  represents : ∀ {σ}, ρ ≤ σ →
    (∀ d ∈ (Scope.ofFunction f).declarations, d.isLexical = true → σ.isBound e d.name) →
    σ.Represents r e (Scope.ofFunction f :: S)

section Enter

variable {f : Function} {e e' o : EnvironmentId} {r : RealmId}

/-- **The environment for the names of a body is ready for the scope of the function.** -/
theorem Related.bodyEnvironment (he : ρ.environment e e') (houter : (ρ.plan e).outer = some o)
    (hallows : (ρ.plan e).allows = f.firstNames) (ho : ρ.Represents r o S)
    (hp : ∀ n ∈ f.parameterNames, ρ.isBound e n) :
    Related ρ K (Eval.bodyEnvironment f (Scope.ofFunction f) e)
      (Eval.bodyEnvironment f (Scope.ofFunction f) e')
      fun σ i i' => σ.environment i i' ∧ σ.Prepares r i f S := by
  unfold Eval.bodyEnvironment
  -- Expressions in the parameters make two environments of the scope, one for the parameters and one
  -- for the body; otherwise one environment has all its names.
  cases hf : f.hasParameterExpressions with
  | true =>
    rw [if_pos rfl, if_pos rfl]
    have hallows : (ρ.plan e).allows = (· ∈ f.parameterNames) := by
      rw [hallows]
      funext n
      unfold Function.firstNames
      rw [if_pos hf]
    refine (newEnvironment (.some he) fun n =>
      ∃ d ∈ (Scope.ofFunction f).declarations, d.name = n ∧ d.IsInner).bind
      fun {σ i i'} hle hi => ?_
    obtain ⟨hi, hiouter, hiallows⟩ := hi
    have hinner : ∀ d ∈ (Scope.ofFunction f).declarations, d.IsInner → (σ.plan i).allows d.name := by
      intro d hd hw
      rw [hiallows]
      exact ⟨d, hd, rfl, hw⟩
    refine (createAll hi (·.isFunctionWide = true) (·.name) fun {τ d} hle₁ hd => ?_).bind
      fun {τ _ _} hle₁ hwide => ?_
    · refine inheritVariable (hle₁.environment (hle.environment he)) (hle₁.environment hi) fun hw => ?_
      rw [hle₁.plan ⟨i', hi⟩]
      exact hinner d hd (.inl hw)
    · have hknown : τ.Knows i := ⟨i', hle₁.environment hi⟩
      have hle := World.le_trans hle hle₁
      -- The names of the body's own declarations are promised here and created by the caller, which
      -- then knows that the two environments together have the scope's names.
      refine pure ⟨hle₁.environment hi, ⟨fun d hd hl => ?_, hwide, fun {υ} hle₂ hl => ?_⟩⟩
      · rw [hle₁.plan ⟨i', hi⟩]
        exact hinner d hd (.inr hl)
      have hle := World.le_trans hle hle₂
      have hplan : υ.plan i = σ.plan i := (hle₂.plan hknown).trans (hle₁.plan ⟨i', hi⟩)
      have hplan' : υ.plan e = ρ.plan e := hle.plan ⟨e', he⟩
      refine .split (hknown.mono hle₂) (by rw [hplan, hiouter]) ⟨e', hle.environment he⟩
        (by rw [hplan', houter]) (fun n => ?_) (fun n hn => ?_) (fun n hn => ?_) (ho.mono hle)
      · rw [hplan, hplan', hiallows, hallows]
        exact Scope.has_ofFunction f n
      · rw [hplan, hiallows] at hn
        obtain ⟨d, hd, rfl, hw | hl'⟩ := hn
        · exact hle₂.isBound hknown (hwide d hd hw)
        · exact hl d hd hl'
      · rw [hplan', hallows] at hn
        exact hle.isBound ⟨e', he⟩ (hp n hn)
  | false =>
    rw [if_neg Bool.false_ne_true, if_neg Bool.false_ne_true]
    have hallows : ∀ n, (ρ.plan e).allows n ↔ (Scope.ofFunction f).has n = true := by
      intro n
      rw [hallows]
      unfold Function.firstNames
      rw [hf, if_neg Bool.false_ne_true]
    have hinner : ∀ d ∈ (Scope.ofFunction f).declarations, (ρ.plan e).allows d.name :=
      fun d hd => (hallows d.name).mpr (Scope.has_iff.mpr ⟨d, hd, rfl⟩)
    refine (createAll he (fun d => d.isFunctionWide = true ∧ d.isKind .parameter = false) (·.name)
      fun {τ d} hle₁ hd => ?_).bind fun {σ _ _} hle hwide => ?_
    · refine createFunctionWide (hle₁.environment he) fun _ => ?_
      rw [hle₁.plan ⟨e', he⟩]
      exact hinner d hd
    · have hknown : σ.Knows e := ⟨e', hle.environment he⟩
      have hwide : ∀ d ∈ (Scope.ofFunction f).declarations, d.isFunctionWide = true →
          σ.isBound e d.name := by
        intro d hd hw
        cases hk : d.isKind .parameter with
        | true =>
          exact hle.isBound ⟨e', he⟩
            (hp d.name ((Scope.hasKind_parameter_ofFunction f d.name).mp ⟨d, hd, rfl, hk⟩))
        | false => exact hwide d hd ⟨hw, hk⟩
      refine pure ⟨hle.environment he, ⟨fun d hd _ => ?_, hwide, fun {υ} hle₂ hl => ?_⟩⟩
      · rw [hle.plan ⟨e', he⟩]
        exact hinner d hd
      have hle' := World.le_trans hle hle₂
      have hplan : υ.plan e = ρ.plan e := hle'.plan ⟨e', he⟩
      refine .single (hknown.mono hle₂) (by rw [hplan, houter]) (fun n => ?_) (fun n hn => ?_)
        (ho.mono hle')
      · rw [hplan]
        exact (hallows n).symm
      · rw [hplan, hallows, Scope.has_ofFunction] at hn
        obtain ⟨d, hd, rfl, hw | hl'⟩ | hn := hn
        · exact hle₂.isBound hknown (hwide d hd hw)
        · exact hl d hd hl'
        · exact hle'.isBound ⟨e', he⟩ (hp n hn)

/-- The parameters of a function are admitted, or are names, where its parameters have been
created. -/
theorem World.admits_parameters (houter : (ρ.plan c.1.environment).outer = some o)
    (hknown : ρ.Knows c.1.environment) (hallows : (ρ.plan c.1.environment).allows = f.firstNames)
    (ho : ρ.Represents c.1.realm o S)
    (hn : (ρ.filing c.1.realm).Covers (f.innerNotes ⟨(ρ.filing c.1.realm).rules, S⟩))
    (hp : ∀ n ∈ f.parameterNames, ρ.isBound c.1.environment n) :
    f.rest = none ∧ (∀ b ∈ f.parameters, b.IsPlain) ∨
      ρ.Admits c (Scope.ofParameters f :: S) fun s =>
        bindingNotes s f.parameters ++ optionalPatternNotes s f.rest := by
  cases hf : f.hasParameterExpressions with
  | false => exact .inl (Function.isPlain_of_hasParameterExpressions hf)
  | true =>
    have hnames : ∀ n, (ρ.plan c.1.environment).allows n ↔ n ∈ f.parameterNames := by
      intro n
      rw [hallows]
      unfold Function.firstNames
      rw [if_pos hf]
    refine .inr ⟨.single hknown houter (fun n => ?_) (fun n hn => hp n ((hnames n).mp hn)) ho, ?_⟩
    · rw [hnames, Scope.has_ofParameters]
    · rw [Function.innerNotes, Filing.covers_append] at hn
      exact hn.1

/-- What is noted of the functions that a function instantiates. -/
theorem Filing.covers_instantiated {φ : Filing} {x : Rules} {g : Function}
    (hn : φ.Covers (f.innerNotes ⟨x, S⟩)) (hg : g ∈ (Scope.ofFunction f).functions) :
    φ.Covers (Stmt.notes ⟨x, Scope.ofFunction f :: S⟩ (.function g)) := by
  rw [Function.innerNotes, Filing.covers_append, Filing.covers_cons] at hn
  exact fun n hm => hn.2.2 n (mem_bodyNotes (Scope.mem_functions_ofFunction hg).1 hm)

/-- Creates the names of the parameters and gives them the arguments. -/
def Machine.receive (m : Machine) (e : EnvironmentId) (f : Function) (args : List Value)
    (scope : Scope) : Eval Unit := do
  scope.declarations.forM (createParameter e)
  m.bindRest e f.rest (← m.bindParameters e f.parameters args)

/-- Creates the other names of a function whose parameters have their values. -/
def Eval.prepareBody (e : EnvironmentId) (f : Function) (scope : Scope) : Eval Unit := do
  let inner ← bodyEnvironment f scope e
  setEnvironment inner
  scope.declarations.forM (createLexical inner)
  scope.functions.forM (assignFunction inner)

theorem Machine.enter_eq_receive (m : Machine) (f : Function) (args : List Value) : m.enter f args
    = scopeAt f.span (Scope.ofFunction f) >>= fun scope => environment >>= fun e =>
      m.receive e f args scope >>= fun _ => prepareBody e f scope := by
  unfold enter receive prepareBody
  simp only [bind_assoc]

/-- **The parameters of a function get their values** in an environment that may have their names. -/
theorem Machine.Agree.receive (h : m.Agree φ m') (he : ρ.environment c.1.environment c.2.environment)
    (houter : (ρ.plan c.1.environment).outer = some o)
    (hallows : (ρ.plan c.1.environment).allows = f.firstNames)
    (ho : ρ.Represents c.1.realm o S)
    (hn : (ρ.filing c.1.realm).Covers (f.innerNotes ⟨(ρ.filing c.1.realm).rules, S⟩))
    (hv : ρ.values vs ws) :
    Related ρ (K.push c) (m.receive c.1.environment f vs (Scope.ofFunction f))
      (m'.receive c.2.environment f ws (Scope.ofFunction f)) fun σ _ _ =>
        ∀ n ∈ f.parameterNames, σ.isBound c.1.environment n := by
  -- Nothing that runs meanwhile changes the plan of an environment that is known.
  have hplan : ∀ {σ}, ρ ≤ σ → σ.plan c.1.environment = ρ.plan c.1.environment :=
    fun hle => hle.plan ⟨_, he⟩
  refine (Related.createAll he (·.isKind .parameter = true) (·.name)
    fun {σ d} hle hd => ?_).bind fun {σ₁ _ _} hle₁ hp => ?_
  · refine Related.createParameter (hle.environment he) fun hk => ?_
    rw [hplan hle, hallows]
    exact Function.firstNames_of_parameter
      ((Scope.hasKind_parameter_ofFunction f d.name).mp ⟨d, hd, rfl, hk⟩)
  have he₁ := hle₁.environment he
  have hp : ∀ n ∈ f.parameterNames, σ₁.isBound c.1.environment n := by
    intro n hn
    obtain ⟨d, hd, rfl, hk⟩ := (Scope.hasKind_parameter_ofFunction f n).mpr hn
    exact hp d hd hk
  have hadmits := World.admits_parameters (c := c) (by rw [hplan hle₁, houter]) ⟨_, he₁⟩
    (by rw [hplan hle₁, hallows]) (ho.mono hle₁) (by rw [hle₁.filing]; exact hn) hp
  refine (h.bindParameters he₁ (hadmits.imp And.right fun h => h.left)
    (fun n hn => hp n (List.mem_append_left _ hn)) (World.values.mono hle₁ hv)).bind
    fun {σ₂ _ _} hle₂ hleft => ?_
  refine (h.bindRest (hle₂.environment he₁)
    (hadmits.imp And.left fun h => h.right.mono hle₂)
    (fun n hn => hle₂.isBound ⟨_, he₁⟩ (hp n (List.mem_append_right _ hn))) hleft).imp
    fun {σ₃ _ _} hle₃ _ => ?_
  exact fun n hn => (World.le_trans hle₂ hle₃).isBound ⟨_, he₁⟩ (hp n hn)

/-- **A function is entered in an environment that represents its scope.** -/
theorem Machine.Agree.enter (h : m.Agree φ m') (he : ρ.environment c.1.environment c.2.environment)
    (houter : (ρ.plan c.1.environment).outer = some o)
    (hallows : (ρ.plan c.1.environment).allows = f.firstNames)
    (ho : ρ.Represents c.1.realm o S)
    (hn : (ρ.filing c.1.realm).Covers (f.innerNotes ⟨(ρ.filing c.1.realm).rules, S⟩))
    (hv : ρ.values vs ws) :
    Roams ρ c K (m.enter f vs) (m'.enter f ws) fun σ i _ _ _ =>
      σ.Represents c.1.realm i (Scope.ofFunction f :: S) ∧
        ∀ d ∈ (Scope.ofFunction f).declarations, d.isLexical = true → σ.isBound i d.name := by
  have hplan : ∀ {σ}, ρ ≤ σ → σ.plan c.1.environment = ρ.plan c.1.environment :=
    fun hle => hle.plan ⟨_, he⟩
  have hscope : (ρ.filing c.1.realm).Covers [.scope f.span (Scope.ofFunction f)] := by
    rw [Function.innerNotes, Filing.covers_append, Filing.covers_cons] at hn
    exact hn.2.1
  rw [Machine.enter_eq_receive, Machine.enter_eq_receive]
  refine .bind_left (Related.scopeAt hscope) fun {σ₁ _ _} hle₁ hs => ?_
  obtain ⟨rfl, rfl⟩ := hs
  refine .bind_left Related.environment fun {σ₂ _ _} hle₂ hi => ?_
  obtain ⟨⟨rfl, rfl⟩, he₂⟩ := hi
  have hle₂ := World.le_trans hle₁ hle₂
  -- the parameters get their values
  refine .bind_left (h.receive he₂ (by rw [hplan hle₂, houter]) (by rw [hplan hle₂, hallows])
    (ho.mono hle₂) (by rw [hle₂.filing]; exact hn) (World.values.mono hle₂ hv))
    fun {σ₃ _ _} hle₃ hp => ?_
  have hle₃ := World.le_trans hle₂ hle₃
  -- the other names are created
  refine .bind_left (Related.bodyEnvironment (hle₃.environment he) (by rw [hplan hle₃, houter])
    (by rw [hplan hle₃, hallows]) (ho.mono hle₃) hp) fun {σ₄ i i'} hle₄ hi => ?_
  obtain ⟨hi, hprepares⟩ := hi
  refine (Roams.setEnvironment hi).bind fun {σ₅ _ _ _ _} hle₅ hmove => ?_
  obtain ⟨rfl, rfl⟩ := hmove
  have hi₅ := hle₅.environment hi
  refine .bind_left (Related.createAll hi₅ (·.isLexical = true) (·.name)
    fun {σ d} hle hd => ?_) fun {σ₆ _ _} hle₆ hlexical => ?_
  · refine Related.createLexical (hle.environment hi₅) fun hl => ?_
    rw [(World.le_trans hle₅ hle).plan ⟨_, hi⟩]
    exact hprepares.allows d hd hl
  have hle₆' := World.le_trans hle₅ hle₆
  have hrep := hprepares.represents hle₆' hlexical
  have hle := World.le_trans (World.le_trans hle₃ hle₄) hle₆'
  refine (Roams.ofRelated (Related.forM (Q := fun _ _ => True) (fun _ _ _ => trivial)
    fun {σ g} hle₇ hg => ?_)).imp fun {σ _ _ _ _} hle₇ hmove => ?_
  · refine Related.assignFunction (hle₇.environment (hle₆.environment hi₅))
      (Scope.mem_functions_ofFunction hg).2 (hrep.mono hle₇) ?_ fun n hname => ?_
    · rw [(World.le_trans hle hle₇).filing]
      exact Filing.covers_instantiated hn hg
    · obtain ⟨d, hd, rfl, hk⟩ := (Scope.isSettled_ofFunction f).functions g hg n hname
      refine (World.le_trans hle₆' hle₇).isBound ⟨_, hi⟩ (hprepares.bound d hd ?_)
      rw [Declaration.isFunctionWide, hk, Bool.or_true]
  · obtain ⟨⟨rfl, rfl⟩, -⟩ := hmove
    exact ⟨hrep.mono hle₇, fun d hd hl =>
      hle₇.isBound ⟨_, hle₆.environment hi₅⟩ (hlexical d hd hl)⟩

end Enter

/-! ### Bodies and calls -/

/-- Names that are declared with `let` or `const` have no value to start with. -/
theorem Scope.isLexical_of_mem {s : Scope} {n : String} (h : s.hasKind n .let ∨ s.hasKind n .const) :
    ∃ d ∈ s.declarations, d.name = n ∧ d.isLexical = true := by
  obtain ⟨d, hd, hn, hk⟩ | ⟨d, hd, hn, hk⟩ := h
  · exact ⟨d, hd, hn, by rw [Declaration.isLexical, hk, Bool.true_or]⟩
  · exact ⟨d, hd, hn, by rw [Declaration.isLexical, hk, Bool.or_true]⟩

/-- The environment that is being evaluated in is a known one. -/
theorem Related.inKnown {α β : Type} {p : Eval α} {q : Eval β} {R : World → α → β → Prop}
    (h : ρ.environment c.1.environment c.2.environment → Related ρ (K.push c) p q R) :
    Related ρ (K.push c) p q R :=
  fun a b hab => h (context_rel hab).environment a b hab

/-- The value of the second completion, or else that of the first one. -/
theorem World.value?.orElse {x y x' y' : Option Value} (h : ρ.value? x y) (h' : ρ.value? x' y') :
    ρ.value? (x <|> x') (y <|> y') := by
  cases h with
  | none => exact h'
  | some hv => exact .some hv

theorem Completion.Rel.returned {x y : Completion} (h : Completion.Rel ρ x y) :
    ρ.value x.returned y.returned := by
  unfold Completion.returned
  rw [h.kind]
  split
  · exact World.value?.getD h.value
  · exact .undefined

namespace Machine.Agree

theorem statementsFrom (h : m.Agree φ m') {ts : List Stmt}
    (hts : ρ.Admits c S (statementNotes · ts))
    (hb : ∀ t ∈ ts, ∀ n ∈ t.lexicalNames, ρ.isBound c.1.environment n) {v w : Option Value}
    (hv : ρ.value? v w) :
    Related ρ (K.push c) (m.statementsFrom ts v) (m'.statementsFrom ts w)
      fun σ x y => Completion.Rel σ x y := by
  induction ts generalizing ρ v w with
  | nil => exact .pure ⟨rfl, hv⟩
  | cons t ts ih =>
    obtain ⟨ht, hb⟩ := List.forall_mem_cons.mp hb
    refine .inKnown fun he => ?_
    refine (h.run (.statement hts.left ht)).bind fun {σ x y} hle hxy => ?_
    have hxy : Completion.Rel σ x y := hxy
    have hvalue := World.value?.orElse hxy.value (World.value?.mono hle hv)
    unfold Completion.isAbrupt
    dsimp only
    rw [hxy.kind]
    split
    · exact .pure ⟨rfl, hvalue⟩
    · exact ih (hts.right.mono hle) (fun t ht n hn => hle.isBound ⟨_, he⟩ (hb t ht n hn)) hvalue

theorem statements (h : m.Agree φ m') {ts : List Stmt} (hts : ρ.Admits c S (statementNotes · ts))
    (hb : ∀ t ∈ ts, ∀ n ∈ t.lexicalNames, ρ.isBound c.1.environment n) :
    Related ρ (K.push c) (m.statements ts) (m'.statements ts)
      fun σ x y => Completion.Rel σ x y :=
  h.statementsFrom hts hb .none

/-- **The body of a function is run where its names are.** -/
theorem body (h : m.Agree φ m') {f : Function} (hf : ρ.Admits c S (bodyNotes · f.body))
    (hb : ∀ t ∈ f.body.statements, ∀ n ∈ t.lexicalNames, ρ.isBound c.1.environment n) :
    Related ρ (K.push c) (m.body f) (m'.body f) fun σ v w => σ.value v w := by
  unfold Machine.body
  revert hf hb
  cases f.body with
  | absent => exact fun _ _ => .pure .undefined
  | concise e => exact fun hf _ => h.expression (e := e) hf
  | block s ts =>
    intro hf hb
    have hts : ρ.Admits c S (statementNotes · ts) := hf
    exact (h.statements hts hb).bind fun _ hxy => .pure hxy.returned

/-- **Calls of corresponding closures are related.** -/
theorem callClosure (h : m.Agree φ m') {x y : Closure} (hxy : Closure.Rel ρ x y)
    (hv : ρ.values vs ws) :
    Related ρ K (m.callClosure x vs) (m'.callClosure y ws) fun σ v w => σ.value v w := by
  obtain ⟨S, hS, hn⟩ := hxy.around
  refine (Related.recordCall hxy).bind fun hle₁ _ => ?_
  refine (Related.report _ _).bind fun hle₂ _ => ?_
  have hle₂ := World.le_trans hle₁ hle₂
  refine (Related.newEnvironment (.some (hle₂.environment hxy.environment))
    x.code.firstNames).bind fun {σ e e'} hle₃ he => ?_
  obtain ⟨he, houter, hallows⟩ := he
  have hle := World.le_trans hle₂ hle₃
  rw [← hxy.code]
  have hn : (σ.filing x.realm).Covers (x.code.innerNotes ⟨(σ.filing x.realm).rules, S⟩) := by
    rw [hle.filing]
    exact hn
  refine .inContext (c := (⟨x.realm, e⟩, ⟨y.realm, e'⟩)) ⟨hle.realm hxy.realm, he⟩ ?_
  refine (h.enter he houter hallows (hS.mono hle) hn (World.values.mono hle hv)).bind
    fun {τ i i' _ _} hle₄ hi => ?_
  obtain ⟨hrep, hlexical⟩ := hi
  refine (Roams.ofRelated (h.body (S := Scope.ofFunction x.code :: S) ⟨hrep, ?_⟩ ?_)).imp
    fun _ hv => hv.2
  · rw [Function.innerNotes, Filing.covers_append, Filing.covers_cons, ← hle₄.filing] at hn
    exact hn.2.2
  · intro t ht n hn
    obtain ⟨d, hd, rfl, hl⟩ := Scope.isLexical_of_mem (Scope.hasKind_lexical ht hn)
    exact hlexical d hd hl

end Machine.Agree

end Scriptlet
