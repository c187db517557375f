import Scriptlet.Proofs.LawfulStatements

/-!
# Calls and machines

A call makes environments for the names of the function and gives all of them their values, but those
that await a declaration of the body.  With the statements this is the last piece of a task, so that
machines of every height do their tasks lawfully.

## Main definitions

* `Environments.Made` — a name has been made, or is not there yet.

## Main results

* `Runs.bodyNames` — the names that the body declares are there, and functions have been assigned to
  theirs.
* `Machine.IsLawful.enter`, `Machine.IsLawful.body` — the names of a function, and its body.
* `Machine.IsLawful.callFunction` — **a call gives values to names of its own only**.
* `Machine.isLawful_ofDepth` — **every machine is lawful**.
-/

namespace Scriptlet

open Eval

/-! ### The names of a function -/

namespace Environments

variable {P : Environments → EnvironmentId → String → Prop} {b : Bool} {s : Environments}
  {e : EnvironmentId} {n : String}

/-- The name has been made, or is not there yet. -/
def Made (isMade : Bool) (P : Environments → EnvironmentId → String → Prop) (s : Environments)
    (e : EnvironmentId) (name : String) : Prop :=
  if isMade then P s e name else s.Lacks e name

theorem Made.of_true (h : Made b P s e n) (hb : b = true) : P s e n := by
  rwa [Made, if_pos hb] at h

theorem Made.of_false (h : Made b P s e n) (hb : b = false) : s.Lacks e n := by
  rwa [Made, if_neg (hb ▸ Bool.false_ne_true)] at h

theorem stable_made (hP : Stable P) (b : Bool) : Stable (Made b P) := by
  cases b
  · exact stable_lacks
  · exact hP

theorem stable_of_true (hP : Stable P) (b : Bool) : Stable fun s e n => b = true → P s e n :=
  fun h hs hspares hF hp hb => hP h hs hspares hF (hp hb)

end Environments

/-- A name that awaits its declaration belongs to the body alone. -/
theorem Scope.isFunctionWide_of_isLexical {f : Function} (h : f.declaresOnce = true)
    {d : Declaration} (hd : d ∈ (ofFunction f).declarations) (hl : d.isLexical = true) :
    d.isFunctionWide = false ∧ d.isKind .parameter = false := by
  have hnot : ∀ k, k ≠ .let → k ≠ .const → d.isKind k = false := fun k hlet hconst =>
    Bool.eq_false_iff.mpr fun hk => (isLexical_ofFunction h hd hl hk).elim hlet hconst
  refine ⟨?_, hnot _ (by decide) (by decide)⟩
  rw [Declaration.isFunctionWide, hnot .var (by decide) (by decide),
    hnot .function (by decide) (by decide), Bool.or_false]

namespace Runs

variable (e : EnvironmentId) (d : Declaration) (a : Agent)

theorem createParameter : Runs 0 (Slots e [d.name]) (a.environments.Lacks e d.name) a
    (Eval.createParameter e d)
    fun _ b => b.environments.Made (d.isKind .parameter) Environments.Awaits e d.name := by
  unfold Eval.createParameter
  cases d.isKind .parameter with
  | true => exact createMissing e d.name a
  | false =>
    refine (result ()).imp fun _ _ _ hg _ h => ?_
    rw [h.2]
    exact hg

theorem createFunctionWide :
    Runs 0 (Slots e [d.name]) (a.environments.Made (d.isKind .parameter) Environments.Binds e d.name) a
      (Eval.createFunctionWide e d)
      fun _ b => b.environments.Made (d.isFunctionWide || d.isKind .parameter) Environments.Binds e d.name := by
  unfold Eval.createFunctionWide
  cases d.isKind .parameter <;> cases d.isFunctionWide
  case false.true => exact createInitialized e d.name rfl rfl (Quiet.pure _) a
  all_goals
    refine (result ()).imp fun _ _ _ hg _ h => ?_
    rw [h.2]
    exact hg

theorem inheritVariable (parameters : EnvironmentId) :
    Runs 0 (Slots e [d.name]) (a.environments.Lacks e d.name) a
      (Eval.inheritVariable parameters e d)
      fun _ b => b.environments.Made d.isFunctionWide Environments.Binds e d.name := by
  unfold Eval.inheritVariable
  cases d.isFunctionWide with
  | true =>
    refine createInitialized e d.name rfl rfl ?_ a
    unfold Eval.startValue
    split
    · exact Law.readVariable (L := quiet _) _ _
    · exact .pure _
  | false =>
    refine (result ()).imp fun _ _ _ hg _ h => ?_
    rw [h.2]
    exact hg

theorem createLexical :
    Runs 0 (Slots e [d.name]) (d.isLexical = true → a.environments.Lacks e d.name) a
      (Eval.createLexical e d)
      fun _ b => d.isLexical = true → b.environments.Awaits e d.name := by
  unfold Eval.createLexical Declaration.isLexical
  cases d.isKind .const <;> cases d.isKind .let
  case false.false => exact (result ()).imp fun _ _ _ _ _ _ h => by cases h
  all_goals
    exact ((createVariable e d.name rfl rfl).given fun _ _ hg => hg rfl).imp fun _ _ _ _ _ h _ => h

/-- A declared function is assigned to its name. -/
theorem assignFunction (f : Function) :
    Runs 0 (Slots e [f.name.getD ""]) (a.environments.Binds e (f.name.getD "")) a
      (Eval.assignFunction e f) fun _ b => b.environments.Binds e (f.name.getD "") := by
  have hbinds : ∀ {p : Eval Unit}, Runs 0 (Slots e [f.name.getD ""])
      (a.environments.Binds e (f.name.getD "")) a p (fun _ _ => True) →
      Runs 0 (Slots e [f.name.getD ""]) (a.environments.Binds e (f.name.getD "")) a p
        fun _ b => b.environments.Binds e (f.name.getD "") := fun hp =>
    hp.imp fun _ _ hs hg hgrows _ => hgrows.lawful.binds hs hg
  refine hbinds ?_
  unfold Eval.assignFunction
  cases f.name with
  | none => exact (Quiet.pure _).anywhere.given fun _ _ _ => trivial
  | some name =>
    refine (Quiet.closure f e _).frame.bind fun v b _ => (Runs.writeVariable e name v false).given ?_
    rintro - - ⟨hbinds, -, hs, hgrows⟩ -
    exact hgrows.lawful.binds hs hbinds

/-- The environment for the body has the names that belong to the whole function, and not yet those
that await a declaration. -/
theorem bodyEnvironment (f : Function) :
    Runs 0 (fun i _ => i = e)
      (∀ d ∈ (Scope.ofFunction f).declarations,
        a.environments.Made (d.isKind .parameter) Environments.Binds e d.name) a
      (Eval.bodyEnvironment f (Scope.ofFunction f) e) fun i b =>
        (i = e ∨ a.environments.get? i = none) ∧ ∀ d ∈ (Scope.ofFunction f).declarations,
          (d.isFunctionWide = true → b.environments.Binds i d.name) ∧
          (d.isFunctionWide = false → d.isKind .parameter = false →
            b.environments.Lacks i d.name) := by
  unfold Eval.bodyEnvironment
  -- A second environment inherits the names of the first; without one, only what the parameters lack
  -- is created.
  split
  · refine Runs.new fun i b => ?_
    have hnames := Runs.forM (·.name) (fun _ => Environments.stable_lacks)
      (fun d => Environments.stable_made Environments.stable_binds d.isFunctionWide) (e := i)
      (l := (Scope.ofFunction f).declarations) (fun d _ a => Runs.inheritVariable i d a e) b
    refine (hnames.weaken (Nat.le_refl 0) fun _ _ hg => ⟨⟨Scope.nodup_ofFunction f, ?_⟩, ?_⟩).bind
      fun _ c _ => (result i).imp fun _ _ _ hg _ hi => ?_
    · exact fun _ _ => hg.2.2 _
    · exact fun _ _ _ hF => .inl hF.1
    · obtain ⟨rfl, rfl⟩ := hi
      exact ⟨.inr hg.1.2.1, fun d hd => ⟨(hg.2.2.2 d hd).of_true, fun hw _ => (hg.2.2.2 d hd).of_false hw⟩⟩
  · have hnames := Runs.forM (·.name)
      (fun d => Environments.stable_made Environments.stable_binds (d.isKind .parameter))
      (fun d => Environments.stable_made Environments.stable_binds
        (d.isFunctionWide || d.isKind .parameter))
      (e := e) (l := (Scope.ofFunction f).declarations) (fun d _ a => Runs.createFunctionWide e d a) a
    refine (hnames.weaken (Nat.le_refl 0) fun _ _ hg => ⟨⟨Scope.nodup_ofFunction f, hg⟩, ?_⟩).bind
      fun _ c _ => (result e).imp fun _ _ _ hg _ hi => ?_
    · exact fun _ _ _ hF => hF.1
    · obtain ⟨rfl, rfl⟩ := hi
      refine ⟨.inl rfl, fun d hd => ?_⟩
      have hmade := hg.2.2.2 d hd
      exact ⟨fun hw => hmade.of_true (by rw [hw, Bool.true_or]),
        fun hw hk => hmade.of_false (by rw [hw, hk, Bool.or_false])⟩

/-- The names that the body declares are there, and the functions have been assigned to theirs. -/
theorem bodyNames (f : Function) :
    Runs 1 (fun i _ => i = e)
      (f.declaresOnce = true ∧ ∀ d ∈ (Scope.ofFunction f).declarations,
        (d.isFunctionWide = true → a.environments.Binds e d.name) ∧
        (d.isFunctionWide = false → d.isKind .parameter = false →
          a.environments.Lacks e d.name)) a (do
      Eval.setEnvironment e
      (Scope.ofFunction f).declarations.forM (Eval.createLexical e)
      (Scope.ofFunction f).functions.forM (Eval.assignFunction e))
      fun _ b => b.places.head? = some e ∧
        ∀ n ∈ lexicalNames f.body.statements, b.environments.Awaits e n := by
  have hnamed := Scope.hasNamedFunctions_ofFunction f
  have hnames := fun b => Runs.forM (·.name)
    (fun d => Environments.stable_of_true Environments.stable_lacks d.isLexical)
    (fun d => Environments.stable_of_true Environments.stable_awaits d.isLexical) (e := e)
    (l := (Scope.ofFunction f).declarations) (fun d _ a => Runs.createLexical e d a) b
  have hfunctions := fun b => Runs.forM (fun f => f.name.getD "")
    (fun _ => Environments.stable_binds) (fun _ => Environments.stable_binds) (e := e)
    (l := (Scope.ofFunction f).functions) (fun f _ a => Runs.assignFunction e a f) b
  -- The declarations are made first, so every function that is assigned has its name.
  have hbody : ∀ b, Runs 0 (fun i _ => i = e)
      (f.declaresOnce = true ∧ ∀ d ∈ (Scope.ofFunction f).declarations,
        (d.isFunctionWide = true → b.environments.Binds e d.name) ∧
        (d.isLexical = true → b.environments.Lacks e d.name)) b (do
      (Scope.ofFunction f).declarations.forM (Eval.createLexical e)
      (Scope.ofFunction f).functions.forM (Eval.assignFunction e))
      fun _ c => ∀ n ∈ lexicalNames f.body.statements, c.environments.Awaits e n := by
    intro b
    refine ((hnames b).weaken (Nat.le_refl 0) fun _ _ hg => ⟨⟨Scope.nodup_ofFunction f, ?_⟩, ?_⟩).bind
      fun _ c _ => ((hfunctions c).framed.weaken (Nat.le_refl 0) ?_).imp ?_
    · exact fun d hd => (hg.2 d hd).2
    · exact fun _ _ _ hF => hF.1
    · rintro - - ⟨⟨-, hmade⟩, hgrows, hs, -⟩
      refine ⟨⟨hnamed.nodup_names, fun g hg => ?_⟩, fun _ _ _ hF _ => hF.1⟩
      obtain ⟨n, -, hn⟩ := hnamed.named g hg
      obtain ⟨d, hd, rfl, hk⟩ := (Scope.isSettled_ofFunction f).functions g hg n hn
      rw [hn, Option.getD_some]
      refine hgrows.lawful.binds hs ((hmade d hd).1 ?_)
      rw [Declaration.isFunctionWide, hk, Bool.or_true]
    · rintro _ x - ⟨⟨honce, -⟩, -, -, hawaits⟩ - ⟨hs, hgrows, -⟩ n hn
      obtain ⟨t, ht, htn⟩ := List.mem_flatMap.mp hn
      -- A name declared in the body is still waiting at the end, since a lexical name is no
      -- function's.
      have hlexical : ∃ d ∈ (Scope.ofFunction f).declarations, d.name = n ∧ d.isLexical = true := by
        rcases Scope.hasKind_lexical ht htn with ⟨d, hd, hname, hk⟩ | ⟨d, hd, hname, hk⟩
        all_goals exact ⟨d, hd, hname, by rw [Declaration.isLexical, hk]; simp⟩
      obtain ⟨d, hd, rfl, hl⟩ := hlexical
      refine Environments.stable_awaits hgrows.lawful hs hgrows.spares (fun hF => ?_) (hawaits d hd hl)
      have honce := (Function.declaresOnce_iff.mp honce).2.2.1
      exact (namesOnce_iff.mp honce).2 _ hn (hnamed.mem_of_mem_names hF.2)
  refine (Runs.setEnvironment e).bind fun _ b _ =>
    ((hbody b).framed.weaken (Nat.zero_le 1) ?_).imp ?_
  · rintro - - ⟨⟨honce, hmade⟩, -, -, heq, -⟩
    rw [heq]
    refine ⟨⟨honce, fun d hd => ⟨(hmade d hd).1, fun hl => ?_⟩⟩, fun _ _ _ hF _ => hF⟩
    obtain ⟨hwide, hparameter⟩ := Scope.isFunctionWide_of_isLexical honce hd hl
    exact (hmade d hd).2 hwide hparameter
  · rintro _ c - ⟨-, -, -, -, hplace⟩ - ⟨-, hgrows, hawaits⟩
    have hplaces : c.places = b.places := hgrows.drop
    exact ⟨hplaces ▸ hplace, hawaits⟩

end Runs

namespace Machine.IsLawful

variable {m : Machine} (h : m.IsLawful) (f : Function) (args : List Value) (e : EnvironmentId) (a : Agent)

include h

/-- **The parameters of a function get their values.** -/
theorem parameters :
    Runs 0 (fun i _ => i = e) (f.parameterNames.Nodup ∧ ∀ n, a.environments.Lacks e n) a (do
      (Scope.ofFunction f).declarations.forM (createParameter e)
      m.bindRest e f.rest (← m.bindParameters e f.parameters args))
      fun _ b => ∀ d ∈ (Scope.ofFunction f).declarations,
        b.environments.Made (d.isKind .parameter) Environments.Binds e d.name := by
  have hnames := Runs.forM (·.name) (fun _ => Environments.stable_lacks)
    (fun d => Environments.stable_made Environments.stable_awaits (d.isKind .parameter)) (e := e)
    (l := (Scope.ofFunction f).declarations) (fun d _ a => Runs.createParameter e d a) a
  have hvalues : Fills (certain e) 0 f.parameterNames.Nodup f.parameterNames (do
      m.bindRest e f.rest (← m.bindParameters e f.parameters args)) :=
    .bind_append (h.bindParameters e f.parameters args) fun left => h.bindRest e f.rest left
  refine (hnames.weaken (Nat.le_refl 0) fun _ _ hg => ⟨⟨Scope.nodup_ofFunction f, ?_⟩, ?_⟩).bind
    fun _ b _ => ((hvalues b).framed.weaken (Nat.le_refl 0) ?_).imp ?_
  · exact fun _ _ => hg.2 _
  · exact fun _ _ _ hF => hF.1
  · rintro - - ⟨⟨hnodup, -⟩, -, -, hmade⟩
    refine ⟨⟨hnodup, fun n hn => ⟨e, rfl, ?_⟩⟩, fun _ _ _ hF _ => hF.1⟩
    obtain ⟨d, hd, rfl, hk⟩ := (Scope.hasKind_parameter_ofFunction f n).mpr hn
    have hawaits := hmade d hd
    rwa [hk] at hawaits
  · rintro _ c - ⟨-, -, -, hmade⟩ - ⟨hs, hgrows, -⟩ d hd
    have hd' := hmade d hd
    -- Only parameters are bound meanwhile: what is no parameter is still missing.
    cases hk : d.isKind .parameter <;> rw [hk] at hd'
    · refine Environments.stable_lacks hgrows.lawful hs hgrows.spares (fun hF => ?_) hd'
      have hkind := (Scope.hasKind_parameter_ofFunction f d.name).mpr hF.2
      rw [Scope.isKind_of_hasKind (Scope.nodup_ofFunction f) hd hkind] at hk
      cases hk
    · exact hgrows.lawful.binds hs (Environments.Awaits.binds hd')

/-- **The names of a function**: those that its body declares await their declarations. -/
theorem enter :
    Runs 1 (fun i _ => i = e)
      (f.declaresOnce = true ∧ a.places.head? = some e ∧ ∀ n, a.environments.Lacks e n) a
      (m.enter f args) fun _ b => ∃ i, b.places.head? = some i
        ∧ (i = e ∨ a.environments.get? i = none)
        ∧ ∀ n ∈ lexicalNames f.body.statements, b.environments.Awaits i n := by
  have henter : m.enter f args = scopeAt f.span (Scope.ofFunction f) >>= fun scope =>
      environment >>= fun e => (do
        scope.declarations.forM (createParameter e)
        m.bindRest e f.rest (← m.bindParameters e f.parameters args)) >>= fun _ =>
      bodyEnvironment f scope e >>= fun i => (do
        setEnvironment i
        scope.declarations.forM (createLexical i)
        scope.functions.forM (assignFunction i)) := by
    simp only [Machine.enter, bind_assoc]
  rw [henter]
  refine Runs.scopeAt_bind (Runs.environment.bind fun j b _ => ?_)
  -- The environment is the one that the call was opened with.
  have hj : ∀ {x y : Prop}, (f.declaresOnce = true ∧ a.places.head? = some e ∧ x) ∧ y ∧
      a.environments.IsSound ∧ b = a ∧ a.places.head? = some j → b = a ∧ j = e := by
    rintro x y ⟨⟨-, he, -⟩, -, -, rfl, hj⟩
    exact ⟨rfl, Option.some_inj.mp (hj.symm.trans he)⟩
  refine ((h.parameters f args j b).framed.weaken (Nat.zero_le 1) ?_).bind fun _ c _ =>
    ((Runs.bodyEnvironment j c f).framed.weaken (Nat.zero_le 1) ?_).bind fun i d _ =>
      ((Runs.bodyNames i d f).weaken (Nat.le_refl 1) ?_).imp ?_
  · intro _ _ hg
    obtain ⟨rfl, rfl⟩ := hj hg
    refine ⟨⟨(Function.declaresOnce_iff.mp hg.1.1).1, hg.1.2.2⟩, fun _ _ _ hF _ => hF⟩
  · rintro - - ⟨hg, -, -, -, -, hmade⟩
    obtain ⟨rfl, rfl⟩ := hj hg
    exact ⟨hmade, fun _ _ _ hF _ _ => hF⟩
  · rintro - - ⟨⟨hg, -⟩, -, -, -, -, hi, hmade⟩
    obtain ⟨rfl, rfl⟩ := hj hg
    refine ⟨⟨hg.1.1, hmade⟩, ?_⟩
    rintro _ n - rfl hc - -
    refine hi.resolve_right fun hvacant => ?_
    rw [hvacant] at hc
    cases hc
  · rintro _ x - ⟨⟨hg, -, -, hs, hgrows, -⟩, -, -, -, -, hi, -⟩ - ⟨hplace, hawaits⟩
    obtain ⟨rfl, rfl⟩ := hj hg
    refine ⟨i, hplace, hi.imp_right fun hvacant => ?_, hawaits⟩
    refine Option.not_isSome_iff_eq_none.mp fun hthere => ?_
    have hthere := hgrows.lawful.isSome_get? hs hthere
    rw [hvacant] at hthere
    cases hthere

/-- **The body of a function** gives values to the names that it declares. -/
theorem body : Fills innermost 0 (f.declaresOnce = true) (lexicalNames f.body.statements)
    (m.body f) := by
  unfold Machine.body
  have honce := fun hg : f.declaresOnce = true => Function.declaresOnce_iff.mp hg
  cases hbody : f.body with
  | absent => exact .of_quiet (.pure _) _
  | concise e => exact .of_quiet (Law.expression (h.obeys _) e) _
  | block span ss =>
    rw [hbody] at honce
    refine ((h.statementsFrom ss none).given fun hg => ?_).bind_left fun _ => .pure _
    exact ⟨(honce hg).2.2.2, (namesOnce_iff.mp (honce hg).2.2.1).1⟩

/-- **A call** gives values to names of its own only. -/
theorem callClosure (c : Closure) :
    Quiet 0 (c.code.declaresOnce = true) (m.callClosure c args) := by
  refine Quiet.bind (Law.recordCall (L := quiet _) c) fun _ => ?_
  refine Quiet.bind (Law.report (L := quiet _) _) fun _ a => Runs.new fun e b => ?_
  refine .inContext (Q := fun _ _ => True) ?_
  refine (((h.enter c.code args e _).weaken (Nat.le_refl 1) ?_).bind fun _ x _ =>
    ((h.body c.code x).weaken (Nat.zero_le 1) ?_))
  · rintro - - ⟨honce, -, hlacks⟩
    exact ⟨⟨honce, rfl, hlacks⟩, fun _ _ _ hF => .inl hF⟩
  · rintro - - ⟨⟨honce, -, -⟩, -, -, i, hplace, hi, hawaits⟩
    refine ⟨⟨honce, fun n hn => ⟨i, hplace, hawaits n hn⟩⟩, ?_⟩
    rintro j n hj ⟨hF, -⟩ hthere
    cases hplace.symm.trans hF
    refine .inl (hi.resolve_right fun hvacant => ?_)
    rw [hvacant] at hthere
    cases hthere

end Machine.IsLawful

/-- **A call of a function that there is** gives values to names of its own only. -/
theorem Machine.IsLawful.callFunction {m : Machine} (h : m.IsLawful) (f : ObjectId) (this : Value)
    (args : List Value) : Quiet 0 True (m.callFunction f this args) := by
  intro a
  unfold Machine.callFunction
  refine (Runs.look (p := Eval.object f) rfl).bind fun o b ho => ?_
  cases ho
  cases hkind : (a.object f).kind with
  | closure c =>
    refine (h.callClosure args c a).weaken (Nat.le_refl 0) fun ho _ _ => ⟨ho f c.code ?_, nofun⟩
    rw [Object.code?, hkind]
  | builtin g => exact (Quiet.anywhere (Law.callBuiltin (h.obeys True) this args g)).given fun _ _ _ => trivial
  | _ => exact (Quiet.throw _).anywhere.given fun _ _ _ => trivial

/-- **Every machine is lawful.** -/
theorem Machine.isLawful_ofDepth (n : Nat) : (Machine.ofDepth n).IsLawful := by
  induction n with
  | zero =>
    exact ⟨fun _ _ _ => Quiet.throw _, ⟨Quiet.writeVariable, fun _ _ => .throw _, fun _ _ => .throw _⟩,
      fun p v e => .of_quiet (.throw _) _, fun s => .of_quiet (.throw _) _⟩
  | succ n ih =>
    have hassigns : (quiet True).Assigns (.ofDepth (n + 1)) :=
      Law.assigns_step (ih.obeys True) ih.assigns fun _ => rfl
    refine ⟨fun α t ht => ?_, hassigns, fun p v e => ih.bindPattern v e p, fun s => ih.evaluateStatement s⟩
    exact Law.step (ih.obeys True) ih.assigns (fun f this args => ih.callFunction f this args) ht

end Scriptlet
