import Scriptlet.Proofs.BodyNames
import Scriptlet.Proofs.Destructuring
import Scriptlet.Proofs.Securing
import Scriptlet.Proofs.VariableHistories

/-!
# Entering a function

A call makes an environment for the parameters.  If they are names and nothing more, all names of the
function are made there.  Otherwise defaults and patterns are evaluated while the parameters get their
values, and the names of the body are made in a second environment, inside the first one, so that what
the parameters have made does not see them.

## Main definitions

* `Machine.Receives` — how parameters get their values from left to right.
* `Machine.Received` — what is so when they have them.
* `Function.EntersPlain`, `Function.EntersNested` — the names of a function in one environment or two.

## Main results

* `Machine.receives_of_ok` — **defaults are evaluated from left to right, while later parameters await
  their values**.
* `entersPlain_of_ok`, `entersNested_of_ok` — **a function is entered as its parameters say**.
* `Function.EntersNested.unseen` — **what is made with the parameters does not see the names of the
  body**.
* `Function.EntersNested.shared` — what the body does not declare again, it shares with the parameters.
-/

namespace Scriptlet

open Eval

variable {a b : Agent} {i : EnvironmentId}

/-! ### Parameters that are names -/

/-- Arguments are given to names. -/
theorem bindNames_ok {n : Nat} {bs : List Binding} {args left : List Value}
    (hbs : ∀ x ∈ bs, ∃ name, x = ⟨.identifier name, none⟩) (hnodup : (bindingNames bs).Nodup)
    (h : (Machine.ofDepth n).bindParameters i bs args a = .ok left b) :
    a.Touches i (bindingNames bs) b ∧ ∀ k name, bs[k]? = some ⟨.identifier name, none⟩ →
      ∃ v, a.environments.find? i name = some v ∧
        b.environments.find? i name = some { v with value := some (args.getD k .undefined) } := by
  induction bs generalizing a args with
  | nil =>
    cases h
    exact ⟨.refl _ _ _, fun _ _ hk => by cases hk⟩
  | cons x bs ih =>
    obtain ⟨name, rfl⟩ := hbs x List.mem_cons_self
    have hnames : bindingNames (⟨.identifier name, none⟩ :: bs) = name :: bindingNames bs := rfl
    rw [hnames] at hnodup ⊢
    obtain ⟨hfresh, hnodup⟩ := List.nodup_cons.mp hnodup
    obtain ⟨value, m, hvalue, hrest⟩ := bind_eq_ok h
    cases hvalue
    obtain ⟨u, m, hm, hmore⟩ := bind_eq_ok hrest
    cases n with
    | zero => cases hm
    | succ n =>
      obtain ⟨htouches, v, hv, hfind⟩ :=
        initializeVariable_ok (show initializeVariable i name _ a = _ from hm)
      -- The later parameters have other names, so that this one keeps its value.
      obtain ⟨htouches', hall⟩ := ih (fun x hx => hbs x (List.mem_cons_of_mem _ hx)) hnodup hmore
      refine ⟨(htouches.mono (by simp)).trans (htouches'.mono (by simp)), fun k n' hk => ?_⟩
      cases k with
      | zero =>
        cases hk
        refine ⟨v, hv, (htouches'.find _ hfresh).trans (hfind.trans ?_)⟩
        rw [List.headD_eq_head?_getD, List.getD_eq_getElem?_getD, List.head?_eq_getElem?]
      | succ k =>
        obtain ⟨w, hw, hfind'⟩ := hall k n' hk
        have hne : n' ∉ [name] := fun hmem => by
          rw [List.mem_singleton] at hmem
          subst hmem
          refine hfresh (List.mem_flatMap.mpr ⟨_, List.mem_of_getElem? hk, ?_⟩)
          exact List.mem_singleton.mpr rfl
        refine ⟨w, (htouches.find _ hne).symm.trans hw, ?_⟩
        rw [hfind']
        cases args <;> rfl

/-! ### Parameters that are more than names -/

/-- **How parameters get their values**: from left to right, each from its argument, or from its default
if the argument is undefined.  A default is evaluated in the environment of the parameters, while the
names of its own parameter and the later ones await their values. -/
inductive Machine.Receives (m : Machine) (e : EnvironmentId) (later : List String) :
    List Binding → List Value → List Value → Agent → Agent → Prop
  | none {args a} : Receives m e later [] args args a a
  | argument {x xs args left a b c}
      (h : x.initializer = none ∨ (args.headD .undefined).isUndefined = false)
      (hbind : m.run (.bind x.pattern (args.headD .undefined) (some e)) a = .ok () b)
      (more : Receives m e later xs args.tail left b c) : Receives m e later (x :: xs) args left a c
  | default {x xs args left a b c d value expression} (h : x.initializer = some expression)
      (hundefined : (args.headD .undefined).isUndefined = true) (here : a.places.head? = some e)
      (hawaits : ∀ n ∈ bindingNames (x :: xs) ++ later, a.environments.Awaits e n)
      (hvalue : m.namedBy expression x.pattern.name? a = .ok value b)
      (hbind : m.run (.bind x.pattern value (some e)) b = .ok () c)
      (more : Receives m e later xs args.tail left c d) : Receives m e later (x :: xs) args left a d

theorem Fills.isOrderly {α : Type} {p : Eval α} {E : Whereabouts} {k : Nat} {G : Prop} {x : α}
    (hp : Fills E k G ns p) (h : p a = .ok x b) (hb : b.IsOrderly) : a.IsOrderly :=
  (hp a).kept (by rwa [after_ok h])

/-- What a lawful computation that gives values to some names leaves of the others. -/
theorem Fills.awaits {α : Type} {p : Eval α} {e : EnvironmentId} {x : α} {names : List String}
    (hp : Fills (certain e) 0 ms.Nodup ms p) (h : p a = .ok x b) (hb : b.IsOrderly)
    (ha : a.environments.IsSound) (hnodup : (ms ++ names).Nodup)
    (hawaits : ∀ n ∈ ms ++ names, a.environments.Awaits e n) :
    b.environments.IsSound ∧ b.places = a.places ∧ ∀ n ∈ names, b.environments.Awaits e n := by
  obtain ⟨hms, -, hdisjoint⟩ := List.nodup_append.mp hnodup
  rw [← after_ok h] at hb
  have hgrows := (hp a).grows hb ha
    ⟨hms, fun n hn => ⟨e, rfl, hawaits n (List.mem_append_left _ hn)⟩⟩
  rw [after_ok h] at hgrows
  refine ⟨hgrows.lawful.isSound ha, hgrows.drop, fun n hn => ?_⟩
  refine Environments.stable_awaits hgrows.lawful ha hgrows.spares (fun hF => ?_)
    (hawaits n (List.mem_append_right _ hn))
  exact hdisjoint n hF.2 n hn rfl

theorem Machine.receives_of_ok {m : Machine} (hm : m.IsLawful) {e : EnvironmentId}
    {bs : List Binding} {args left : List Value} {later : List String} (ha : a.environments.IsSound)
    (hb : b.IsOrderly) (here : a.places.head? = some e) (hnodup : (bindingNames bs ++ later).Nodup)
    (hawaits : ∀ n ∈ bindingNames bs ++ later, a.environments.Awaits e n)
    (h : m.bindParameters e bs args a = .ok left b) :
    m.Receives e later bs args left a b ∧ b.environments.IsSound ∧
      ∀ n ∈ later, b.environments.Awaits e n := by
  induction bs generalizing a args with
  | nil =>
    cases h
    exact ⟨.none, ha, hawaits⟩
  | cons x xs ih =>
    have hnames : bindingNames (x :: xs) ++ later = x.pattern.names ++ (bindingNames xs ++ later) := by
      simp [bindingNames]
    obtain ⟨value, c, hvalue, hrest⟩ := bind_eq_ok h
    obtain ⟨u, d, hbind, hmore⟩ := bind_eq_ok hrest
    -- Functions stay, so what is left behind in order was in order at every step before.
    have hd := (hm.bindParameters e xs args.tail).isOrderly hmore hb
    have hc := (hm.bind x.pattern value e).isOrderly hbind hd
    obtain ⟨hcs, hplaces, hcawaits⟩ := Fills.awaits
      (.given (.of_quiet (E := certain e) (hm.parameterValue True x _) []) fun _ => trivial) hvalue hc ha
      (by simpa using hnodup) (by simpa using hawaits)
    rw [hnames] at hnodup hcawaits
    obtain ⟨hds, hplaces', hdawaits⟩ :=
      Fills.awaits (hm.bind x.pattern value e) hbind hd hcs hnodup hcawaits
    obtain ⟨hmore, hbs, hlater⟩ := ih hds (by rw [hplaces', hplaces, here])
      (List.nodup_append.mp hnodup).2.1 hdawaits hmore
    refine ⟨?_, hbs, hlater⟩
    unfold Machine.parameterValue at hvalue
    cases hx : x.initializer with
    | none =>
      rw [hx] at hvalue
      cases hvalue
      exact .argument (.inl hx) hbind hmore
    | some expression =>
      rw [hx] at hvalue
      dsimp only at hvalue
      split at hvalue
      · next hundefined => exact .default hx hundefined here hawaits hvalue hbind hmore
      · next hdefined =>
        cases hvalue
        exact .argument (.inr (Bool.eq_false_iff.mpr hdefined)) hbind hmore

/-- **The parameters have got their values** in the environment `e`: its names are those of the
parameters, they had no values at first, and got them from left to right. -/
structure Machine.Received (m : Machine) (f : Function) (e : EnvironmentId) (args : List Value)
    (a b : Agent) : Prop where
  contexts : b.contexts = a.contexts
  stay : a.environments.Stay b.environments
  names : ∀ n, (b.environments.find? e n).isSome ↔ n ∈ f.parameterNames
  received : ∃ start left last, start.contexts = a.contexts ∧
    (∀ n, start.environments.find? e n = if n ∈ f.parameterNames then some .changing else none) ∧
    m.Receives e (restNames f.rest) f.parameters args left start last ∧
    (∀ n ∈ restNames f.rest, last.environments.Awaits e n) ∧
    m.bindRest e f.rest left last = .ok () b

section Entering

variable {f : Function} {o : Context} {rest : List Context} {home : Option EnvironmentId} {u : Unit}
  {args : List Value} {n : Nat}

/-- The names of the parameters are created. -/
theorem createParameters_ok (hnew : ∀ n, a.environments.find? i n = none)
    (h : (Scope.ofFunction f).declarations.forM (createParameter i) a = .ok u b) :
    a.Touches i (Scope.ofFunction f).names b ∧
      ∀ n, b.environments.find? i n = if n ∈ f.parameterNames then some .changing else none := by
  obtain ⟨htouches, -, hall⟩ := forM_ok_of_eq (I := fun _ => True)
    (G := fun d v => if d.isKind .parameter then v <|> some .changing else v) (Scope.nodup_ofFunction f)
    (fun d hd a u b _ hstep => by
      obtain ⟨htouches, hfind⟩ := createParameter_ok hstep
      exact ⟨htouches, trivial, hfind⟩) trivial h
  refine ⟨htouches, fun n => ?_⟩
  by_cases hn : n ∈ (Scope.ofFunction f).names
  · obtain ⟨d, hd, rfl⟩ := List.mem_map.mp hn
    rw [hall d hd, hnew]
    cases hk : d.isKind .parameter with
    | true => rw [if_pos rfl, if_pos ((isParameter_iff hd).mp hk)]; rfl
    | false =>
      rw [if_neg Bool.false_ne_true, if_neg fun h => ?_]
      rw [(isParameter_iff hd).mpr h] at hk
      cases hk
  · rw [htouches.find n hn, hnew, if_neg fun h => hn ?_]
    obtain ⟨d, hd, rfl, -⟩ := (Scope.hasKind_parameter_ofFunction f n).mpr h
    exact List.mem_map_of_mem hd

theorem isLawful_bindAll (n : Nat) (e : EnvironmentId) (f : Function) (args : List Value) :
    Eval.IsLawful (do
      (Machine.ofDepth n).bindRest e f.rest
        (← (Machine.ofDepth n).bindParameters e f.parameters args) : Eval Unit) := fun L => by
  have hbind := fun p v => L.ofDepth n (.bind p v (some e))
  exact L.bind (Law.Fills.bindParameters (GeneralLaw.obeys (L.ofDepth n)) hbind _ _) fun left =>
    Law.Fills.bindRest hbind _ _

/-- Giving values to the parameters moves no environment and adds no name to theirs. -/
theorem receive_stays {e : EnvironmentId} (ha : a.environments.IsTidy)
    (hnew : a.environments.get? e = some ⟨home, []⟩)
    (hreceive : (Machine.ofDepth n).receive e f args (Scope.ofFunction f) a = .ok u b) :
    b.contexts = a.contexts ∧ a.environments.Stay b.environments ∧ b.environments.IsTidy ∧
      ∀ n, (b.environments.find? e n).isSome ↔ n ∈ f.parameterNames := by
  obtain ⟨v, start, hstart, h⟩ := bind_eq_ok hreceive
  have hp := isLawful_bindAll n e f args
  obtain ⟨htouches, hfind⟩ := createParameters_ok (fun n => by
    rw [Environments.find?_of_get? hnew]
    rfl) hstart
  obtain ⟨hstartTidy, hmade⟩ : start.environments.IsTidy ∧ a.environments.Stay start.environments := by
    have := Law.forM (L := linking.toLaw) (fun d => (Linking.fills e).createParameter d)
      (Scope.ofFunction f).declarations a
    rw [after_ok hstart] at this
    exact this ha
  have hlinks := hp linking start
  have hnames := hp (naming e) start
  have hevolves : start.Evolves _ := hp evolution.toGeneralLaw start
  rw [after_ok h] at hlinks hnames hevolves
  obtain ⟨htidy, hstay⟩ := hlinks hstartTidy
  refine ⟨hevolves.contexts.trans htouches.contexts, hmade.trans hstay, htidy,
    fun n => ⟨fun hn => ?_, fun hn => ?_⟩⟩
  · -- No name is added to an environment that is there.
    obtain ⟨x, hx, -⟩ := hmade e _ hnew
    obtain ⟨x, y, hx, hy, hxy⟩ := (hnames x hstartTidy hx).names
    rw [Environments.find?_of_get? hy] at hn
    have hhas := hxy n hn
    rw [Environment.has, ← Environments.find?_of_get? hx, hfind] at hhas
    by_contra hnot
    rw [if_neg hnot] at hhas
    cases hhas
  · -- Parameters cannot be deleted.
    have hv := hfind n
    rw [if_pos hn] at hv
    obtain ⟨x, hx, hxv⟩ := Environments.get?_of_find? hv
    obtain ⟨y, hy, hxy⟩ := hstay e x hx
    obtain ⟨w, hw, -⟩ := hxy.lasting hxv rfl
    rw [Environments.find?_of_get? hy, hw]
    rfl

/-- **The parameters get their values** from left to right. -/
theorem received_of_ok (hf : f.declaresOnce = true) (hc : a.contexts = o :: rest)
    (ha : a.environments.IsSound) (hnew : a.environments.get? o.environment = some ⟨home, []⟩)
    (hb : b.IsOrderly)
    (hreceive : (Machine.ofDepth n).receive o.environment f args (Scope.ofFunction f) a = .ok u b) :
    (Machine.ofDepth n).Received f o.environment args a b := by
  have hm := Machine.isLawful_ofDepth n
  obtain ⟨hcontexts, hstay, -, hnames⟩ := receive_stays ha.tidy hnew hreceive
  obtain ⟨v, start, hstart, hvalues⟩ := bind_eq_ok hreceive
  obtain ⟨left, last, hlast, hend⟩ := bind_eq_ok hvalues
  generalize he : o.environment = e at hstart hlast hend hnew hnames ⊢
  have hempty : ∀ n, a.environments.find? e n = none := fun n => by
    rw [Environments.find?_of_get? hnew]
    rfl
  obtain ⟨htouches, hfind⟩ := createParameters_ok hempty hstart
  have hlastOrderly := (hm.bindRest e f.rest left).isOrderly hend hb
  have hstartOrderly := (hm.bindParameters e f.parameters args).isOrderly hlast hlastOrderly
  -- The names are made in their order, so that what comes after them may give them values.
  have hcreated : start.environments.IsSound := by
    have hgrows := (Runs.forM (·.name) (fun _ => Environments.stable_lacks)
      (fun d => Environments.stable_made Environments.stable_awaits (d.isKind .parameter)) (e := e)
      (l := (Scope.ofFunction f).declarations) (fun d _ a => Runs.createParameter e d a) a).grows
    rw [after_ok hstart] at hgrows
    refine (hgrows hstartOrderly ha ⟨Scope.nodup_ofFunction f, fun d _ => ?_⟩).lawful.isSound ha
    exact ⟨by rw [hnew]; rfl, hempty d.name⟩
  have here : start.places.head? = some e := by
    rw [Agent.places, htouches.contexts, hc, ← he]
    rfl
  have hawaits : ∀ n ∈ bindingNames f.parameters ++ restNames f.rest, start.environments.Awaits e n :=
    fun n hn => ⟨.changing, (hfind n).trans (if_pos (show n ∈ f.parameterNames from hn)), rfl⟩
  obtain ⟨hreceives, -, hlater⟩ := Machine.receives_of_ok hm hcreated hlastOrderly here
    (Function.declaresOnce_iff.mp hf).1 hawaits hlast
  exact ⟨hcontexts, hstay, hnames, start, left, last, htouches.contexts, hfind, hreceives, hlater, hend⟩

/-! ### All names -/

/-- A function is entered when its parameters get their values, and then its other names. -/
theorem Machine.enter_ok {m : Machine} {f : Function} {o : Context} {rest : List Context}
    {args : List Value} {u : Unit} (hc : a.contexts = o :: rest) (h : m.enter f args a = .ok u b) :
    ∃ v filled, m.receive o.environment f args (Scope.ofFunction f) a = .ok v filled ∧
      prepareBody o.environment f (Scope.ofFunction f) filled = .ok u b := by
  rw [Machine.enter_eq_receive] at h
  obtain ⟨s, a', hs, hnext⟩ := bind_eq_ok h
  obtain ⟨e, a'', he, hlast⟩ := bind_eq_ok hnext
  rcases scopeAt_apply f.span (Scope.ofFunction f) a with hscope | ⟨_, hscope⟩
  · cases hscope.symm.trans hs
    cases (environment_eq hc).symm.trans he
    exact bind_eq_ok hlast
  · cases hscope.symm.trans hs

/-- **A function whose parameters are names is entered** in the environment that its call has made.  The
parameters have the arguments, or else are undefined. -/
structure Function.EntersPlain (f : Function) (args : List Value) (o : Context) (a b : Agent) : Prop where
  contexts : b.contexts = a.contexts
  others : ∀ j, j ≠ o.environment → b.environments.get? j = a.environments.get? j
  outer : (b.environments.get? o.environment).map (·.outer)
    = (a.environments.get? o.environment).map (·.outer)
  parameters : ∀ (k : Nat) name, f.parameters[k]? = some ⟨.identifier name, none⟩ →
    ¬f.DeclaresInBody name .function →
    b.environments.find? o.environment name = some (.holding (args.getD k .undefined))
  starts : f.BodyStarts o.realm o.environment b
  only : ∀ n, (b.environments.find? o.environment n).isSome →
    n ∈ f.parameterNames ∨ n ∈ f.varNames ∨ ∃ k, f.DeclaresInBody n k

/-- **A function whose parameters are more than names is entered** in two environments: that of the
parameters, which its call has made, and one for the names of the body, which is made inside of it when
the parameters have their values.  A name of the body that is one of a parameter starts with its value,
unless it is one of a function. -/
structure Function.EntersNested (f : Function) (m : Machine) (args : List Value) (o : Context)
    (rest : List Context) (a b : Agent) (filled : Agent) (inner : EnvironmentId) : Prop where
  received : m.Received f o.environment args a filled
  fresh : filled.environments.get? inner = none
  contexts : b.contexts = { o with environment := inner } :: rest
  others : ∀ j, j ≠ inner → b.environments.get? j = filled.environments.get? j
  outer : (b.environments.get? inner).map (·.outer) = some (some o.environment)
  inherited : ∀ n ∈ f.varNames, n ∈ f.parameterNames → ¬f.DeclaresInBody n .function →
    ∃ value, (filled.environments.find? o.environment n).bind (·.value) = some value ∧
      b.environments.find? inner n = some (.holding value)
  starts : f.BodyStarts o.realm inner b
  only : ∀ n, (b.environments.find? inner n).isSome → n ∈ f.varNames ∨ ∃ k, f.DeclaresInBody n k

/-- Parameters that are no more than names have no defaults. -/
theorem Function.plain_of_not (hplain : f.hasParameterExpressions = false) :
    f.rest = none ∧ ∀ x ∈ f.parameters, ∃ name, x = ⟨.identifier name, none⟩ := by
  rw [Function.hasParameterExpressions, Bool.or_eq_false_iff] at hplain
  refine ⟨Option.isSome_eq_false_iff.mp hplain.1 |> Option.isNone_iff_eq_none.mp, fun x hx => ?_⟩
  have hx' := (List.any_eq_false.mp hplain.2) x hx
  obtain ⟨p, e⟩ := x
  cases e with
  | some e => simp at hx'
  | none =>
    cases p with
    | identifier name => exact ⟨name, rfl⟩
    | _ => simp at hx'

/-- The names of the whole function are made where the parameters are, which are names. -/
theorem plainNames_ok (hf : f.declaresOnce = true) (hplain : f.hasParameterExpressions = false)
    (hnew : ∀ n, a.environments.find? i n = none) {start last wide : Agent} {left : List Value} {v : Unit}
    (hstart : (Scope.ofFunction f).declarations.forM (createParameter i) a = .ok u start)
    (hlast : (Machine.ofDepth n).bindParameters i f.parameters args start = .ok left last)
    (hwide : (Scope.ofFunction f).declarations.forM (createFunctionWide i) last = .ok v wide) :
    a.Touches i (Scope.ofFunction f).names wide ∧
      (∀ (k : Nat) name, f.parameters[k]? = some ⟨.identifier name, none⟩ →
        name ∈ f.parameterNames ∧
          wide.environments.find? i name = some (.holding (args.getD k .undefined))) ∧
      (∀ d ∈ (Scope.ofFunction f).declarations, d.isFunctionWide = true →
        d.isKind .parameter = false → wide.environments.find? i d.name = some (.holding .undefined)) ∧
      ∀ d ∈ (Scope.ofFunction f).declarations, d.isFunctionWide = true →
        ∃ value, wide.environments.find? i d.name = some (.holding value) := by
  obtain ⟨hrest, hnames⟩ := Function.plain_of_not hplain
  have hparameters : bindingNames f.parameters = f.parameterNames := by
    unfold Function.parameterNames
    rw [hrest]
    exact (List.append_nil _).symm
  obtain ⟨htouches, hcreated⟩ := createParameters_ok hnew hstart
  obtain ⟨htouches', hvalues⟩ := bindNames_ok hnames
    (hparameters ▸ (Function.declaresOnce_iff.mp hf).1) hlast
  obtain ⟨htouches'', -, hwides⟩ := forM_ok_of_eq (I := fun _ => True)
    (G := fun d v => if d.isFunctionWide && !d.isKind .parameter then some (.holding .undefined) else v)
    (Scope.nodup_ofFunction f) (fun d hd a u b _ hstep => by
      obtain ⟨htouches, hfind⟩ := createFunctionWide_ok hstep
      exact ⟨htouches, trivial, hfind⟩) trivial hwide
  -- Parameters have got their values before the names of the whole function are made.
  have hsub : bindingNames f.parameters ⊆ (Scope.ofFunction f).names := fun n hn => by
    obtain ⟨d, hd, rfl, -⟩ := (Scope.hasKind_parameter_ofFunction f n).mpr (hparameters ▸ hn)
    exact List.mem_map_of_mem hd
  have hparameter : ∀ (k : Nat) name, f.parameters[k]? = some ⟨.identifier name, none⟩ →
      name ∈ f.parameterNames ∧
        wide.environments.find? i name = some (.holding (args.getD k .undefined)) := by
    intro k name hk
    obtain ⟨v, hv, hfind⟩ := hvalues k name hk
    have hmem : name ∈ f.parameterNames := by
      rw [← hparameters]
      exact List.mem_flatMap.mpr ⟨_, List.mem_of_getElem? hk, List.mem_singleton.mpr rfl⟩
    rw [hcreated, if_pos hmem] at hv
    cases hv
    obtain ⟨d, hd, rfl, hdk⟩ := (Scope.hasKind_parameter_ofFunction f name).mpr hmem
    rw [hwides d hd, hdk, Bool.not_true, Bool.and_false, if_neg Bool.false_ne_true, hfind]
    exact ⟨hmem, rfl⟩
  have hundefined : ∀ d ∈ (Scope.ofFunction f).declarations, d.isFunctionWide = true →
      d.isKind .parameter = false → wide.environments.find? i d.name = some (.holding .undefined) :=
    fun d hd hw hk => by rw [hwides d hd, hw, hk]; rfl
  refine ⟨(htouches.trans (htouches'.mono hsub)).trans htouches'', hparameter, hundefined,
    fun d hd hw => ?_⟩
  cases hdk : d.isKind .parameter with
  | false => exact ⟨.undefined, hundefined d hd hw hdk⟩
  | true =>
    have hmem := (isParameter_iff hd).mp hdk
    rw [← hparameters] at hmem
    obtain ⟨x, hx, hname⟩ := List.mem_flatMap.mp hmem
    obtain ⟨name, rfl⟩ := hnames x hx
    rw [List.mem_singleton.mp hname]
    obtain ⟨k, hk⟩ := List.mem_iff_getElem?.mp hx
    exact ⟨_, (hparameter k name hk).2⟩

/-- To set the environment that is set already does nothing. -/
theorem withEnvironmentOf_same (hc : a.contexts = o :: rest) : withEnvironmentOf o.environment a = a := by
  obtain ⟨objects, environments, realms, contexts, joining, methods, count, trace, verbose, reports⟩ := a
  dsimp only at hc
  subst hc
  rfl

theorem entersPlain_of_ok (hf : f.declaresOnce = true) (hplain : f.hasParameterExpressions = false)
    (hc : a.contexts = o :: rest) (hnew : a.environments.get? o.environment = some ⟨home, []⟩)
    {filled : Agent} {v : Unit}
    (hreceive : (Machine.ofDepth n).receive o.environment f args (Scope.ofFunction f) a = .ok v filled)
    (h : prepareBody o.environment f (Scope.ofFunction f) filled = .ok u b) :
    f.EntersPlain args o a b := by
  obtain ⟨u₁, start, hstart, h₁⟩ := bind_eq_ok hreceive
  obtain ⟨left, last, hlast, hfilled⟩ := bind_eq_ok h₁
  rw [(Function.plain_of_not hplain).1] at hfilled
  cases hfilled
  obtain ⟨inner, wide, hwide, h₄⟩ := bind_eq_ok h
  unfold bodyEnvironment at hwide
  rw [hplain, if_neg Bool.false_ne_true] at hwide
  obtain ⟨u₃, wide', hwide', hinner⟩ := bind_eq_ok hwide
  cases hinner
  obtain ⟨u₄, set, hset, h₅⟩ := bind_eq_ok h₄
  obtain ⟨hbefore, hparameter, hundefined, hheld⟩ := plainNames_ok hf hplain (fun n => by
    rw [Environments.find?_of_get? hnew]
    rfl) hstart hlast hwide'
  have hcontexts := hbefore.contexts.trans hc
  -- The environment of the body is the one that is set already.
  rw [setEnvironment_eq hcontexts, withEnvironmentOf_same hcontexts] at hset
  cases hset
  obtain ⟨hlate, hlexical, hkept, hfunctions⟩ := bodyNames_ok hf hcontexts (fun d hd hk =>
    hheld d hd (by rw [Declaration.isFunctionWide, hk, Bool.or_true])) h₅
  have hall := hbefore.trans hlate
  refine ⟨hall.contexts, hall.others, hall.outer, fun k name hk hfunction => ?_,
    bodyStarts_of hf hlexical hfunctions fun d hd hvar hparam hfun hl => ?_, fun n hn => ?_⟩
  · obtain ⟨hmem, hfind⟩ := hparameter k name hk
    obtain ⟨d, hd, rfl, hdk⟩ := (Scope.hasKind_parameter_ofFunction f name).mpr hmem
    have hdf : d.isKind .function = false :=
      Bool.eq_false_iff.mpr fun h => hfunction ((isFunction_iff hd).mp h)
    rw [hkept d hd (not_isLexical hf hd hdk (by decide) (by decide)) hdf, hfind]
  · rw [hkept d hd hl hfun]
    exact hundefined d hd (by rw [Declaration.isFunctionWide, hvar]; rfl) hparam
  · by_contra hnot
    have hout : n ∉ (Scope.ofFunction f).names := fun hmem => by
      obtain ⟨d, hd, rfl⟩ := List.mem_map.mp hmem
      exact hnot (declared_of_mem hd)
    rw [hall.find n hout, Environments.find?_of_get? hnew] at hn
    cases hn

/-- The names of the whole function are made in an environment inside that of the parameters. -/
theorem inheritVariables_ok {e : EnvironmentId} (he : e ≠ i)
    (h : (Scope.ofFunction f).declarations.forM (inheritVariable e i) a = .ok u b) :
    a.Touches i (Scope.ofFunction f).names b ∧ ∀ d ∈ (Scope.ofFunction f).declarations,
      (d.isFunctionWide = false → b.environments.find? i d.name = a.environments.find? i d.name) ∧
      (d.isFunctionWide = true → ∃ value, b.environments.find? i d.name = some (.holding value) ∧
        (d.isInherited = true → (a.environments.find? e d.name).bind (·.value) = some value) ∧
        (d.isInherited = false → value = .undefined)) := by
  obtain ⟨htouches, -, hall⟩ := forM_ok (I := fun c => c.environments.get? e = a.environments.get? e)
    (Q := fun d v b => (d.isFunctionWide = false → b.environments.find? i d.name = v) ∧
      (d.isFunctionWide = true → ∃ value, b.environments.find? i d.name = some (.holding value) ∧
        (d.isInherited = true → (a.environments.find? e d.name).bind (·.value) = some value) ∧
        (d.isInherited = false → value = .undefined)))
    (Scope.nodup_ofFunction f) (fun d _ c u' b' hc hstep => by
      obtain ⟨htouches, hdone⟩ := inheritVariable_ok he hstep
      unfold Environments.find? at hdone ⊢
      rw [hc] at hdone
      exact ⟨htouches, (htouches.others e he).trans hc, hdone⟩)
    (fun d v b' c ms hdone htouches hne => by
      rw [htouches.find _ hne]
      exact hdone) rfl h
  exact ⟨htouches, hall⟩

/-- The names of the body are made when the parameters have their values. -/
theorem entersNested_of_ok (hf : f.declaresOnce = true) (hnested : f.hasParameterExpressions = true)
    (ha : a.environments.IsSound) (hac : a.contexts = o :: rest)
    (hnew : a.environments.get? o.environment = some ⟨home, []⟩) (hb : b.IsOrderly)
    {filled : Agent} {v : Unit}
    (hreceive : (Machine.ofDepth n).receive o.environment f args (Scope.ofFunction f) a = .ok v filled)
    (h : prepareBody o.environment f (Scope.ofFunction f) filled = .ok u b) :
    ∃ inner, f.EntersNested (.ofDepth n) args o rest a b filled inner := by
  obtain ⟨hcontexts, hstay, htidy, -⟩ := receive_stays ha.tidy hnew hreceive
  obtain ⟨x, hthere, -⟩ := hstay _ _ hnew
  have hc := hcontexts.trans hac
  obtain ⟨inner, wide, hwide, hnext⟩ := bind_eq_ok h
  unfold bodyEnvironment at hwide
  rw [hnested, if_pos rfl] at hwide
  obtain ⟨inner', made, hmade, hloop⟩ := bind_eq_ok hwide
  obtain ⟨u₁, wide', hinherit, hinner⟩ := bind_eq_ok hloop
  cases hinner
  obtain ⟨u₂, set, hset, h₅⟩ := bind_eq_ok hnext
  -- The new environment is not that of the parameters, as it was vacant.
  obtain ⟨hfresh, hrecord, hothers, hcmade, hobjects⟩ := newEnvironment_ok htidy hmade
  have hne : o.environment ≠ inner := fun heq => by
    rw [← heq, hthere] at hfresh
    cases hfresh
  obtain ⟨htouches, hwides⟩ := inheritVariables_ok hne hinherit
  have hcwide : wide.contexts = o :: rest := by rw [htouches.contexts, hcmade, hc]
  rw [setEnvironment_eq hcwide] at hset
  cases hset
  have hset : withEnvironmentOf inner wide
      = { wide with contexts := { o with environment := inner } :: rest } := by
    unfold withEnvironmentOf
    rw [hcwide]
  rw [hset] at h₅
  obtain ⟨hlate, hlexical, hkept, hfunctions⟩ := bodyNames_ok hf (o := { o with environment := inner })
    rfl (fun d hd hk => by
      obtain ⟨value, hvalue, -⟩ := (hwides d hd).2 (by rw [Declaration.isFunctionWide, hk, Bool.or_true])
      exact ⟨value, hvalue⟩) h₅
  -- Only the names of the new environment have changed since, and closures are new.
  have hfilledOrderly : filled.IsOrderly :=
    (htouches.isOrderly ((hlate.isOrderly hb).congr rfl)).congr hobjects
  refine ⟨inner, received_of_ok hf hac ha hnew hfilledOrderly hreceive, hfresh,
    hlate.contexts, fun j hj => ?_, ?_, fun n hvar hparameter hfunction => ?_,
    bodyStarts_of hf hlexical hfunctions fun d hd hvar hparam hfun hl => ?_, fun n hn => ?_⟩
  · rw [hlate.others j hj, ← hothers j hj, ← htouches.others j hj]
  · rw [hlate.outer]
    refine htouches.outer.trans ?_
    rw [hrecord]
    rfl
  · obtain ⟨d, hd, rfl, hdk⟩ := (Scope.hasKind_ofFunction (k := .var) f).mpr (.inr (.inl ⟨hvar, rfl⟩))
    have hdf : d.isKind .function = false :=
      Bool.eq_false_iff.mpr fun h => hfunction ((isFunction_iff hd).mp h)
    have hdl := not_isLexical hf hd hdk (by decide) (by decide)
    obtain ⟨value, hvalue, hinherited, -⟩ := (hwides d hd).2 (by rw [Declaration.isFunctionWide, hdk]; rfl)
    refine ⟨value, ?_, (hkept d hd hdl hdf).trans hvalue⟩
    have hstart := hinherited (by
      rw [Declaration.isInherited, hdf, (isParameter_iff hd).mpr hparameter]
      rfl)
    rwa [Environments.find?, hothers _ hne] at hstart
  · obtain ⟨value, hvalue, -, hother⟩ := (hwides d hd).2 (by rw [Declaration.isFunctionWide, hvar]; rfl)
    rw [hkept d hd hl hfun, ← hother (by rw [Declaration.isInherited, hparam]; rfl)]
    exact hvalue
  · by_contra hnot
    have hbefore : made.environments.find? inner n = none := by
      rw [Environments.find?_of_get? hrecord]
      rfl
    have hnone : b.environments.find? inner n = none := by
      by_cases hmem : n ∈ (Scope.ofFunction f).names
      · obtain ⟨d, hd, rfl⟩ := List.mem_map.mp hmem
        obtain ⟨hwide, hl, hfun⟩ := kinds_of_parameter hd hnot
        rw [hkept d hd hl hfun]
        exact ((hwides d hd).1 hwide).trans hbefore
      · rw [hlate.find n hmem]
        exact (htouches.find n hmem).trans hbefore
    rw [hnone] at hn
    cases hn

end Entering

/-! ### What the parameters and the body see -/

/-- A name that an environment does not have is that of the one around it. -/
theorem Environments.holder_of_outer {s : Environments} {e i : EnvironmentId} {x y : Environment}
    {name : String} (hx : s.get? i = some x) (hnot : x.has name = false) (houter : x.outer = some e)
    (hy : s.get? e = some y) (hhas : y.has name = true) : s.holder name i = .environment e := by
  -- There is an environment, so that two of them may be looked at.
  obtain ⟨k, hk⟩ : ∃ k, s.records.size = k + 1 := by
    refine Nat.exists_eq_succ_of_ne_zero fun hzero => ?_
    rw [get?, Array.getElem?_eq_none (by omega)] at hx
    cases hx
  unfold holder
  rw [hk]
  simp only [holderFrom, hx, hnot, houter, hy, hhas, if_true, Bool.false_eq_true, if_false]

section Seeing

variable {f : Function} {m : Machine} {args : List Value} {o : Context} {rest : List Context}
  {filled : Agent} {inner k : EnvironmentId} {name : String}

/-- **What is made while the parameters get their values does not see the names of the body**, also not
later, whatever the body does. -/
theorem Function.EntersNested.unseen (h : f.EntersNested m args o rest a b filled inner)
    (hk : filled.environments.Misses inner (some k)) {t : Environments}
    (ht : b.environments.Stay t) (name : String) : t.holder name k ≠ .environment inner := by
  have hstay : filled.environments.Stay b.environments := fun j x hj => by
    have hne : j ≠ inner := by
      rintro rfl
      rw [h.fresh] at hj
      cases hj
    exact ⟨x, (h.others j hne).trans hj, .refl x⟩
  exact fun hholder => ((hk.stay hstay).stay ht).ne_of_holderFrom name hholder rfl

/-- **A parameter that the body does not declare again** is the same variable for both. -/
theorem Function.EntersNested.shared (h : f.EntersNested m args o rest a b filled inner)
    (hname : name ∈ f.parameterNames) :
    b.environments.holder name o.environment = .environment o.environment ∧
      (name ∉ f.varNames → (∀ k, ¬f.DeclaresInBody name k) →
        b.environments.holder name inner = .environment o.environment) := by
  obtain ⟨v, hv⟩ := Option.isSome_iff_exists.mp ((h.received.names name).mpr hname)
  obtain ⟨y, hy, hyname⟩ := Environments.get?_of_find? hv
  have hne : o.environment ≠ inner := by
    intro heq
    rw [heq, h.fresh] at hy
    cases hy
  have hy := (h.others _ hne).trans hy
  have hhas : y.has name = true := by
    rw [Environment.has, hyname]
    rfl
  refine ⟨Environments.holder_of_has hy hhas, fun hvar hbody => ?_⟩
  obtain ⟨x, hx, houter⟩ := Option.map_eq_some_iff.mp h.outer
  refine Environments.holder_of_outer hx (Bool.eq_false_iff.mpr fun hthere => ?_) houter hy hhas
  rcases h.only name (by rwa [Environments.find?_of_get? hx]) with hn | ⟨k, hn⟩
  · exact hvar hn
  · exact hbody k hn

end Seeing

end Scriptlet
