import Scriptlet.Proofs.Blocks
import Scriptlet.Proofs.Expressions

/-!
# Related statements

Running an admitted statement is related on both sides, one lemma for each form of statement, in
terms of agreeing machines for the parts.

## Main results

* `Machine.Agree.declaration` — declarations of variables.
* `Machine.Agree.block`, `Machine.Agree.conditional`, `Machine.Agree.switch`,
  `Machine.Agree.attempt` — structured statements.
* `Machine.Agree.whileLoop`, `Machine.Agree.doLoop`, `Machine.Agree.countingLoop`,
  `Machine.Agree.forEach` — loops.
* `Machine.Agree.evaluateStatement` — **running an admitted statement is related**.
-/

namespace Scriptlet

open Eval

variable {φ : RealmId → Filing} {m m' : Machine} {ρ : World} {c : Context × Context} {K : Stack φ}
  {S : List Scope}
  {v w : Value}

/-! ### Completions -/

namespace Completion.Rel

variable {x y : Completion}

theorem ofValue (hv : ρ.value v w) : Completion.Rel ρ (.normal v) (.normal w) := ⟨rfl, .some hv⟩

theorem withDefault (h : Completion.Rel ρ x y) (hv : ρ.value v w) :
    Completion.Rel ρ (x.withDefault v) (y.withDefault w) :=
  ⟨h.kind, .some (World.value?.getD_rel h.value hv)⟩

theorem outside (h : Completion.Rel ρ x y) : Completion.Rel ρ x.outside y.outside := by
  unfold Completion.outside
  rw [h.kind]
  split
  · exact .ofValue (World.value?.getD h.value)
  · exact h

/-- What a round of a loop leads to corresponds. -/
theorem afterRound (h : Completion.Rel ρ x y) (hv : ρ.value v w) :
    Sum.LiftRel ρ.value (Completion.Rel ρ) (Machine.afterRound x v) (Machine.afterRound y w) := by
  have hkind : x.isContinuing = y.isContinuing := by
    unfold Completion.isContinuing
    rw [h.kind]
  unfold Machine.afterRound
  rw [hkind]
  split
  · exact .inl (World.value?.getD_rel h.value hv)
  · exact .inr (h.withDefault hv)

end Completion.Rel

/-! ### Declarations -/

/-- The names of a declaration that does not belong to a function are in the environment that is
being evaluated in. -/
theorem Related.declarationPlace (isFunctionWide : Bool) {names : List String}
    (hb : isFunctionWide = false → ∀ n ∈ names, ρ.isBound c.1.environment n) :
    Related ρ (K.push c) (Eval.declarationPlace isFunctionWide)
      (Eval.declarationPlace isFunctionWide) fun σ e f => σ.Binds names e f := by
  cases isFunctionWide with
  | true => exact pure .none
  | false =>
    refine inKnown fun hc => environment.bind fun hle he => ?_
    obtain ⟨⟨rfl, rfl⟩, he⟩ := he
    exact pure (.some ⟨he, fun n hn => hle.isBound ⟨_, hc⟩ (hb rfl n hn)⟩)

namespace Machine.Agree

/-- A declared name gets its value; one that belongs to a block is there already. -/
theorem declareName (h : m.Agree φ m') (isFunctionWide : Bool) {name : String} {i : Option Expr}
    (hi : ρ.Admits c S (optionalNotes · i))
    (hb : isFunctionWide = false → ρ.isBound c.1.environment name) :
    Related ρ (K.push c) (m.declare isFunctionWide ⟨.identifier name, i⟩)
      (m'.declare isFunctionWide ⟨.identifier name, i⟩) fun _ _ _ => True := by
  cases isFunctionWide with
  | true =>
    cases i with
    | none => exact (Related.resolve name).bind fun _ _ => .pure trivial
    | some e =>
      refine (Related.resolve name).bind fun hle hr => ?_
      exact (h.named (e := e) (hi.mono hle) name).bind fun hle₁ hv =>
        h.writeReference (hr.mono hle₁) hv
  | false =>
    refine .inKnown fun hc => ?_
    have hb := hb rfl
    cases i with
    | none =>
      refine (Related.resolveBound hb).bind fun hle hr => ?_
      obtain ⟨rfl, rfl⟩ := hr
      exact .initializeVariable (hle.environment hc) (hle.isBound ⟨_, hc⟩ hb) .undefined
    | some e =>
      refine (Related.resolveBound hb).bind fun hle hr => ?_
      obtain ⟨rfl, rfl⟩ := hr
      refine (h.named (e := e) (hi.mono hle) name).bind fun hle₁ hv => ?_
      have hle := World.le_trans hle hle₁
      exact .initializeVariable (hle.environment hc) (hle.isBound ⟨_, hc⟩ hb) hv

theorem declare (h : m.Agree φ m') (isFunctionWide : Bool) {p : Pattern} {i : Option Expr}
    (hp : ρ.Admits c S fun s => p.notes s ++ optionalNotes s i)
    (hb : isFunctionWide = false → ∀ n ∈ p.names, ρ.isBound c.1.environment n) :
    Related ρ (K.push c) (m.declare isFunctionWide ⟨p, i⟩) (m'.declare isFunctionWide ⟨p, i⟩)
      fun _ _ _ => True := by
  have hpattern : ∀ {e : Expr}, i = some e →
      Related ρ (K.push c)
        (do
          let v ← m.expression e
          m.run (.bind p v (← Eval.declarationPlace isFunctionWide)))
        (do
          let v ← m'.expression e
          m'.run (.bind p v (← Eval.declarationPlace isFunctionWide))) fun _ _ _ => True := by
    rintro e rfl
    refine .inKnown fun hc => (h.expression (e := e) hp.right).bind fun hle hv => ?_
    refine (Related.declarationPlace isFunctionWide fun hf n hn =>
      hle.isBound ⟨_, hc⟩ (hb hf n hn)).bind fun hle₁ he => ?_
    exact h.run (.bind (.inr ⟨S, hp.left.mono (World.le_trans hle hle₁)⟩) (hv.mono hle₁) he)
  cases p with
  | identifier name =>
    exact h.declareName isFunctionWide hp.right fun hf => hb hf name (List.mem_singleton.mpr rfl)
  | _ =>
    cases i with
    | none => exact .pure trivial
    | some e => exact hpattern rfl

theorem declareAll (h : m.Agree φ m') (isFunctionWide : Bool) {bs : List Binding}
    (hbs : ρ.Admits c S (bindingNotes · bs))
    (hb : isFunctionWide = false → ∀ n ∈ bindingNames bs, ρ.isBound c.1.environment n) :
    Related ρ (K.push c) (m.declareAll isFunctionWide bs) (m'.declareAll isFunctionWide bs)
      fun _ _ _ => True := by
  induction bs generalizing ρ with
  | nil => exact .pure trivial
  | cons b bs ih =>
    obtain ⟨p, i⟩ := b
    have hp : ρ.Admits c S fun s => p.notes s ++ optionalNotes s i := hbs.left
    refine .inKnown fun hc => ?_
    refine (h.declare isFunctionWide hp fun hf n hn => hb hf n ?_).bind fun hle _ => ?_
    · exact List.mem_append_left _ hn
    · exact ih (hbs.right.mono hle) fun hf n hn =>
        hle.isBound ⟨_, hc⟩ (hb hf n (List.mem_append_right _ hn))

/-- **Declarations are run where their names are.** -/
theorem declaration (h : m.Agree φ m') {d : VarDecl} (hd : ρ.Admits c S (declarationNotes · d))
    (hb : d.kind.isLexical = true → ∀ n ∈ d.names, ρ.isBound c.1.environment n) :
    Related ρ (K.push c) (m.declaration d) (m'.declaration d) fun _ _ _ => True := by
  obtain ⟨span, kind, isAmbient, bs⟩ := d
  have hbs : ρ.Admits c S (bindingNotes · bs) := hd.right
  unfold Machine.declaration
  split
  · exact h.declareAll _ hbs fun hf => hb (by simpa using hf)
  · exact .pure trivial

/-! ### Blocks, conditions and handlers -/

theorem block (h : m.Agree φ m') {b : Block} (hb : ρ.Admits c S (blockNotes · b)) :
    Related ρ (K.push c) (m.block b) (m'.block b) fun σ x y => Completion.Rel σ x y := by
  obtain ⟨span, ts⟩ := b
  unfold Machine.block
  refine (Related.record _).bind fun hle _ => ?_
  have hb := hb.mono hle
  split
  · exact .pure ⟨rfl, .none⟩
  refine (Related.scopeAt hb.head.covers).bind fun hle₁ hs => ?_
  obtain ⟨rfl, rfl⟩ := hs
  have hb := hb.mono hle₁
  refine (Related.blockEnvironment rfl hb.represents hb.tail.covers).bind
    fun {σ e e'} hle₂ he => ?_
  obtain ⟨he, hS, hbound⟩ := he
  refine Related.inside he fun hle₃ => h.statements ⟨hS.mono hle₃, ?_⟩ fun t ht n hn => ?_
  · have hn := (hb.mono (World.le_trans hle₂ hle₃)).tail.covers
    exact hn
  · exact hle₃.isBound ⟨e', he⟩ (hbound n (Scope.has_lexical ht hn))

/-- A statement that does not belong to a list declares no names for one. -/
theorem lone (h : m.Agree φ m') {s : Stmt} (hs : ρ.Admits c S fun x => alone s (s.notes x)) :
    Related ρ (K.push c) (m.run (.statement s)) (m'.run (.statement s))
      fun σ x y => Completion.Rel σ x y := by
  have hlexical : s.lexicalNames = [] := by
    have hg := hs.isGrammatical
    cases s with
    | declaration d =>
      unfold Stmt.lexicalNames
      dsimp only [Placement.isGrammatical] at hg ⊢
      rw [Bool.not_eq_true'] at hg
      rw [hg]
      rfl
    | _ => rfl
  refine h.run (.statement hs.tail fun n hn => ?_)
  rw [hlexical] at hn
  cases hn

theorem conditional (h : m.Agree φ m') (place : Span) {test : Expr} {s : Stmt} {alternate : Option Stmt}
    (he : ρ.Admits c S (Stmt.notes · (.conditional place test s alternate))) :
    Related ρ (K.push c) (m.conditional place test s alternate)
      (m'.conditional place test s alternate) fun σ x y => Completion.Rel σ x y := by
  have hparts : ρ.Admits c S (Expr.notes · test) ∧ (ρ.Admits c S fun x => alone s (s.notes x)) ∧
      ∀ t, alternate = some t → ρ.Admits c S fun x => alone t (t.notes x) := by
    cases alternate with
    | none => exact ⟨he.left, he.right, fun t ht => by cases ht⟩
    | some t => exact ⟨he.left.left, he.left.right, by rintro t ⟨⟩; exact he.right⟩
  obtain ⟨htest, hs, halternate⟩ := hparts
  have hrun : ∀ {σ : World} {t : Stmt}, ρ ≤ σ → (ρ.Admits c S fun x => alone t (t.notes x)) →
      Related σ (K.push c) (do return (← m.run (.statement t)).withDefault .undefined)
        (do return (← m'.run (.statement t)).withDefault .undefined)
        fun τ x y => Completion.Rel τ x y :=
    fun hle ht => (h.lone (ht.mono hle)).bind fun _ hxy => .pure (hxy.withDefault .undefined)
  refine (h.expression htest).bind fun {_ v w} hle hv => ?_
  rw [hv.isTrue]
  refine (Related.record _).bind fun hle₁ _ => ?_
  have hle := World.le_trans hle hle₁
  cases w.isTrue with
  | true => exact hrun hle hs
  | false =>
    cases alternate with
    | none => exact .pure (.ofValue .undefined)
    | some t => exact hrun hle (halternate t rfl)

/-- **A thrown value is handled where the names of the handler are.** -/
theorem handle (h : m.Agree φ m') {x : Handler} (hx : ρ.Admits c S (handlerNotes · (some x)))
    (hv : ρ.value v w) :
    Related ρ (K.push c) (m.handle x v) (m'.handle x w) fun σ x y => Completion.Rel σ x y := by
  obtain ⟨span, parameter, body⟩ := x
  refine (Related.record _).bind fun hle _ => ?_
  have hx := hx.mono hle
  cases parameter with
  | none =>
    exact h.block (S := Scope.ofHandler none :: S) ⟨.nameless rfl hx.represents, hx.tail.covers⟩
  | some p =>
    have hscope : ∀ n, (Scope.ofHandler (some p)).has n = true ↔ n ∈ p.names :=
      fun n => Scope.has_ofHandler (some p) n
    refine (Related.nestedEnvironment false hscope hx.represents).bind fun {σ e e'} hle₁ he => ?_
    obtain ⟨he, hS, hbound⟩ := he
    refine Related.inside he fun {τ} hle₂ => ?_
    have hinner : τ.Admits (moved c e e') (Scope.ofHandler (some p) :: S)
        fun s => p.notes s ++ blockNotes s body :=
      ⟨hS.mono hle₂, (hx.mono (World.le_trans hle₁ hle₂)).tail.covers⟩
    refine (h.run (.bind (.inr ⟨_, hinner.left⟩) (hv.mono ?_) (.some ⟨hle₂.environment he, ?_⟩))).bind
      fun hle₃ _ => h.block (hinner.right.mono hle₃)
    · exact World.le_trans hle (World.le_trans hle₁ hle₂)
    · exact fun n hn => hle₂.isBound ⟨e', he⟩ (hbound n hn)

theorem guarded (h : m.Agree φ m') {b : Block} {handler : Option Handler}
    (hb : ρ.Admits c S fun s => blockNotes s b ++ handlerNotes s handler) :
    Related ρ (K.push c) (m.guarded b handler) (m'.guarded b handler)
      fun σ x y => Completion.Rel σ x y := by
  cases handler with
  | none => exact h.block hb.left
  | some x =>
    exact Related.catching (h.block hb.left) fun hle hv => h.handle (hb.right.mono hle) hv

/-- **A block with a handler and with what has to follow.** -/
theorem attempt (h : m.Agree φ m') {b : Block} {handler : Option Handler} {finalizer : Option Block}
    (hb : ρ.Admits c S fun s =>
      blockNotes s b ++ handlerNotes s handler ++ optionalBlockNotes s finalizer) :
    Related ρ (K.push c) (m.attempt b handler finalizer) (m'.attempt b handler finalizer)
      fun σ x y => Completion.Rel σ x y := by
  unfold Machine.attempt
  cases finalizer with
  | none => exact (h.guarded hb.left).bind fun _ hxy => .pure (hxy.withDefault .undefined)
  | some last =>
    refine (Related.followedBy (h.guarded hb.left) fun hle => ?_).bind fun _ hxy =>
      .pure (hxy.withDefault .undefined)
    exact h.block (b := last) (hb.right.mono hle)

/-! ### Clauses -/

/-- The notes on the statements of clauses are among those on the clauses. -/
theorem mem_caseNotes {x : Surroundings} {cs : List Case} {n : Note}
    (hn : n ∈ statementNotes x (cs.flatMap (·.statements))) : n ∈ caseNotes x cs := by
  induction cs with
  | nil => exact hn
  | cons y cs ih =>
    obtain ⟨test, statements⟩ := y
    rw [List.flatMap_cons, statementNotes_append, List.mem_append] at hn
    rw [caseNotes, List.mem_append, List.mem_append]
    obtain hn | hn := hn
    · exact .inl (.inr hn)
    · exact .inr (ih hn)

/-- Clauses of which all tests and statements are admitted, and all names are there. -/
def AdmitsCases (ρ : World) (c : Context × Context) (S : List Scope) (cs : List Case) : Prop :=
  ∀ x ∈ cs, ρ.Admits c S fun s => optionalNotes s x.test ++ statementNotes s x.statements

theorem AdmitsCases.ofNotes {cs : List Case} (h : ρ.Admits c S (caseNotes · cs)) :
    AdmitsCases ρ c S cs := by
  induction cs with
  | nil => exact fun x hx => by cases hx
  | cons x cs ih =>
    obtain ⟨test, statements⟩ := x
    exact List.forall_mem_cons.mpr ⟨h.left, ih h.right⟩

theorem AdmitsCases.mono {σ : World} (hle : ρ ≤ σ) {cs : List Case}
    (h : AdmitsCases ρ c S cs) : AdmitsCases σ c S cs :=
  fun x hx => (h x hx).mono hle

theorem AdmitsCases.subset {cs ds : List Case} (hsub : ∀ x ∈ ds, x ∈ cs)
    (h : AdmitsCases ρ c S cs) : AdmitsCases ρ c S ds :=
  fun x hx => h x (hsub x hx)

/-- The same clauses are selected on both sides, among the given ones. -/
theorem select (h : m.Agree φ m') {cs : List Case} (hcs : AdmitsCases ρ c S cs)
    (hv : ρ.value v w) :
    Related ρ (K.push c) (m.select v cs) (m'.select w cs)
      fun _ xs ys => xs = ys ∧ ∀ x ∈ xs, x ∈ cs := by
  induction cs generalizing ρ with
  | nil => exact .pure ⟨rfl, fun x hx => hx⟩
  | cons x cs ih =>
    have hrest : AdmitsCases ρ c S cs := hcs.subset fun x => List.mem_cons_of_mem _
    have hx := hcs x List.mem_cons_self
    have hlater : ∀ {σ : World}, ρ ≤ σ → Related σ (K.push c) (m.select v cs) (m'.select w cs)
        fun _ xs ys => xs = ys ∧ ∀ y ∈ xs, y ∈ x :: cs :=
      fun hle => (ih (hrest.mono hle) (hv.mono hle)).imp fun _ h =>
        ⟨h.1, fun y hy => List.mem_cons_of_mem _ (h.2 y hy)⟩
    obtain ⟨test, statements⟩ := x
    cases test with
    | none => exact hlater (World.le_refl ρ)
    | some e =>
      refine (h.expression (e := e) hx.left).bind fun hle hw => ?_
      rw [(hv.mono hle).isStrictly hw]
      split
      · exact .pure ⟨rfl, fun y hy => hy⟩
      · exact hlater hle

theorem selected (h : m.Agree φ m') {cs : List Case} (hcs : AdmitsCases ρ c S cs)
    (hv : ρ.value v w) :
    Related ρ (K.push c) (m.selected v cs) (m'.selected w cs)
      fun _ xs ys => xs = ys ∧ ∀ x ∈ xs, x ∈ cs := by
  have hbefore : ∀ x ∈ cs.takeWhile (·.test.isSome), x ∈ cs :=
    fun x hx => (List.takeWhile_prefix _).subset hx
  have hafter : ∀ x ∈ cs.dropWhile (·.test.isSome), x ∈ cs :=
    fun x hx => (List.dropWhile_suffix _).subset hx
  refine (h.select (hcs.subset hbefore) hv).bind fun {_ xs ys} hle hxy => ?_
  obtain ⟨rfl, hxs⟩ := hxy
  generalize cs.dropWhile (·.test.isSome) = left at hafter
  cases xs with
  | cons x xs =>
    refine .pure ⟨rfl, fun y hy => ?_⟩
    obtain hy | hy := List.mem_append.mp hy
    · exact hbefore y (hxs y hy)
    · exact hafter y hy
  | nil =>
    cases left with
    | nil => exact .pure ⟨rfl, fun y hy => by cases hy⟩
    | cons x left =>
      have hleft : ∀ y ∈ left, y ∈ cs := fun y hy => hafter y (List.mem_cons_of_mem _ hy)
      refine (h.select ((hcs.subset hleft).mono hle) (hv.mono hle)).bind fun {_ xs ys} _ hxy => ?_
      obtain ⟨rfl, hys⟩ := hxy
      cases xs with
      | nil => exact .pure ⟨rfl, hafter⟩
      | cons y ys => exact .pure ⟨rfl, fun z hz => hleft z (hys z hz)⟩

theorem clauses (h : m.Agree φ m') {cs : List Case} (hcs : AdmitsCases ρ c S cs)
    (hb : ∀ x ∈ cs, ∀ t ∈ x.statements, ∀ n ∈ t.lexicalNames, ρ.isBound c.1.environment n)
    (hv : ρ.value v w) :
    Related ρ (K.push c) (m.clauses cs v) (m'.clauses cs w)
      fun σ x y => Completion.Rel σ x y := by
  induction cs generalizing ρ v w with
  | nil => exact .pure (.ofValue hv)
  | cons x cs ih =>
    obtain ⟨hx, hrest⟩ := List.forall_mem_cons.mp hcs
    obtain ⟨hbx, hb⟩ := List.forall_mem_cons.mp hb
    refine .inKnown fun hc => (h.statements hx.right hbx).bind fun {_ r r'} hle hr => ?_
    have hvalue := World.value?.getD_rel hr.value (hv.mono hle)
    dsimp only
    rw [hr.isAbrupt]
    split
    · exact .pure (hr.withDefault hvalue)
    · exact ih (AdmitsCases.mono hle hrest)
        (fun x hx t ht n hn => hle.isBound ⟨_, hc⟩ (hb x hx t ht n hn)) hvalue

/-- **A switch is run where the names of all its clauses are.** -/
theorem switch (h : m.Agree φ m') {place : Span} {e : Expr} {cs : List Case}
    (he : ρ.Admits c S fun s => e.notes s ++ .scope place (Scope.ofCases cs) ::
      caseNotes (s.inside (Scope.ofCases cs)) cs) :
    Related ρ (K.push c) (m.switch place e cs) (m'.switch place e cs)
      fun σ x y => Completion.Rel σ x y := by
  refine (h.expression he.left).bind fun hle hv => ?_
  have hcs := he.right.mono hle
  refine (Related.scopeAt hcs.head.covers).bind fun hle₁ hs => ?_
  obtain ⟨rfl, rfl⟩ := hs
  have hcs := hcs.mono hle₁
  refine (Related.blockEnvironment (Scope.ofCases_eq cs) hcs.represents
    fun n hn => hcs.tail.covers n (mem_caseNotes hn)).bind fun {σ e e'} hle₂ he => ?_
  obtain ⟨he, hS, hbound⟩ := he
  refine Related.inside he fun {τ} hle₃ => ?_
  have hcases : AdmitsCases τ (moved c e e') (Scope.ofCases cs :: S) cs :=
    .ofNotes ⟨hS.mono hle₃, (hcs.mono (World.le_trans hle₂ hle₃)).tail.covers⟩
  have hv := hv.mono (World.le_trans (World.le_trans hle₁ hle₂) hle₃)
  refine (h.selected hcases hv).bind fun {_ xs ys} hle₄ hxy => ?_
  obtain ⟨rfl, hxs⟩ := hxy
  refine h.clauses ((hcases.subset hxs).mono hle₄) (fun x hx t ht n hn => ?_) .undefined
  refine (World.le_trans hle₃ hle₄).isBound ⟨e', he⟩ (hbound n ?_)
  rw [Scope.ofCases_eq]
  exact Scope.has_lexical (List.mem_flatMap.mpr ⟨x, hxs x hx, ht⟩) hn

/-! ### Loops -/

theorem holds (h : m.Agree φ m') {e : Option Expr} (he : ρ.Admits c S (optionalNotes · e)) :
    Related ρ (K.push c) (m.holds e) (m'.holds e) fun _ x y => x = y := by
  cases e with
  | none => exact .pure rfl
  | some e => exact (h.expression (e := e) he).bind fun _ hv => .pure hv.isTrue

theorem effect (h : m.Agree φ m') {e : Option Expr} (he : ρ.Admits c S (optionalNotes · e)) :
    Related ρ (K.push c) (m.effect e) (m'.effect e) fun _ _ _ => True := by
  cases e with
  | none => exact .pure trivial
  | some e => exact (h.expression (e := e) he).bind fun _ _ => .pure trivial

theorem whileLoop (h : m.Agree φ m') {e : Expr} {s : Stmt}
    (he : ρ.Admits c S fun x => e.notes x ++ alone s (s.notes x)) :
    Related ρ (K.push c) (m.whileLoop e s) (m'.whileLoop e s)
      fun σ x y => Completion.Rel σ x y := by
  unfold Machine.whileLoop
  rw [h.fuel]
  refine Related.iterate (I := fun σ v w => σ.value v w) (fun hle hv => ?_) _ .undefined
  have he := he.mono hle
  refine (h.expression he.left).bind fun hle₁ ht => ?_
  rw [ht.isTrue]
  split
  · exact (h.lone (he.right.mono hle₁)).bind fun hle₂ hxy =>
      .pure (hxy.afterRound (hv.mono (World.le_trans hle₁ hle₂)))
  · exact .pure (.inr (.ofValue (hv.mono hle₁)))

theorem doLoop (h : m.Agree φ m') {e : Expr} {s : Stmt}
    (he : ρ.Admits c S fun x => alone s (s.notes x) ++ e.notes x) :
    Related ρ (K.push c) (m.doLoop s e) (m'.doLoop s e)
      fun σ x y => Completion.Rel σ x y := by
  unfold Machine.doLoop
  rw [h.fuel]
  refine Related.iterate (I := fun σ v w => σ.value v w) (fun hle hv => ?_) _ .undefined
  have he := he.mono hle
  refine (h.lone he.left).bind fun {_ x y} hle₁ hxy => ?_
  have hround := hxy.afterRound (hv.mono hle₁)
  generalize Machine.afterRound x _ = r, Machine.afterRound y _ = r' at hround
  cases hround with
  | inr hxy => exact .pure (.inr hxy)
  | inl hv =>
    refine (h.expression (he.right.mono hle₁)).bind fun hle₂ ht => ?_
    rw [ht.isTrue]
    split
    · exact .pure (.inl (hv.mono hle₂))
    · exact .pure (.inr (.ofValue (hv.mono hle₂)))

/-- What a counting loop consists of, apart from its start. -/
def loopNotes (x : Surroundings) (test update : Option Expr) (body : Stmt) : List Note :=
  optionalNotes x test ++ optionalNotes x update ++ alone body (body.notes x)

/-- **The rounds of a counting loop go on in copies of the environment.** -/
theorem rounds (h : m.Agree φ m') {names : List String} {test update : Option Expr} {s : Stmt}
    (hparts : ρ.Admits c S (loopNotes · test update s)) (hn : World.Renews names S) :
    Roams ρ c K (m.rounds names test update s) (m'.rounds names test update s)
      fun σ _ _ x y => Completion.Rel σ x y := by
  unfold Machine.rounds
  rw [h.fuel]
  -- The notes of the loop's parts hold in the record of every round, which stands in the same place
  -- as that of the head.
  have hcovers : ∀ {σ : World} {e f : EnvironmentId}, ρ ≤ σ → σ.Represents c.1.realm e S →
      σ.Admits (moved c e f) S (loopNotes · test update s) :=
    fun hle hS => ⟨hS, (hparts.mono hle).covers⟩
  refine (Roams.renewEnvironment hparts.represents hn).bind fun {σ e f _ _} hle hS => ?_
  refine (Roams.iterate (c := c)
    (I := fun σ e _ v w => σ.Represents c.1.realm e S ∧ σ.value v w) (fun {σ e f v w} hle' hI => ?_)
    _ ⟨hS, .undefined⟩)
  obtain ⟨hS, hv⟩ := hI
  have hround := hcovers (f := f) (World.le_trans hle hle') hS
  refine .bind_left (h.holds hround.left.left) fun hle₁ ht => ?_
  subst ht
  have hround := hround.mono hle₁
  split
  · refine .bind_left (h.lone hround.right) fun {_ x y} hle₂ hxy => ?_
    have hafter := hxy.afterRound (hv.mono (World.le_trans hle₁ hle₂))
    generalize Machine.afterRound x _ = r, Machine.afterRound y _ = r' at hafter
    cases hafter with
    | inr hxy => exact .pure (.inr hxy)
    | inl hv =>
      refine (Roams.renewEnvironment (hround.mono hle₂).represents hn).bind
        fun {σ e f _ _} hle₃ hS => ?_
      have hle := World.le_trans (World.le_trans hle hle') (World.le_trans hle₁ hle₂)
      have hupdate := (hcovers (e := e) (f := f) (World.le_trans hle hle₃) hS).left.right
      refine .bind_left (h.effect hupdate) fun hle₄ _ => ?_
      exact .pure (.inl ⟨hS.mono hle₄, hv.mono (World.le_trans hle₃ hle₄)⟩)
  · exact .pure (.inr (.ofValue (hv.mono hle₁)))

/-- The rounds of a loop without names of its own stay in the environment. -/
theorem roundsInPlace (h : m.Agree φ m') {test update : Option Expr} {s : Stmt}
    (hparts : ρ.Admits c S (loopNotes · test update s)) :
    Related ρ (K.push c) (m.rounds [] test update s) (m'.rounds [] test update s)
      fun σ x y => Completion.Rel σ x y := by
  unfold Machine.rounds
  rw [h.fuel]
  have hrenew : ∀ {σ : World}, Related σ (K.push c) (Eval.renewEnvironment [])
      (Eval.renewEnvironment []) fun _ _ _ => True := Related.pure trivial
  refine hrenew.bind fun hle _ => ?_
  refine Related.iterate (I := fun σ v w => σ.value v w) (fun hle' hv => ?_) _ .undefined
  have hround := hparts.mono (World.le_trans hle hle')
  refine (h.holds hround.left.left).bind fun hle₁ ht => ?_
  subst ht
  have hround := hround.mono hle₁
  split
  · refine (h.lone hround.right).bind fun {_ x y} hle₂ hxy => ?_
    have hafter := hxy.afterRound (hv.mono (World.le_trans hle₁ hle₂))
    generalize Machine.afterRound x _ = r, Machine.afterRound y _ = r' at hafter
    cases hafter with
    | inr hxy => exact .pure (.inr hxy)
    | inl hv =>
      refine hrenew.bind fun hle₃ _ => ?_
      refine (h.effect (hround.left.right.mono (World.le_trans hle₂ hle₃))).bind fun hle₄ _ => ?_
      exact .pure (.inl (hv.mono (World.le_trans hle₃ hle₄)))
  · exact .pure (.inr (.ofValue (hv.mono hle₁)))

/-- **Counting loops are related.** -/
theorem countingLoop (h : m.Agree φ m') {place : Span} {init : LoopInit} {test update : Option Expr}
    {s : Stmt} (he : ρ.Admits c S (Stmt.notes · (.for place init test update s))) :
    Related ρ (K.push c) (m.countingLoop init test update s)
      (m'.countingLoop init test update s) fun σ x y => Completion.Rel σ x y := by
  cases init with
  | none => exact h.roundsInPlace he
  | expression e =>
    refine (h.expression (e := e) he.left.left.left).bind fun hle _ => ?_
    exact h.roundsInPlace (((he.left.left.right.append he.left.right).append he.right).mono hle)
  | declaration d =>
    obtain ⟨hS, hn⟩ := he
    unfold Machine.countingLoop
    simp only [Stmt.notes] at hn
    -- Only a lexical head has a scope and a record of its own.
    cases hd : d.kind.isLexical with
    | false =>
      rw [hd, if_neg Bool.false_ne_true] at hn
      dsimp only
      rw [hd, if_neg Bool.false_ne_true, if_neg Bool.false_ne_true]
      have he : ρ.Admits c S fun x => declarationNotes x d ++ optionalNotes x test
          ++ optionalNotes x update ++ alone s (s.notes x) := ⟨hS, hn⟩
      refine (Related.record _).bind fun hle _ => ?_
      refine (h.declaration (he.left.left.left.mono hle) fun hl => ?_).bind fun hle₁ _ => ?_
      · rw [hd] at hl
        cases hl
      · exact h.roundsInPlace (((he.left.left.right.append he.left.right).append he.right).mono
          (World.le_trans hle hle₁))
    | true =>
      rw [hd, if_pos rfl, Filing.covers_cons] at hn
      dsimp only
      rw [hd, if_pos rfl, if_pos rfl]
      refine (Related.nestedEnvironment _ (Scope.has_ofHead d) hS).bind fun {σ e e'} hle he => ?_
      obtain ⟨he, hS, hbound⟩ := he
      refine Related.inEnvironment he fun {τ} hle₁ => ?_
      have hparts : τ.Admits (moved c e e') (Scope.ofHead d :: S) fun x =>
          declarationNotes x d ++ optionalNotes x test ++ optionalNotes x update
            ++ alone s (s.notes x) := by
        refine ⟨hS.mono hle₁, ?_⟩
        rw [(World.le_trans hle hle₁).filing]
        exact hn.2
      refine .bind_left (Related.record _) fun hle₂ _ => ?_
      refine .bind_left (h.declaration (hparts.left.left.left.mono hle₂) fun _ n hn => ?_)
        fun hle₃ _ => ?_
      · exact (World.le_trans hle₁ hle₂).isBound ⟨e', he⟩ (hbound n hn)
      · refine h.rounds (((hparts.left.left.right.append hparts.left.right).append
          hparts.right).mono (World.le_trans hle₂ hle₃)) ?_
        split
        · exact .inl rfl
        · exact .inr ⟨_, S, rfl, Scope.has_ofHead d⟩

/-! ### Loops over collections -/

/-- The first pattern of an admitted declaration is admitted. -/
theorem admits_firstPattern {d : VarDecl} (hd : ρ.Admits c S (declarationNotes · d)) :
    ρ.Admits c S (Pattern.notes · d.firstPattern) := by
  obtain ⟨span, kind, isAmbient, bs⟩ := d
  have hbs : ρ.Admits c S (bindingNotes · bs) := hd.right
  cases bs with
  | nil => exact hbs
  | cons b bs =>
    obtain ⟨p, i⟩ := b
    exact hbs.left.left

theorem mem_names_of_firstPattern {d : VarDecl} {n : String} (hn : n ∈ d.firstPattern.names) :
    n ∈ d.names := by
  obtain ⟨span, kind, isAmbient, bs⟩ := d
  cases bs with
  | nil => cases hn
  | cons b bs => exact List.mem_append_left _ hn

/-- The notes on a loop over a collection. -/
def loopOverNotes (x : Surroundings) (place : Span) (head : LoopHead) (e : Expr) (s : Stmt) :
    List Note :=
  eachNotes x place head (e.notes ·) (headNotes · head) fun x => alone s (s.notes x)

/-- What a loop over a collection consists of is admitted inside the names that its head declares
for it. -/
theorem admits_inHead {place : Span} {d : VarDecl} {e : Expr} {s : Stmt}
    (hd : d.kind.isLexical = true)
    (he : ρ.Admits c S (loopOverNotes · place (.declaration d) e s)) {σ : World} (hle : ρ ≤ σ)
    {i j : EnvironmentId} (hS : σ.Represents c.1.realm i (Scope.ofHead d :: S)) :
    σ.Admits (moved c i j) (Scope.ofHead d :: S) fun x =>
      e.notes x ++ declarationNotes x d ++ alone s (s.notes x) := by
  obtain ⟨-, hn⟩ := he
  simp only [loopOverNotes, eachNotes, LoopHead.lexical?, hd, if_true] at hn
  rw [Filing.covers_cons] at hn
  refine ⟨hS, ?_⟩
  rw [hle.filing]
  exact hn.2

/-- What a loop over a collection consists of is admitted where the loop is, if its head declares no
names for it. -/
theorem admits_ofVar {place : Span} {d : VarDecl} {e : Expr} {s : Stmt}
    (hd : d.kind.isLexical = false)
    (he : ρ.Admits c S (loopOverNotes · place (.declaration d) e s)) :
    ρ.Admits c S fun x => e.notes x ++ declarationNotes x d ++ alone s (s.notes x) := by
  obtain ⟨hS, hn⟩ := he
  simp only [loopOverNotes, eachNotes, LoopHead.lexical?, hd, Bool.false_eq_true, if_false] at hn
  exact ⟨hS, hn⟩

/-- **The body of a loop is run for a value where the names of the head are.** -/
theorem round (h : m.Agree φ m') {place : Span} {head : LoopHead} {e : Expr} {s : Stmt}
    (he : ρ.Admits c S (loopOverNotes · place head e s)) (hv : ρ.value v w) :
    Related ρ (K.push c) (m.round head s v) (m'.round head s w)
      fun σ x y => Completion.Rel σ x y := by
  cases head with
  | target t =>
    have he : ρ.Admits c S fun x => e.notes x ++ t.notes x ++ alone s (s.notes x) := he
    exact (h.run (.assign he.left.right hv)).bind fun hle _ => h.lone (he.right.mono hle)
  | declaration d =>
    unfold Machine.round
    dsimp only
    -- Only a lexical head has a scope and a record of its own.
    cases hd : d.kind.isLexical with
    | false =>
      have he := admits_ofVar hd he
      rw [if_neg Bool.false_ne_true, if_neg Bool.false_ne_true]
      exact (h.run (.bind (.inr ⟨S, admits_firstPattern he.left.right⟩) hv .none)).bind
        fun hle _ => h.lone (he.right.mono hle)
    | true =>
      rw [if_pos rfl, if_pos rfl]
      refine (Related.nestedEnvironment _ (Scope.has_ofHead d) he.represents).bind
        fun {σ i i'} hle hi => ?_
      obtain ⟨hi, hS, hbound⟩ := hi
      refine Related.inside hi fun {τ} hle₁ => ?_
      have hle := World.le_trans hle hle₁
      have hinner := admits_inHead hd he hle (j := i') (hS.mono hle₁)
      refine (h.run (.bind (.inr ⟨_, admits_firstPattern hinner.left.right⟩) (hv.mono hle)
        (.some ⟨hle₁.environment hi, fun n hn => ?_⟩))).bind fun hle₂ _ =>
        h.lone (hinner.right.mono hle₂)
      exact hle₁.isBound ⟨i', hi⟩ (hbound n (mem_names_of_firstPattern hn))

theorem subject (h : m.Agree φ m') {place : Span} {head : LoopHead} {e : Expr} {s : Stmt}
    (he : ρ.Admits c S (loopOverNotes · place head e s)) :
    Related ρ (K.push c) (m.subject head e) (m'.subject head e) fun σ v w => σ.value v w := by
  cases head with
  | target t =>
    have he : ρ.Admits c S fun x => e.notes x ++ t.notes x ++ alone s (s.notes x) := he
    exact h.expression he.left.left
  | declaration d =>
    unfold Machine.subject LoopHead.lexical?
    dsimp only
    cases hd : d.kind.isLexical with
    | false =>
      rw [if_neg Bool.false_ne_true]
      exact h.expression (admits_ofVar hd he).left.left
    | true =>
      rw [if_pos rfl]
      refine (Related.nestedEnvironment _ (Scope.has_ofHead d) he.represents).bind
        fun {σ i i'} hle hi => ?_
      obtain ⟨hi, hS, -⟩ := hi
      refine Related.inside hi fun {τ} hle₁ => ?_
      exact h.expression (admits_inHead hd he (World.le_trans hle hle₁) (j := i')
        (hS.mono hle₁)).left.left

theorem forEach (h : m.Agree φ m') {place : Span} {head : LoopHead} {e : Expr} {s : Stmt}
    (he : ρ.Admits c S (loopOverNotes · place head e s)) {x y : Walk} (hxy : Walk.Rel ρ x y) :
    Related ρ (K.push c) (m.forEach head s x) (m'.forEach head s y)
      fun σ x y => Completion.Rel σ x y := by
  unfold Machine.forEach
  rw [h.fuel]
  refine Related.iterate (I := fun σ p q => Walk.Rel σ p.1 q.1 ∧ σ.value p.2 q.2)
    (fun {σ p q} hle hI => ?_) _ ⟨hxy, .undefined⟩
  obtain ⟨x, v⟩ := p
  obtain ⟨y, w⟩ := q
  obtain ⟨hxy, hv⟩ := hI
  refine (Related.nextOf hxy).bind fun {τ r r'} hle₁ hr => ?_
  obtain ⟨item, x⟩ := r
  obtain ⟨item', y⟩ := r'
  obtain ⟨hitem, hxy⟩ := hr
  change τ.value? item item' at hitem
  cases hitem with
  | none => exact .pure (.inr (.ofValue (hv.mono hle₁)))
  | some hitem =>
    refine (h.round (he.mono (World.le_trans hle hle₁)) hitem).bind fun {_ a b} hle₂ hab => ?_
    have hafter := hab.afterRound (hv.mono (World.le_trans hle₁ hle₂))
    generalize Machine.afterRound a _ = r, Machine.afterRound b _ = r' at hafter
    cases hafter with
    | inl hv => exact .pure (.inl ⟨hxy.mono hle₂, hv⟩)
    | inr hab => exact .pure (.inr hab)

theorem loopKeys (hv : ρ.value v w) :
    Related ρ K (Machine.loopKeys v) (Machine.loopKeys w) fun σ vs ws => σ.values vs ws := by
  cases hv with
  | object ho => exact .keysOf ho
  | text t => exact .pure (List.map_same (fun i => .text _) _)
  | _ => exact .pure .nil

theorem forIn (h : m.Agree φ m') {place : Span} {head : LoopHead} {e : Expr} {s : Stmt}
    (he : ρ.Admits c S (loopOverNotes · place head e s)) :
    Related ρ (K.push c) (m.forIn head e s) (m'.forIn head e s)
      fun σ x y => Completion.Rel σ x y := by
  refine (h.subject he).bind fun hle hv => ?_
  rw [hv.isNullish]
  split
  · exact .pure (.ofValue .undefined)
  refine (loopKeys hv).bind fun hle₁ hvs => ?_
  refine (Related.allocateArray (.ofList hvs)).bind fun hle₂ ho => ?_
  exact h.forEach (he.mono (World.le_trans hle (World.le_trans hle₁ hle₂))) (.elements ho 0)

theorem forOf (h : m.Agree φ m') {place : Span} {head : LoopHead} {e : Expr} {s : Stmt}
    (he : ρ.Admits c S (loopOverNotes · place head e s)) :
    Related ρ (K.push c) (m.forOf head e s) (m'.forOf head e s)
      fun σ x y => Completion.Rel σ x y := by
  refine (h.subject he).bind fun hle hv => ?_
  refine (Related.startWalk hv).bind fun hle₁ hw => ?_
  exact h.forEach (he.mono (World.le_trans hle hle₁)) hw

/-! ### Statements -/

/-- **Statements that have a meaning are run in related ways.** -/
theorem perform (h : m.Agree φ m') {s : Stmt} (hs : ρ.Admits c S (Stmt.notes · s))
    (hb : ∀ n ∈ s.lexicalNames, ρ.isBound c.1.environment n) (hsupported : s.isUnsupported = false) :
    Related ρ (K.push c) (m.perform s) (m'.perform s) fun σ x y => Completion.Rel σ x y := by
  have hempty : Completion.Rel ρ .empty .empty := ⟨rfl, .none⟩
  obtain ⟨hS, hn⟩ := hs
  cases s with
  | empty | function | typeAlias | interface => exact .pure hempty
  | expression s e => exact (h.expression (e := e) ⟨hS, hn⟩).bind fun _ hv => .pure (.ofValue hv)
  | declaration d =>
    have hd : ρ.Admits c S (declarationNotes · d) := by
      refine ⟨hS, ?_⟩
      simp only [Stmt.notes] at hn
      rwa [show (d.kind == .using || d.kind == .awaitUsing) = false from hsupported] at hn
    refine (h.declaration hd fun hl n hn => hb n ?_).bind fun _ _ => .pure ⟨rfl, .none⟩
    unfold Stmt.lexicalNames
    dsimp only
    rwa [if_pos hl]
  | block b => exact h.block ⟨hS, hn⟩
  | conditional place test s alternate => exact h.conditional place ⟨hS, hn⟩
  | «while» place e s => exact (h.whileLoop ⟨hS, hn⟩).bind fun _ hxy => .pure hxy.outside
  | doWhile place s e => exact (h.doLoop ⟨hS, hn⟩).bind fun _ hxy => .pure hxy.outside
  | «for» place init test update s =>
    have he : ρ.Admits c S (Stmt.notes · (.for place init test update s)) := ⟨hS, hn⟩
    exact (h.countingLoop he).bind fun _ hxy => .pure hxy.outside
  | forIn place head e s =>
    have he : ρ.Admits c S (loopOverNotes · place head e s) := ⟨hS, hn⟩
    exact (h.forIn he).bind fun _ hxy => .pure hxy.outside
  | forOf place isAwait head e s =>
    have he : ρ.Admits c S (loopOverNotes · place head e s) := by
      refine ⟨hS, ?_⟩
      simp only [Stmt.notes] at hn
      rwa [show isAwait = false from hsupported] at hn
    exact (h.forOf he).bind fun _ hxy => .pure hxy.outside
  | switch place e cs => exact (h.switch ⟨hS, hn⟩).bind fun _ hxy => .pure hxy.outside
  | «try» place b handler finalizer => exact h.attempt ⟨hS, hn⟩
  | «return» place e =>
    cases e with
    | none => exact .pure ⟨rfl, .some .undefined⟩
    | some e => exact (h.expression (e := e) ⟨hS, hn⟩).bind fun _ hv => .pure ⟨rfl, .some hv⟩
  | throw place e => exact (h.expression (e := e) ⟨hS, hn⟩).bind fun _ hv => .throw hv
  | «break» => exact .pure ⟨rfl, .none⟩
  | «continue» => exact .pure ⟨rfl, .none⟩
  | labelled => exact .unsupported _ _
  | foreign => exact .unsupported _ _

/-- **Running an admitted statement is related.** -/
theorem evaluateStatement (h : m.Agree φ m') {s : Stmt} (hs : ρ.Admits c S (Stmt.notes · s))
    (hb : ∀ n ∈ s.lexicalNames, ρ.isBound c.1.environment n) :
    Related ρ (K.push c) (m.evaluateStatement s) (m'.evaluateStatement s)
      fun σ x y => Completion.Rel σ x y := by
  have hother : Related ρ (K.push c)
      (do
        record (.evaluate s.node s.span)
        if s.isUnsupported then unsupported s.kind s.span else m.perform s)
      (do
        record (.evaluate s.node s.span)
        if s.isUnsupported then unsupported s.kind s.span else m'.perform s)
      fun σ x y => Completion.Rel σ x y := by
    refine .inKnown fun hc => (Related.record _).bind fun hle _ => ?_
    split
    · exact .unsupported _ _
    · rename_i hsupported
      exact h.perform (hs.mono hle) (fun n hn => hle.isBound ⟨_, hc⟩ (hb n hn))
        (Bool.not_eq_true _ ▸ hsupported)
  cases s with
  | block b => exact h.block hs
  | _ => exact hother

end Machine.Agree

end Scriptlet
