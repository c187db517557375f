import Scriptlet.Proofs.Declaring

/-!
# Statements give values to the names of their list only

A statement gives values to the names that it declares for the list it belongs to; what it declares
inside of itself belongs to environments that it makes.  So the statements of a list give a value to each
of its names once, if no two of them declare the same one.

## Main definitions

* `Eval.Gives` — what a computation results in, if it comes to its end.

## Main results

* `Machine.gives_selected` — the clauses that a switch runs are all of those from one of them on.
* `Machine.IsLawful.block`, `Machine.IsLawful.countingLoop`, `Machine.IsLawful.switch` — statements that
  make environments for their names.
* `Machine.IsLawful.evaluateStatement` — **a statement gives values to the names that it declares for its
  list, and to no other ones**.
-/

namespace Scriptlet

open Eval

/-! ### The clauses that are run -/

/-- What the computation results in is as said. -/
def Eval.Gives {α : Type} (p : Eval α) (P : α → Prop) : Prop := ∀ a x b, p a = .ok x b → P x

namespace Eval.Gives

variable {α β : Type} {p : Eval α} {f : α → Eval β} {P : α → Prop} {Q : β → Prop}

theorem pure {x : α} (hx : P x) : Gives (pure x) P := by
  rintro a y b hy
  cases hy
  exact hx

theorem bind (h : Gives p P) (hf : ∀ x, P x → Gives (f x) Q) : Gives (p >>= f) Q := by
  intro a y c hy
  cases hp : p a with
  | error i b =>
    rw [bind_error hp] at hy
    cases hy
  | ok x b =>
    rw [bind_ok hp] at hy
    exact hf x (h a x b hp) b y c hy

theorem any (p : Eval α) : Gives p fun _ => True := fun _ _ _ _ => trivial

end Eval.Gives

namespace Machine

variable (m : Machine) (v : Value)

/-- The clauses from one of them on. -/
theorem gives_select (cs : List Case) : Gives (m.select v cs) (· <:+ cs) := by
  induction cs with
  | nil => exact .pure (List.suffix_refl _)
  | cons c cs ih =>
    have hrest : Gives (m.select v cs) (· <:+ c :: cs) := fun a x b hx =>
      (ih a x b hx).trans (List.suffix_cons c cs)
    unfold Machine.select
    split
    · exact hrest
    · refine (Gives.any _).bind fun w _ => ?_
      split
      · exact .pure (List.suffix_refl _)
      · exact hrest

/-- The clauses that are run are all of those from one of them on. -/
theorem gives_selected (cs : List Case) : Gives (m.selected v cs) (· <:+ cs) := by
  have hparts := List.takeWhile_append_dropWhile (p := fun c : Case => c.test.isSome) (l := cs)
  unfold Machine.selected
  refine (m.gives_select v _).bind fun chosen hchosen => ?_
  generalize cs.dropWhile (·.test.isSome) = left at hparts ⊢
  match chosen, left with
  | c :: rest, left =>
    refine .pure ?_
    rw [← hparts]
    exact List.suffix_append_self_iff.mpr hchosen
  | [], [] => exact .pure List.nil_suffix
  | [], fallback :: after =>
    have hleft : fallback :: after <:+ cs := hparts ▸ List.suffix_append ..
    refine (m.gives_select v after).bind fun chosen hchosen => ?_
    split
    · exact .pure hleft
    · exact .pure (hchosen.trans ((List.suffix_cons ..).trans hleft))

end Machine

/-- The names of some of the last clauses are declared once, if those of all are. -/
theorem casesDeclareOnce_of_suffix {cs ds : List Case} (h : ds <:+ cs)
    (hcs : casesDeclareOnce cs = true) : casesDeclareOnce ds = true := by
  obtain ⟨before, rfl⟩ := h
  induction before with
  | nil => exact hcs
  | cons c before ih =>
    obtain ⟨test, ss⟩ := c
    rw [List.cons_append, casesDeclareOnce, Bool.and_eq_true] at hcs
    exact ih hcs.2

theorem lexicalNames_sublist_of_suffix {cs ds : List Case} (h : ds <:+ cs) :
    (lexicalNames (ds.flatMap (·.statements))).Sublist (lexicalNames (cs.flatMap (·.statements))) := by
  obtain ⟨before, rfl⟩ := h
  unfold lexicalNames
  rw [List.flatMap_append, List.flatMap_append]
  exact List.sublist_append_right ..

theorem VarDecl.names_firstPattern_sublist (d : VarDecl) : d.firstPattern.names.Sublist d.names := by
  obtain ⟨span, kind, isAmbient, bs⟩ := d
  cases bs with
  | nil => exact List.nil_sublist _
  | cons b bs => exact List.sublist_append_left ..

theorem VarDecl.lexicalNames_declaration_sublist (d : VarDecl) :
    (Stmt.declaration d).lexicalNames.Sublist d.names := by
  unfold Stmt.lexicalNames
  dsimp only
  split
  · exact List.Sublist.refl _
  · exact List.nil_sublist _

namespace Machine.IsLawful

variable {G : Prop} {m : Machine} (h : m.IsLawful)

include h

/-! ### Statements -/

theorem statementsFrom (ss : List Stmt) (v : Option Value) :
    Fills innermost 0 (statementsDeclareOnce ss = true ∧ (lexicalNames ss).Nodup) (lexicalNames ss)
      (m.statementsFrom ss v) := by
  induction ss generalizing v with
  | nil => exact .of_quiet (.pure _) _
  | cons s ss ih =>
    have hnames : lexicalNames (s :: ss) = s.lexicalNames ++ lexicalNames ss := List.flatMap_cons
    rw [hnames, statementsDeclareOnce, Bool.and_eq_true, List.nodup_append]
    refine Fills.bind ((h.statement s).given fun hg => ⟨hg.1.1, hg.2.1⟩) (fun c => ?_)
      fun hg n hn hn' => hg.2.2.2 n hn n hn' rfl
    dsimp only
    split
    · exact .of_quiet (.pure _) _
    · exact (ih _).given fun hg => ⟨hg.1.2, hg.2.2.1⟩

/-- **A block gives values to names of its own only.** -/
theorem block (b : Block) : Quiet 0 (blockDeclaresOnce b = true) (m.block b) := by
  unfold Machine.block
  refine Quiet.bind (Law.record (L := quiet _) _) fun _ => ?_
  split
  · exact .pure _
  · refine Quiet.scopeAt_bind ?_
    refine ((opens_blockEnvironment b.statements).given fun hb => ?_).inside
      (E := fun _ => innermost) innermost_iff
      fun e => (h.statementsFrom b.statements none).roam.given fun hb => ?_
    · exact (blockDeclaresOnce_iff.mp hb).1
    · obtain ⟨hnames, hss⟩ := blockDeclaresOnce_iff.mp hb
      exact ⟨hss, (namesOnce_iff.mp hnames).1⟩

/-- A statement that does not belong to a list. -/
theorem lone {s : Stmt} (hs : G → s.isLone = true ∧ s.declaresOnce = true) :
    Quiet 0 G (m.run (.statement s)) :=
  (h.statement s).quiet fun hg => by
    have hnames := Stmt.isLone_iff.mp (hs hg).1
    exact ⟨⟨(hs hg).2, hnames ▸ List.nodup_nil⟩, hnames⟩

theorem handle (c : Handler) (v : Value) :
    Quiet 0 (handlerDeclaresOnce (some c) = true) (m.handle c v) := by
  obtain ⟨span, parameter, b⟩ := c
  rw [handlerDeclaresOnce, Bool.and_eq_true, decide_eq_true_iff]
  unfold Machine.handle
  refine Quiet.bind (Law.record (L := Scriptlet.quiet _) _) fun _ => ?_
  have hb : Quiet 0 ((restNames parameter).Nodup ∧ blockDeclaresOnce b = true) (m.block b) :=
    (h.block b).given And.right
  cases parameter with
  | none => exact hb
  | some p =>
    refine ((opens_nestedEnvironment false p.names).given And.left).inside
      (E := fun e => certain e) (fun _ => Iff.rfl) fun e => ?_
    exact (((h.bind p v e).given And.left).bind_left fun _ => hb).roam

/-- The names of the head of a loop have no value while its collection is looked for. -/
theorem subject (head : LoopHead) (e : Expr) :
    Quiet 0 (head.declaresOnce = true) (m.subject head e) := by
  have he : ∀ G, Quiet 0 G (m.expression e) := fun G => Law.expression (h.obeys G) e
  unfold Machine.subject
  cases hd : head.lexical? with
  | none => exact he _
  | some d =>
    exact ((opens_nestedEnvironment false d.names).given (LoopHead.nodup_names hd)).inside
      (E := fun _ => innermost) innermost_iff fun i => (Fills.of_quiet (he _) _).roam

/-! ### Loops -/

/-- The rounds of a counting loop. -/
theorem rounds {k : Nat} {names : List String} {s : Stmt} (test update : Option Expr)
    (hrenew : Quiet k G (renewEnvironment names)) (hs : G → s.isLone = true ∧ s.declaresOnce = true) :
    Quiet k G (m.rounds names test update s) := by
  have hbody := h.lone hs
  refine hrenew.bind fun _ => Quiet.iterate (fun v => ?_) _ _
  refine Quiet.bind (Quiet.roam (Law.holds (h.obeys G) test)) fun goesOn => ?_
  split
  · refine hbody.roam.bind fun c => ?_
    split
    · exact .pure _
    · refine hrenew.bind fun _ => Quiet.bind (Quiet.roam (Law.effect (h.obeys G) update)) fun _ => .pure _
  · exact .pure _

/-- **A counting loop** has its variables in environments of its own. -/
theorem countingLoop {init : LoopInit} {s : Stmt} (test update : Option Expr)
    (hs : G → init.declaresOnce = true ∧ s.isLone = true ∧ s.declaresOnce = true) :
    Quiet 0 G (m.countingLoop init test update s) := by
  have hrounds : Quiet 0 G (m.rounds [] test update s) :=
    h.rounds test update (.pure ()) fun hg => (hs hg).2
  cases init with
  | none => exact hrounds
  | expression e => exact Quiet.bind (Law.expression (h.obeys G) e) fun _ => hrounds
  | declaration d =>
    have hrecord := fun k => Quiet.roam (k := k)
      (Law.record (L := quiet G) (.evaluate "VariableDeclaration" d.span))
    have hdeclaration := h.declaration d
    unfold Machine.countingLoop
    dsimp only
    split
    · next hkind =>
      have hnames : G → d.names.Nodup := fun hg => VarDecl.nodup_names hkind (hs hg).1
      have hsub := d.lexicalNames_declaration_sublist
      refine ((opens_nestedEnvironment _ d.names).given hnames).inside (E := fun _ => innermost)
        innermost_iff fun e => .bind_right (hrecord 0) fun _ => ?_
      refine ((hdeclaration.given fun hg => (hnames hg).sublist hsub).subset fun _ => hsub.subset).bind_left
        fun _ => h.rounds test update ?_ fun hg => (hs hg).2
      split
      -- Constants are not renewed.
      · exact .pure ()
      · exact (Quiet.renewEnvironment _).given hnames
    · next hkind =>
      refine (hrecord 0).bind fun _ => (hdeclaration.quiet fun _ => ?_).bind fun _ => hrounds
      have hnone : (Stmt.declaration d).lexicalNames = [] := by
        unfold Stmt.lexicalNames
        simp [hkind]
      exact ⟨hnone ▸ List.nodup_nil, hnone⟩

/-- The body of a loop over a collection for one value. -/
theorem round {head : LoopHead} {s : Stmt} (v : Value)
    (hs : G → head.declaresOnce = true ∧ s.isLone = true ∧ s.declaresOnce = true) :
    Quiet 0 G (m.round head s v) := by
  have hbody := h.lone fun hg => (hs hg).2
  cases head with
  | target t => exact Quiet.bind ((h.assignsGiven G).assign t v) fun _ => hbody
  | declaration d =>
    unfold Machine.round
    dsimp only
    split
    · next hkind =>
      have hnames : G → d.names.Nodup := fun hg => VarDecl.nodup_names hkind (hs hg).1
      have hsub := d.names_firstPattern_sublist
      refine ((opens_nestedEnvironment _ d.names).given hnames).inside (E := fun e => certain e)
        (fun _ => Iff.rfl) fun e => ?_
      have hbind := (h.bind d.firstPattern v e).given fun hg => (hnames hg).sublist hsub
      exact ((hbind.subset fun _ => hsub.subset).bind_left fun _ => hbody).roam
    · exact Quiet.bind ((h.assignsGiven G).bind _ v) fun _ => hbody

/-! ### Clauses -/

theorem clauses (cs : List Case) (v : Value) :
    Fills innermost 0
      (casesDeclareOnce cs = true ∧ (lexicalNames (cs.flatMap (·.statements))).Nodup)
      (lexicalNames (cs.flatMap (·.statements))) (m.clauses cs v) := by
  induction cs generalizing v with
  | nil => exact .of_quiet (.pure _) _
  | cons c cs ih =>
    obtain ⟨test, ss⟩ := c
    have hnames : lexicalNames ((⟨test, ss⟩ :: cs : List Case).flatMap (·.statements))
        = lexicalNames ss ++ lexicalNames (cs.flatMap (·.statements)) := List.flatMap_append
    rw [hnames, casesDeclareOnce, Bool.and_eq_true, List.nodup_append]
    refine Fills.bind ((h.statementsFrom ss none).given fun hg => ⟨hg.1.1, hg.2.1⟩) (fun r => ?_)
      fun hg n hn hn' => hg.2.2.2 n hn n hn' rfl
    dsimp only
    split
    · exact .of_quiet (.pure _) _
    · exact (ih _).given fun hg => ⟨hg.1.2, hg.2.2.1⟩

/-- **The clauses of a switch** give values to names of their own only. -/
theorem switch (place : Span) (subject : Expr) (cs : List Case) :
    Quiet 0 (namesOnce (cs.flatMap (·.statements)) = true ∧ casesDeclareOnce cs = true)
      (m.switch place subject cs) := by
  unfold Machine.switch
  refine Quiet.bind (Law.expression (h.obeys _) subject) fun v => Quiet.scopeAt_bind ?_
  rw [Scope.ofCases_eq]
  refine ((opens_blockEnvironment _).given And.left).inside (E := fun _ => innermost) innermost_iff
    fun e => Fills.roam (.bind_right_of (Law.selected (h.obeys _) v cs) fun a ds b hds => ?_)
  have hsuffix := m.gives_selected v cs a ds b hds
  have hsub := lexicalNames_sublist_of_suffix hsuffix
  refine ((h.clauses ds .undefined).given fun hg => ?_).subset fun _ => hsub.subset
  exact ⟨casesDeclareOnce_of_suffix hsuffix hg.2, (namesOnce_iff.mp hg.1).1.sublist hsub⟩

/-! ### All statements -/

theorem tryStatement {handler : Option Handler} {finalizer : Option Block} (b : Block)
    (hs : G → blockDeclaresOnce b = true ∧ handlerDeclaresOnce handler = true
      ∧ optionalDeclaresOnce finalizer = true) : Quiet 0 G (m.attempt b handler finalizer) := by
  refine Law.attempt (L := quiet G) ((h.block b).given fun hg => (hs hg).1) ?_ ?_
  · rintro c v rfl
    exact (h.handle c v).given fun hg => (hs hg).2.1
  · rintro last rfl
    exact (h.block last).given fun hg => (hs hg).2.2

theorem conditional {consequent : Stmt} {alternate : Option Stmt} (place : Span) (test : Expr)
    (hs : G → consequent.isLone = true ∧ consequent.declaresOnce = true)
    (hs' : ∀ s, alternate = some s → G → s.isLone = true ∧ s.declaresOnce = true) :
    Quiet 0 G (m.conditional place test consequent alternate) :=
  Law.conditional (h.obeys G) test place (h.lone hs) fun s hsome => h.lone (hs' s hsome)

/-- A statement that declares no names for its list. -/
theorem perform_quiet {s : Stmt} (hs : ∀ d, s ≠ .declaration d) :
    Quiet 0 (s.declaresOnce = true) (m.perform s) := by
  have hm := h.obeys (s.declaresOnce = true)
  have houtside : ∀ {p : Eval Completion}, Quiet 0 (s.declaresOnce = true) p →
      Quiet 0 (s.declaresOnce = true) (do return (← p).outside) := fun hp => hp.bind fun _ => .pure _
  cases s with
  | declaration d => exact absurd rfl (hs d)
  | empty | function | typeAlias | interface => exact .pure _
  | expression _ e => exact Quiet.bind (Law.expression hm e) fun _ => .pure _
  | block b => exact h.block b
  | conditional place test consequent alternate =>
    cases alternate with
    | none =>
      refine h.conditional place test (fun hg => ?_) nofun
      simpa [Stmt.declaresOnce] using hg
    | some s =>
      refine h.conditional place test (fun hg => ?_) ?_
      · rw [Stmt.declaresOnce, Bool.and_eq_true, Bool.and_eq_true] at hg
        exact hg.1
      · rintro _ ⟨rfl⟩ hg
        rw [Stmt.declaresOnce, Bool.and_eq_true, Bool.and_eq_true, Bool.and_eq_true] at hg
        exact hg.2
  | «while» place test body =>
    refine houtside (Law.whileLoop hm test (h.lone fun hg => ?_))
    simpa [Stmt.declaresOnce] using hg
  | doWhile place body test =>
    refine houtside (Law.doLoop hm test (h.lone fun hg => ?_))
    simpa [Stmt.declaresOnce] using hg
  | «for» place init test update body =>
    refine houtside (h.countingLoop test update fun hg => ?_)
    simpa [Stmt.declaresOnce] using hg
  | forIn place head e body =>
    have hs : (Stmt.forIn place head e body).declaresOnce = true →
        head.declaresOnce = true ∧ body.isLone = true ∧ body.declaresOnce = true := fun hg => by
      simpa [Stmt.declaresOnce] using hg
    exact houtside (Law.forIn (L := quiet _) e (fun v => h.round v hs)
      ((h.subject head e).given fun hg => (hs hg).1))
  | forOf place isAsync head e body =>
    have hs : (Stmt.forOf place isAsync head e body).declaresOnce = true →
        head.declaresOnce = true ∧ body.isLone = true ∧ body.declaresOnce = true := fun hg => by
      simpa [Stmt.declaresOnce] using hg
    exact houtside (Law.forOf (L := quiet _) e (fun v => h.round v hs)
      ((h.subject head e).given fun hg => (hs hg).1))
  | switch place e cs =>
    refine houtside ((h.switch place e cs).given fun hg => ?_)
    simpa [Stmt.declaresOnce] using hg
  | «try» place b handler finalizer =>
    refine h.tryStatement b fun hg => ?_
    simpa [Stmt.declaresOnce, and_assoc] using hg
  | «return» place e =>
    cases e with
    | none => exact .pure _
    | some e => exact Quiet.bind (Law.expression hm e) fun _ => .pure _
  | throw place e => exact Quiet.bind (Law.expression hm e) fun _ => .throw _
  | «break» | «continue» => exact .pure _
  | labelled | foreign => exact Law.unsupported (L := quiet _) _ _

theorem perform (s : Stmt) : Fills innermost 0 (s.declaresOnce = true ∧ s.lexicalNames.Nodup)
    s.lexicalNames (m.perform s) := by
  by_cases hd : ∃ d, s = .declaration d
  · obtain ⟨d, rfl⟩ := hd
    exact ((h.declaration d).given And.right).bind_left fun _ => .pure _
  · have hs := h.perform_quiet fun d hs => hd ⟨d, hs⟩
    exact .of_quiet (hs.given And.left) _

/-- **A statement gives values to the names that it declares for its list**, and to no other ones. -/
theorem evaluateStatement (s : Stmt) :
    Fills innermost 0 (s.declaresOnce = true ∧ s.lexicalNames.Nodup) s.lexicalNames
      (m.evaluateStatement s) := by
  have hrest : Fills innermost 0 (s.declaresOnce = true ∧ s.lexicalNames.Nodup) s.lexicalNames (do
      record (.evaluate s.node s.span)
      if s.isUnsupported then unsupported s.kind s.span else m.perform s) := by
    refine .bind_right (Law.record (L := quiet _) _) fun _ => ?_
    split
    · exact .of_quiet (Law.unsupported (L := quiet _) _ _) _
    · exact h.perform s
  cases s with
  | block b => exact .of_quiet ((h.block b).given fun hg => by simpa [Stmt.declaresOnce] using hg.1) _
  | _ => exact hrest

end Machine.IsLawful

end Scriptlet
