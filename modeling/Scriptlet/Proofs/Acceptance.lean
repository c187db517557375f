import Scriptlet.Proofs.Survivors

/-!
# Acceptance

A root is accepted if the analysis finds no fault in it, and the faults are asynchronous functions,
generators, arrow functions with statements in a root that is an expression, and, if it is asked for,
variables that belong to functions.  The analysis does not enter what cannot be evaluated, and names
and functions are collected from statements on other ways than its own.  Evaluation comes only to what
the analysis has entered, though: no closure is made of a function with a fault, and no declaration
with one is run.

## Main definitions

* `Note.OnlyArrows` — without faults, the noted functions are arrow functions.
* `Stmt.declarations` — the declarations that a statement runs itself.
* `Filing.Accepts` — the functions that an accepted root may have.
* `Agent.HasAccepted`, `Condition.acceptance` — all closures are of accepted functions, and what is
  evaluated has been looked at.

## Main results

* `Expr.onlyArrows` — **an expression without faults has arrow functions only**.
* `Agrees.hasAccepted` — **agents of a session have closures of accepted functions only**.
* `acceptance_complete` — **what is refused in a root is never evaluated**.
-/

namespace Scriptlet

open Eval Relation

/-! ### Expressions without faults -/

/-- The functions that are noted are arrow functions, or there is a fault. -/
def Note.OnlyArrows (ns : List Note) : Prop :=
  (∀ f, .fault f ∉ ns) → ∀ n ∈ ns, ∀ f, n.function? = some f → f.form = .arrow

namespace Note.OnlyArrows

variable {n : Note} {ns ms : List Note}

theorem nil : OnlyArrows [] := fun _ _ hn => absurd hn List.not_mem_nil

theorem append (h : OnlyArrows ns) (h' : OnlyArrows ms) : OnlyArrows (ns ++ ms) := by
  intro hfault n hn
  rcases List.mem_append.mp hn with hn | hn
  · exact h (fun f hf => hfault f (List.mem_append_left _ hf)) n hn
  · exact h' (fun f hf => hfault f (List.mem_append_right _ hf)) n hn

theorem cons (hn : ∀ f, n.function? = some f → f.form = .arrow) (h : OnlyArrows ns) :
    OnlyArrows (n :: ns) := by
  intro hfault m hm
  rcases List.mem_cons.mp hm with rfl | hm
  · exact hn
  · exact h (fun f hf => hfault f (List.mem_cons_of_mem _ hf)) m hm

theorem single (hn : ∀ f, n.function? = some f → f.form = .arrow) : OnlyArrows [n] := nil.cons hn

theorem of_fault {f : Fault} (h : .fault f ∈ ns) : OnlyArrows ns := fun hfault =>
  absurd h (hfault f)

theorem kindNotes (r : Rules) (f : Function) : OnlyArrows (f.kindNotes r) := by
  unfold Function.kindNotes
  refine append (append ?_ ?_) ?_
  · split
    · exact single nofun
    · exact nil
  · split
    · exact single nofun
    · exact nil
  · split
    · split
      · exact single nofun
      · exact nil
    · exact nil

end Note.OnlyArrows

open Note.OnlyArrows

mutual

theorem Expr.onlyArrows {c : Surroundings} (hc : c.rules.expressionOnly = true) :
    (e : Expr) → Note.OnlyArrows (e.notes c)
  | .constant _ _ => nil
  | .identifier _ _ => single nofun
  | .template t => templateArrows hc t
  | .tagged _ tag t => (tag.onlyArrows hc).append (templateArrows hc t)
  | .array _ elements => elementArrows hc elements
  | .object _ properties => propertyArrows hc properties
  | .function f => by
    unfold Expr.notes
    split
    · exact single nofun
    -- Under such rules only arrow functions are not refused.
    · next hform =>
      rw [hc, Bool.and_true, bne_iff_ne, not_not] at hform
      refine (functionArrows hc f hform).cons fun g hg => ?_
      cases hg
      exact hform
  | .unary _ _ operand => operand.onlyArrows hc
  -- What assigns is noted as refused, and its parts are not noted at all.
  | .update _ _ _ _ => by
    rw [Expr.notes, if_pos hc]
    exact single nofun
  | .binary _ _ left right => (left.onlyArrows hc).append (right.onlyArrows hc)
  | .logical _ _ left right => (left.onlyArrows hc).append (right.onlyArrows hc)
  | .conditional _ test consequent alternate =>
    ((test.onlyArrows hc).append (consequent.onlyArrows hc)).append (alternate.onlyArrows hc)
  | .assign _ _ _ _ => by
    rw [Expr.notes, if_pos hc]
    exact single nofun
  | .sequence _ items => expressionArrows hc items
  | .call _ callee args _ => (callee.onlyArrows hc).append (argumentArrows hc args)
  | .construct _ callee args => (callee.onlyArrows hc).append (argumentArrows hc args)
  | .member _ object _ _ => object.onlyArrows hc
  | .index _ object key _ => (object.onlyArrows hc).append (key.onlyArrows hc)
  | .privateMember _ _ _ _ => single nofun
  | .chain _ link => by
    have hlink := link.onlyArrows hc
    cases link with
    | privateMember => exact single nofun
    | _ => exact hlink
  | .wrapped _ _ content => content.onlyArrows hc
  | .foreign _ _ => single nofun

theorem expressionArrows {c : Surroundings} (hc : c.rules.expressionOnly = true) :
    (es : List Expr) → Note.OnlyArrows (expressionNotes c es)
  | [] => nil
  | e :: rest => (e.onlyArrows hc).append (expressionArrows hc rest)

theorem templateArrows {c : Surroundings} (hc : c.rules.expressionOnly = true) :
    (t : Template) → Note.OnlyArrows (templateNotes c t)
  | ⟨_, _, expressions⟩ => expressionArrows hc expressions

theorem elementArrows {c : Surroundings} (hc : c.rules.expressionOnly = true) :
    (es : List Element) → Note.OnlyArrows (elementNotes c es)
  | [] => nil
  | .hole :: rest => elementArrows hc rest
  | .item e :: rest => (e.onlyArrows hc).append (elementArrows hc rest)
  | .spread e :: rest => (e.onlyArrows hc).append (elementArrows hc rest)

theorem argumentArrows {c : Surroundings} (hc : c.rules.expressionOnly = true) :
    (as : List Argument) → Note.OnlyArrows (argumentNotes c as)
  | [] => nil
  | .item e :: rest => (e.onlyArrows hc).append (argumentArrows hc rest)
  | .spread e :: rest => (e.onlyArrows hc).append (argumentArrows hc rest)

theorem nameArrows {c : Surroundings} (hc : c.rules.expressionOnly = true) :
    (n : PropertyName) → Note.OnlyArrows (nameNotes c n)
  | .computed e => e.onlyArrows hc
  | .fixed _ | .bigInt _ => nil

theorem propertyArrows {c : Surroundings} (hc : c.rules.expressionOnly = true) :
    (ps : List Property) → Note.OnlyArrows (propertyNotes c ps)
  | [] => nil
  | .data name value :: rest =>
    ((nameArrows hc name).append (value.onlyArrows hc)).append (propertyArrows hc rest)
  | .shorthand _ _ _ :: rest => (propertyArrows hc rest).cons nofun
  | .accessor _ _ :: rest => (propertyArrows hc rest).cons nofun
  | .spread e :: rest => (e.onlyArrows hc).append (propertyArrows hc rest)

theorem optionalArrows {c : Surroundings} (hc : c.rules.expressionOnly = true) :
    (e : Option Expr) → Note.OnlyArrows (optionalNotes c e)
  | none => nil
  | some e => e.onlyArrows hc

theorem Pattern.onlyArrows {c : Surroundings} (hc : c.rules.expressionOnly = true) :
    (p : Pattern) → Note.OnlyArrows (p.notes c)
  | .identifier _ => nil
  | .array elements rest => (patternElementArrows hc elements).append (optionalPatternArrows hc rest)
  | .object properties rest =>
    (patternPropertyArrows hc properties).append (optionalPatternArrows hc rest)
  | .withDefault target initializer => (target.onlyArrows hc).append (initializer.onlyArrows hc)

theorem optionalPatternArrows {c : Surroundings} (hc : c.rules.expressionOnly = true) :
    (p : Option Pattern) → Note.OnlyArrows (optionalPatternNotes c p)
  | none => nil
  | some p => p.onlyArrows hc

theorem patternElementArrows {c : Surroundings} (hc : c.rules.expressionOnly = true) :
    (ps : List (Option Pattern)) → Note.OnlyArrows (patternElementNotes c ps)
  | [] => nil
  | none :: rest => patternElementArrows hc rest
  | some p :: rest => (p.onlyArrows hc).append (patternElementArrows hc rest)

theorem patternPropertyArrows {c : Surroundings} (hc : c.rules.expressionOnly = true) :
    (ps : List PatternProperty) → Note.OnlyArrows (patternPropertyNotes c ps)
  | [] => nil
  | ⟨name, value⟩ :: rest =>
    ((nameArrows hc name).append (value.onlyArrows hc)).append (patternPropertyArrows hc rest)

theorem bindingArrows {c : Surroundings} (hc : c.rules.expressionOnly = true) :
    (bs : List Binding) → Note.OnlyArrows (bindingNotes c bs)
  | [] => nil
  | ⟨pattern, initializer⟩ :: rest =>
    ((pattern.onlyArrows hc).append (optionalArrows hc initializer)).append (bindingArrows hc rest)

/-- An arrow function has no statements in it that are not a fault. -/
theorem functionArrows {c : Surroundings} (hc : c.rules.expressionOnly = true) :
    (f : Function) → f.form = .arrow → Note.OnlyArrows (functionNotes c f)
  | ⟨_, _, _, _, _, _, _, _, .absent⟩, _ => (Note.OnlyArrows.kindNotes _ _).append nil
  | ⟨_, _, _, _, _, _, _, _, .block s _⟩, hform => by
    cases hform
    refine Note.OnlyArrows.of_fault (f := .statementBody s) (List.mem_append_left _ ?_)
    refine List.mem_append_right _ ?_
    dsimp only
    rw [if_pos hc]
    exact List.mem_singleton.mpr rfl
  | ⟨_, _, _, _, _, _, parameters, rest, .concise e⟩, hform => by
    cases hform
    refine (Note.OnlyArrows.kindNotes _ _).append (((bindingArrows ?_ parameters).append
      (optionalPatternArrows ?_ rest)).append (Note.OnlyArrows.cons nofun (e.onlyArrows ?_)))
    all_goals exact hc

end

/-! ### Accepted functions -/

namespace Filing

variable {φ : Filing}

/-- Whether only expressions are allowed in a root that is one, and only there. -/
def IsRuled (φ : Filing) : Prop := φ.rules.expressionOnly = φ.root.isExpression

/-- The analysis has been at syntax with the given notes, and has looked at it in all of its ways. -/
def HasVisited (φ : Filing) (ns : List Note) : Prop :=
  ∀ n ∈ ns, n.isWarning = false → n ∈ φ.root.notes φ.rules

/-- The functions that an accepted root may have: they are written in it and have been looked at, none
is asynchronous or a generator, and those of an expression are arrow functions with an expression as
their body. -/
structure Accepts (φ : Filing) (f : Function) : Prop where
  isWritten : f ∈ φ.root.functions φ.rules
  isVisited : ∃ S, φ.HasVisited (f.kindNotes φ.rules ++ f.innerNotes ⟨φ.rules, S⟩)
  isAsync : f.isAsync = false
  isGenerator : f.isGenerator = false
  isArrow : φ.root.isExpression = true → f.form = .arrow ∧ ∃ e, f.body = .concise e

theorem Covers.hasVisited {ns : List Note} (h : φ.Covers ns) : φ.HasVisited ns :=
  fun n hn hw => (h n hn hw).1

theorem IsAccepted.not_fault (h : φ.IsAccepted) (f : Fault) : .fault f ∉ φ.root.notes φ.rules :=
  h.elim fun _ hs => not_fault_of_analyze hs f

/-- The functions in a root that is an expression are arrow functions. -/
theorem IsAccepted.form_eq (h : φ.IsAccepted) (hr : φ.IsRuled) (he : φ.root.isExpression = true)
    {f : Function} (hf : f ∈ φ.root.functions φ.rules) : f.form = .arrow := by
  have hfault := h.not_fault
  have honly := hr.trans he
  obtain ⟨root, rules, supplied⟩ := φ
  cases root with
  | function f => cases he
  | expression e =>
    obtain ⟨n, hn, hfunction⟩ := List.mem_filterMap.mp hf
    exact e.onlyArrows honly hfault n hn f hfunction

/-- **A function that has been looked at without finding a fault is accepted.** -/
theorem IsAccepted.accepts (h : φ.IsAccepted) (hr : φ.IsRuled) {f : Function} {S : List Scope}
    (hwritten : f ∈ φ.root.functions φ.rules) (hbody : f.isBodiless = false)
    (hkind : φ.HasVisited (f.kindNotes φ.rules))
    (hinner : φ.HasVisited (f.innerNotes ⟨φ.rules, S⟩)) : φ.Accepts f where
  isWritten := hwritten
  isVisited := ⟨S, List.forall_mem_append.mpr ⟨hkind, hinner⟩⟩
  isAsync := Bool.eq_false_iff.mpr fun hasync => h.not_fault (.asyncFunction f.span) <|
    hkind _ (by simp [Function.kindNotes, hasync]) rfl
  isGenerator := Bool.eq_false_iff.mpr fun hgenerator => h.not_fault (.generatorFunction f.span) <|
    hkind _ (by simp [Function.kindNotes, hgenerator]) rfl
  isArrow := fun he => by
    have hform := h.form_eq hr he hwritten
    refine ⟨hform, ?_⟩
    cases hb : f.body with
    | absent =>
      rw [Function.isBodiless, hb] at hbody
      cases hbody
    | concise e => exact ⟨e, rfl⟩
    | block s statements =>
      have hfault : .fault (.statementBody s) ∈ f.kindNotes φ.rules := by
        simp [Function.kindNotes, hform, hb, hr.trans he]
      exact absurd (hkind _ hfault rfl) (h.not_fault _)

end Filing

/-! ### Declarations -/

/-- The declarations of variables that a statement runs itself; those of the statements inside it are
run by these. -/
def Stmt.declarations : Stmt → List VarDecl
  | .declaration d => [d]
  | .for _ (.declaration d) _ _ _ => [d]
  | .forIn _ (.declaration d) _ _ => [d]
  | .forOf _ isAwait (.declaration d) _ _ => if isAwait then [] else [d]
  | _ => []

/-- The analysis finds the variables that belong to a function wherever a declaration of them is run. -/
theorem Stmt.functionVariable_mem {c : Surroundings} (hc : c.rules.noVar = true) {s : Stmt}
    {d : VarDecl} (hd : d ∈ s.declarations) (hvar : d.kind = .var) :
    .fault (.functionVariable d.span) ∈ s.notes c := by
  -- A `var` is noted wherever the analysis comes to its declaration; the cases are the ways to it.
  have hkind : .fault (.functionVariable d.span) ∈ declarationNotes c d := by
    obtain ⟨span, kind, isAmbient, bindings⟩ := d
    cases hvar
    refine List.mem_append_left _ ?_
    rw [VarDecl.kindNotes, hc]
    exact List.mem_singleton.mpr rfl
  -- In the head of a loop it is not lexical, so the loop adds no scope around its notes.
  have hlexical : d.kind.isLexical = false := by rw [hvar]; rfl
  have heach : ∀ place (ns ms : Surroundings → List Note),
      .fault (.functionVariable d.span)
        ∈ eachNotes c place (.declaration d) ns (headNotes · (.declaration d)) ms := by
    intro place ns ms
    rw [eachNotes, LoopHead.lexical?, if_neg (by rw [hlexical]; exact Bool.false_ne_true)]
    exact List.mem_append_left _ (List.mem_append_right _ hkind)
  unfold Stmt.declarations at hd
  split at hd
  · cases List.mem_singleton.mp hd
    rw [Stmt.notes, hvar]
    exact hkind
  · cases List.mem_singleton.mp hd
    rw [Stmt.notes, if_neg (by rw [hlexical]; exact Bool.false_ne_true)]
    exact List.mem_append_left _ (List.mem_append_left _ (List.mem_append_left _ hkind))
  · cases List.mem_singleton.mp hd
    exact heach _ _ _
  · split at hd
    · cases hd
    · next hawait =>
      cases List.mem_singleton.mp hd
      rw [Stmt.notes, if_neg hawait]
      exact heach _ _ _
  · cases hd

/-! ### Agents -/

namespace Agent

/-- All closures are of functions that the roots of their realms may have. -/
def HasAccepted (a : Agent) (φ : RealmId → Filing) : Prop :=
  ∀ o c, (a.object o).kind = .closure c →
    (∃ r, a.realms[c.realm.index]? = some r ∧ r.root = (φ c.realm).root) ∧
      (φ c.realm).Accepts c.code

/-- What is evaluated has the given notes, and the analysis of its root has been at it. -/
def HasVisited (a : Agent) (φ : RealmId → Filing) (ns : Surroundings → List Note) : Prop :=
  ∃ c ∈ a.contexts.head?, ∃ S, (φ c.realm).HasVisited (ns ⟨(φ c.realm).rules, S⟩)

/-- No variables that belong to a function are declared by a statement itself, if they are refused. -/
def AvoidsVar (a : Agent) (φ : RealmId → Filing) (s : Stmt) : Prop :=
  ∃ c ∈ a.contexts.head?, (φ c.realm).rules.noVar = true → ∀ d ∈ s.declarations, d.kind ≠ .var

/-- All closures of an agent are closures of another one, of the same functions and realms. -/
def KeepsClosures (a b : Agent) : Prop :=
  ∀ o c, (a.object o).kind = .closure c →
    ∃ d, (b.object o).kind = .closure d ∧ d.code = c.code ∧ d.realm = c.realm

end Agent

/-- If the task is about syntax, the analysis has been at it.  If it is to run a statement, this
declares nothing that is refused, and if it is to call a closure, this is of a function that its root
may have. -/
def Task.IsVisited (φ : RealmId → Filing) (a : Agent) : {α : Type} → Task α → Prop
  | _, .expression e => a.HasVisited φ (Expr.notes · e)
  | _, .name place n => a.HasVisited φ fun s => [s.use place n]
  | _, .link e => a.HasVisited φ (Expr.notes · e)
  | _, .statement s => a.HasVisited φ (Stmt.notes · s) ∧ a.AvoidsVar φ s
  | _, .assign t _ => a.HasVisited φ (Target.notes · t)
  | _, .bind p _ _ => a.HasVisited φ (Pattern.notes · p)
  | _, .call f _ _ => ∀ c, (a.object f).kind = .closure c → (φ c.realm).Accepts c.code
  | _, .primitive _ _ => True

/-- All closures are of functions that their roots may have, and what is to be done has been looked
at. -/
def Condition.acceptance (φ : RealmId → Filing) : Condition :=
  ⟨fun t a => a.HasAccepted φ ∧ t.IsVisited φ a⟩

section Agreement

variable {φ : RealmId → Filing} {ρ : World} {K : Stack φ} {a b : Agent} {c : Context × Context}
  {S : List Scope} {ns : Surroundings → List Note}

/-- **Agents of a session have closures of accepted functions only.** -/
theorem Agrees.hasAccepted (hab : Agrees ρ K a b) (hφ : ∀ r, (φ r).IsAccepted ∧ (φ r).IsRuled) :
    a.HasAccepted φ := by
  intro o c hc
  obtain ⟨d, hd⟩ := hab.closure_rel hc
  obtain ⟨x, _, hx, -, hrel⟩ := hab.realm hd.realm
  obtain ⟨S, -, hinner⟩ := hd.around
  have hroot := hrel.filed
  have hwritten := hd.isWritten
  have hkind := hd.isChecked
  rw [hab.filing] at hroot hwritten hkind hinner
  obtain ⟨haccepted, hruled⟩ := hφ c.realm
  exact ⟨⟨x, hx, hroot⟩,
    haccepted.accepts hruled hwritten hd.hasBody hkind.hasVisited hinner.hasVisited⟩

theorem Agrees.hasVisited (hab : Agrees ρ (K.push c) a b) (h : ρ.Admits c S ns) :
    a.HasVisited φ ns := by
  have hcovers := h.covers
  rw [hab.filing] at hcovers
  exact ⟨c.1, by rw [hab.contexts_left]; rfl, S, hcovers.hasVisited⟩

theorem Agrees.avoidsVar (hab : Agrees ρ (K.push c) a b) (hφ : ∀ r, (φ r).IsAccepted) {s : Stmt}
    (h : ρ.Admits c S (Stmt.notes · s)) : a.AvoidsVar φ s := by
  have hcovers := h.covers
  rw [hab.filing] at hcovers
  refine ⟨c.1, by rw [hab.contexts_left]; rfl, fun hvar d hd hkind => ?_⟩
  have hfault := hcovers.hasVisited _ (Stmt.functionVariable_mem hvar hd hkind) rfl
  exact (hφ c.1.realm).not_fault _ hfault

/-- **What is refused is not evaluated** wherever agreeing agents come to a task. -/
theorem Condition.acceptance_holds (hφ : ∀ r, (φ r).IsAccepted ∧ (φ r).IsRuled) :
    (Condition.acceptance φ).Holds φ := by
  intro α t t' ρ K a b ht hab
  have hclosures := hab.hasAccepted hφ
  refine ⟨hclosures, ?_⟩
  cases ht with
  | expression h => exact hab.hasVisited h
  | name h => exact hab.hasVisited h
  | link h => exact hab.hasVisited h
  | statement h _ => exact ⟨hab.hasVisited h, hab.avoidsVar (fun r => (hφ r).1) h⟩
  | assign h _ => exact hab.hasVisited h
  | bind h _ _ =>
    rcases h with ⟨n, rfl⟩ | ⟨S, h⟩
    · exact ⟨_, by rw [hab.contexts_left]; rfl, [], Filing.covers_nil.hasVisited⟩
    · exact hab.hasVisited h
  | call _ _ _ => exact fun d hd => (hclosures _ d hd).2
  | primitive _ => exact trivial

end Agreement

/-! ### Closures stay -/

/-- No operation on a closure makes anything else of it. -/
theorem Object.Change.closure {o x : Object} (h : o.Change x) {f : Function} {r : RealmId}
    (ho : ∃ c, o.kind = .closure c ∧ c.code = f ∧ c.realm = r) :
    ∃ c, x.kind = .closure c ∧ c.code = f ∧ c.realm = r := by
  obtain ⟨c, hkind, hc⟩ := ho
  obtain hsame | ⟨d, name, hd, hnamed⟩ := h.kind_of_not_isArray (by rw [Object.isArray, hkind])
  · exact ⟨c, hsame.trans hkind, hc⟩
  · cases hkind.symm.trans hd
    have hcode : (c.withName name).code = c.code ∧ (c.withName name).realm = c.realm := by
      unfold Closure.withName
      split <;> exact ⟨rfl, rfl⟩
    exact ⟨c.withName name, hnamed, hcode.1.trans hc.1, hcode.2.trans hc.2⟩

/-- **Closures stay**, whatever happens to the objects. -/
theorem Agent.Evolves.keepsClosures {a b : Agent} (h : a.Evolves b) : a.KeepsClosures b := by
  intro o c hc
  have hthere : a.objects[o.index]? = some (a.object o) := by
    rw [Agent.object_eq_getD] at hc ⊢
    cases hx : a.objects[o.index]? with
    | none =>
      rw [hx] at hc
      cases hc
    | some x => rfl
  obtain ⟨x, hx, hclosure⟩ := Objects.keeps_of_steps (fun ho hchange => hchange.closure ho)
    h.objects hthere ⟨c, hc, rfl, rfl⟩
  rw [Agent.object_eq_getD, hx]
  exact hclosure

/-! ### Sessions -/

/-- The rules about the roots on file are those that their kind asks for. -/
theorem isRuled_onFile (requests : List Request) (r : RealmId) : (onFile requests r).IsRuled :=
  onFile_spec (P := Filing.IsRuled) rfl (fun _ _ _ _ => rfl) r

/-- **What is refused in a root is never evaluated.**  Closures stay what they are, once they have been
made; and in a session, after whatever a host has asked for, and whenever a task starts, all of them
are of functions that the analysis has been at with its checks on: none is asynchronous or a generator,
and those of an expression are arrow functions with an expression as their body.  Nothing is evaluated
that the analysis has not been at, and if variables have to belong to blocks, no declaration of others
is run. -/
theorem acceptance_complete :
    (∀ (n : Nat) {α : Type} (t : Task α) (a : Agent), a.KeepsClosures ((Task.run n t).after a)) ∧
    (∀ (n : Nat) (r : Request) (t : Tidying) (a : Agent),
      a.KeepsClosures ((r.answer (.ofDepth n) t).after a)) ∧
    ∀ (n : Nat) (isVerbose : Bool) (requests : List (Request × Tidying)),
      (Agent.ofRequests n isVerbose requests).HasAccepted (onFile (requests.map Prod.fst)) ∧
      serve (.watching (.acceptance (onFile (requests.map Prod.fst))) n) requests (.new isVerbose)
        = serve (.ofDepth n) requests (.new isVerbose) := by
  refine ⟨fun n _ t a => (evolves_run n t a).keepsClosures,
    fun n r t a => (evolves_answer n r t a).keepsClosures, fun n isVerbose requests => ?_⟩
  have hφ : ∀ r, (onFile (requests.map Prod.fst) r).IsAccepted ∧
      (onFile (requests.map Prod.fst) r).IsRuled :=
    fun r => ⟨isAccepted_onFile _ r, isRuled_onFile _ r⟩
  obtain ⟨ρ, k, hagree⟩ := agrees_ofRequests n isVerbose requests
  exact ⟨hagree.hasAccepted hφ, (serve_watching n isVerbose (Condition.acceptance_holds hφ)).1⟩

end Scriptlet
