import Scriptlet.Proofs.Erasure
import Scriptlet.Proofs.Refusals

/-!
# What is there for types

Neither the analysis nor evaluation notices that what is there for types is erased: the analysis finds
the same names in the same scopes, and evaluation goes on behind a statement that is left out.  Of the
notes on a tree some are left out with its types, but these say nothing about names, and the others stay
in their order.

Variables that are only declared are another matter.  Evaluation does nothing with them, but they are
names of their scopes all the same, and never get a value.

## Main definitions

* `Note.Alike`, `Note.Remains` — what remains of notes.
* `Analysis.Alike` — analyses that find the same names.

## Main results

* `Expr.remains`, `Stmt.remains`, `functionRemains` — **the notes on a tree remain** without its types.
* `analyze_erase` — **the analysis does not notice that types are erased**.
* `erasure_inert` — **what is there for types does not matter**, to the analysis and to evaluation.
* `declared_hides` — a variable that is only declared hides another one of its name.
-/

namespace Scriptlet

/-! ### Notes -/

namespace Note

/-- Notes of which the second one says the same of names, with scopes without what is there for
types. -/
inductive Alike : Note → Note → Prop
  | use (place : Span) (name : String) (S : List Scope) :
    Alike (.use place name S) (.use place name (S.map Scope.erase))
  | fault (f : Fault) : Alike (.fault f) (.fault f)
  | warning (f g : Fault) : Alike (.warning f) (.warning g)
  | scope (place : Span) (s : Scope) : Alike (.scope place s) (.scope place s.erase)
  | placed (p q : Placement) : Alike (.placed p) (.placed q)

/-- Whether the note says nothing about names. -/
def isNameless : Note → Bool
  | fault _ | placed _ => true
  | _ => false

/-- The second notes are what remains of the first ones: those that are left out say nothing about
names, and the others are alike. -/
inductive Remains : List Note → List Note → Prop
  | nil : Remains [] []
  | cons {n m ns ms} (h : Alike n m) (t : Remains ns ms) : Remains (n :: ns) (m :: ms)
  | drop {n ns ms} (h : n.isNameless = true) (t : Remains ns ms) : Remains (n :: ns) ms

namespace Remains

variable {ns ms ns' ms' : List Note} {n m : Note}

theorem single (h : Alike n m) : Remains [n] [m] := nil.cons h

theorem append (h : Remains ns ms) (h' : Remains ns' ms') : Remains (ns ++ ns') (ms ++ ms') := by
  induction h with
  | nil => exact h'
  | cons h _ ih => exact ih.cons h
  | drop h _ ih => exact ih.drop h

theorem of_isNameless (h : ∀ n ∈ ns, n.isNameless = true) : Remains ns [] := by
  induction ns with
  | nil => exact nil
  | cons n ns ih =>
    exact (ih fun m hm => h m (List.mem_cons_of_mem _ hm)).drop (h n List.mem_cons_self)

/-- Faults may remain as well. -/
theorem of_faults (h : ∀ n ∈ ns, ∃ f, n = .fault f) : Remains ns ns := by
  induction ns with
  | nil => exact nil
  | cons n ns ih =>
    obtain ⟨f, rfl⟩ := h n List.mem_cons_self
    exact (ih fun m hm => h m (List.mem_cons_of_mem _ hm)).cons (.fault f)

/-- One warning is as good as another. -/
theorem warning {f : Fault} (h : Remains ns [.warning f]) (g : Fault) : Remains ns [.warning g] := by
  generalize hms : [Note.warning f] = ms at h
  induction h with
  | nil => cases hms
  | cons h t ih =>
    cases hms
    cases h
    exact t.cons (.warning _ g)
  | drop h _ ih => exact (ih hms).drop h

/-- What depends on names only is known from the notes that remain. -/
theorem filterMap_eq {α : Type} {g g' : Note → Option α} (h : Remains ns ms)
    (halike : ∀ {n m}, Alike n m → g' m = g n) (hfault : ∀ f, g (.fault f) = none)
    (hplaced : ∀ p, g (.placed p) = none) : ms.filterMap g' = ns.filterMap g := by
  induction h with
  | nil => rfl
  | cons h _ ih => rw [List.filterMap_cons, List.filterMap_cons, halike h, ih]
  | @drop n _ _ h _ ih =>
    have hnone : g n = none := by
      cases n with
      | fault f => exact hfault f
      | placed p => exact hplaced p
      | _ => cases h
    rw [List.filterMap_cons, hnone, ih]

/-- No fault is new. -/
theorem fault_mem (h : Remains ns ms) {f : Fault} (hf : .fault f ∈ ms) : .fault f ∈ ns := by
  induction h with
  | nil => cases hf
  | cons h _ ih =>
    rcases List.mem_cons.mp hf with rfl | hf
    · cases h
      exact List.mem_cons_self
    · exact List.mem_cons_of_mem _ (ih hf)
  | drop _ _ ih => exact List.mem_cons_of_mem _ (ih hf)

end Remains

end Note

open Note.Remains

/-- A chain has the notes of its link, or a warning instead of another one. -/
theorem Expr.notes_chain (c : Surroundings) (s : Span) (e : Expr) :
    (Expr.chain s e).notes c = e.notes c ∨
      ∃ f g, e.notes c = [.warning f] ∧ (Expr.chain s e).notes c = [.warning g] := by
  cases e with
  | privateMember => exact .inr ⟨_, _, rfl, rfl⟩
  | _ => exact .inl rfl

theorem Wrapper.notes_around (w : Wrapper) (c : Surroundings) (s : Span) (e : Expr) :
    (w.around s e).notes c = e.notes c := by
  unfold Wrapper.around
  split <;> rfl

/-- The notes on the way in which a function is written are faults. -/
theorem Function.fault_of_kindNotes {r : Rules} {f : Function} {n : Note} (h : n ∈ f.kindNotes r) :
    ∃ x, n = .fault x := by
  have hsingle : ∀ {p : Prop} [Decidable p] {x : Fault}, n ∈ (if p then [Note.fault x] else []) →
      ∃ x, n = .fault x := by
    intro p _ x hn
    split at hn
    · exact ⟨x, List.mem_singleton.mp hn⟩
    · cases hn
  unfold Function.kindNotes at h
  rcases List.mem_append.mp h with h | h
  · rcases List.mem_append.mp h with h | h
    · exact hsingle h
    · exact hsingle h
  · split at h
    · exact hsingle h
    · cases h

/-- The notes on a statement that is there for types say nothing about names. -/
theorem Stmt.remains_of_isTypeOnly {s : Stmt} (h : s.isTypeOnly = true) (c : Surroundings) :
    Note.Remains (s.notes c) [] := by
  cases s with
  | typeAlias | interface => exact .nil
  | function f =>
    obtain ⟨_, _, _, _, _, _, _, _, body⟩ := f
    cases body with
    | absent =>
      refine .of_isNameless fun n hn => ?_
      rcases List.mem_cons.mp hn with rfl | hn
      · rfl
      · rcases List.mem_append.mp hn with hn | hn
        · obtain ⟨x, rfl⟩ := Function.fault_of_kindNotes hn
          rfl
        · cases hn
    | block | concise => cases h
  | _ => cases h

theorem aloneRemains (s : Stmt) {ns ms : List Note} (h : Note.Remains ns ms) :
    Note.Remains (alone s ns) (alone s.erase ms) := h.cons (.placed _ _)

/-- The notes on a loop over a collection remain if those on its parts do. -/
theorem eachRemains (c : Surroundings) (place : Span) (head : LoopHead)
    {subject headed body subject' headed' body' : Surroundings → List Note}
    (hsubject : ∀ c, Note.Remains (subject c) (subject' c.erase))
    (hheaded : ∀ c, Note.Remains (headed c) (headed' c.erase))
    (hbody : ∀ c, Note.Remains (body c) (body' c.erase)) :
    Note.Remains (eachNotes c place head subject headed body)
      (eachNotes c.erase place (eraseHead head) subject' headed' body') := by
  have hparts := fun c => ((hsubject c).append (hheaded c)).append (hbody c)
  cases head with
  | target t => exact hparts c
  | declaration x =>
    unfold eachNotes eraseHead LoopHead.lexical?
    dsimp only
    rw [x.kind_erase]
    cases x.kind.isLexical with
    | false => exact hparts c
    | true =>
      rw [if_pos rfl, if_pos rfl]
      dsimp only
      rw [Scope.ofHead_erase]
      exact (hparts (c.inside (Scope.ofHead x))).cons (.scope place _)

/-- The notes on a function remain if those on its parts do. -/
theorem functionRemains_of (c : Surroundings) (f : Function)
    (hparameters : ∀ c : Surroundings,
      Note.Remains (bindingNotes c f.parameters) (bindingNotes c.erase f.erase.parameters))
    (hrest : ∀ c : Surroundings,
      Note.Remains (optionalPatternNotes c f.rest) (optionalPatternNotes c.erase f.erase.rest))
    (hbody : ∀ c : Surroundings,
      Note.Remains (bodyNotes c f.body) (bodyNotes c.erase f.erase.body)) :
    Note.Remains (functionNotes c f) (functionNotes c.erase f.erase) := by
  -- Faults come from the kind of the function and from its parts, each of which erasure keeps.
  have hkind : Note.Remains (f.kindNotes c.rules) (f.erase.kindNotes c.rules) := by
    rw [f.kindNotes_erase]
    exact .of_faults fun n hn => Function.fault_of_kindNotes hn
  have hinner : ∀ c : Surroundings,
      Note.Remains (f.innerNotes c) (f.erase.innerNotes c.erase) := by
    intro c
    have hspan : f.erase.span = f.span := by
      obtain ⟨_, _, _, _, _, _, _, _, _⟩ := f
      rfl
    unfold Function.innerNotes
    rw [hspan, Scope.ofParameters_erase, Scope.ofFunction_erase]
    exact ((hparameters (c.inside (Scope.ofParameters f))).append
      (hrest (c.inside (Scope.ofParameters f)))).append
        ((hbody (c.inside (Scope.ofFunction f))).cons (.scope f.span _))
  cases hbodiless : f.isBodiless with
  | false =>
    rw [functionNotes_eq _ hbodiless, functionNotes_eq _ (f.isBodiless_erase.trans hbodiless),
      c.insideName_erase]
    exact hkind.append (hinner _)
  | true =>
    obtain ⟨_, _, _, _, _, _, _, _, body⟩ := f
    cases body with
    | absent => exact hkind.append .nil
    | block | concise => cases hbodiless

mutual

/-- **The notes on an expression remain** without what is there for types. -/
theorem Expr.remains (c : Surroundings) :
    (e : Expr) → Note.Remains (e.notes c) (e.erase.notes c.erase)
  | .constant _ _ => nil
  | .identifier s n => single (.use s n c.scopes)
  | .template t => templateRemains c t
  | .tagged _ tag t => (tag.remains c).append (templateRemains c t)
  | .array _ elements => elementRemains c elements
  | .object _ properties => propertyRemains c properties
  | .function f => by
    have hf := functionRemains c f
    obtain ⟨_, form, _, _, _, _, _, _, _⟩ := f
    unfold Expr.erase Expr.notes
    change Note.Remains _ (if form != .arrow && c.rules.expressionOnly then _ else _)
    dsimp only
    split
    · exact single (.warning _ _)
    · exact hf.cons (.placed _ _)
  | .unary _ _ operand => operand.remains c
  | .update _ _ _ target => by
    unfold Expr.erase Expr.notes
    change Note.Remains _ (if c.rules.expressionOnly then _ else _)
    split
    · exact single (.warning _ _)
    · exact target.remains c
  | .binary _ _ left right => (left.remains c).append (right.remains c)
  | .logical _ _ left right => (left.remains c).append (right.remains c)
  | .conditional _ test consequent alternate =>
    ((test.remains c).append (consequent.remains c)).append (alternate.remains c)
  | .assign _ _ target value => by
    unfold Expr.erase Expr.notes
    change Note.Remains _ (if c.rules.expressionOnly then _ else _)
    split
    · exact single (.warning _ _)
    · exact (target.remains c).append (value.remains c)
  | .sequence _ items => expressionRemains c items
  | .call _ callee args _ => (callee.remains c).append (argumentRemains c args)
  | .construct _ callee args => (callee.remains c).append (argumentRemains c args)
  | .member _ object _ _ => object.remains c
  | .index _ object key _ => (object.remains c).append (key.remains c)
  | .privateMember _ _ _ _ => single (.warning _ _)
  | .chain s link => by
    have hlink : Note.Remains ((Expr.chain s link).notes c) (link.erase.notes c.erase) := by
      have hlink := link.remains c
      cases link with
      | privateMember => exact single (.warning _ _)
      | _ => exact hlink
    rw [Expr.erase]
    -- The link may be private without its wrappers only.
    obtain hsame | ⟨f, g, hf, hg⟩ := link.erase.notes_chain c.erase s
    · exact hsame ▸ hlink
    · rw [hf] at hlink
      exact hg ▸ hlink.warning g
  | .wrapped s w content => by
    rw [Expr.erase, Wrapper.notes_around]
    exact content.remains c
  | .foreign _ _ => single (.warning _ _)

theorem expressionRemains (c : Surroundings) :
    (es : List Expr) → Note.Remains (expressionNotes c es) (expressionNotes c.erase (eraseExpressions es))
  | [] => nil
  | e :: rest => (e.remains c).append (expressionRemains c rest)

theorem templateRemains (c : Surroundings) :
    (t : Template) → Note.Remains (templateNotes c t) (templateNotes c.erase (eraseTemplate t))
  | ⟨_, _, expressions⟩ => expressionRemains c expressions

theorem elementRemains (c : Surroundings) :
    (es : List Element) → Note.Remains (elementNotes c es) (elementNotes c.erase (eraseElements es))
  | [] => nil
  | .hole :: rest => elementRemains c rest
  | .item e :: rest => (e.remains c).append (elementRemains c rest)
  | .spread e :: rest => (e.remains c).append (elementRemains c rest)

theorem argumentRemains (c : Surroundings) :
    (as : List Argument) → Note.Remains (argumentNotes c as) (argumentNotes c.erase (eraseArguments as))
  | [] => nil
  | .item e :: rest => (e.remains c).append (argumentRemains c rest)
  | .spread e :: rest => (e.remains c).append (argumentRemains c rest)

theorem nameRemains (c : Surroundings) :
    (n : PropertyName) → Note.Remains (nameNotes c n) (nameNotes c.erase (eraseName n))
  | .computed e => e.remains c
  | .fixed _ | .bigInt _ => nil

theorem propertyRemains (c : Surroundings) :
    (ps : List Property) → Note.Remains (propertyNotes c ps) (propertyNotes c.erase (eraseProperties ps))
  | [] => nil
  | .data name value :: rest =>
    ((nameRemains c name).append (value.remains c)).append (propertyRemains c rest)
  | .shorthand s n _ :: rest => (propertyRemains c rest).cons (.use s n c.scopes)
  | .accessor _ _ :: rest => (propertyRemains c rest).cons (.warning _ _)
  | .spread e :: rest => (e.remains c).append (propertyRemains c rest)

theorem Target.remains (c : Surroundings) :
    (t : Target) → Note.Remains (t.notes c) (t.erase.notes c.erase)
  | .identifier s n => single (.use s n c.scopes)
  | .member _ object _ => object.remains c
  | .index _ object key => (object.remains c).append (key.remains c)
  | .privateMember _ _ => single (.warning _ _)
  | .wrapped _ content => content.remains c
  | .array elements rest => (targetElementRemains c elements).append (optionalTargetRemains c rest)
  | .object properties rest =>
    (targetPropertyRemains c properties).append (optionalTargetRemains c rest)

theorem optionalTargetRemains (c : Surroundings) :
    (t : Option Target) →
      Note.Remains (optionalTargetNotes c t) (optionalTargetNotes c.erase (eraseOptionalTarget t))
  | none => nil
  | some t => t.remains c

theorem partRemains (c : Surroundings) :
    (e : TargetElement) → Note.Remains (partNotes c e) (partNotes c.erase (erasePart e))
  | ⟨target, initializer⟩ => (target.remains c).append (optionalRemains c initializer)

theorem targetElementRemains (c : Surroundings) :
    (es : List (Option TargetElement)) →
      Note.Remains (targetElementNotes c es) (targetElementNotes c.erase (eraseTargetElements es))
  | [] => nil
  | none :: rest => targetElementRemains c rest
  | some e :: rest => (partRemains c e).append (targetElementRemains c rest)

theorem targetPropertyRemains (c : Surroundings) :
    (ps : List TargetProperty) →
      Note.Remains (targetPropertyNotes c ps) (targetPropertyNotes c.erase (eraseTargetProperties ps))
  | [] => nil
  | .shorthand s n initializer :: rest =>
    ((optionalRemains c initializer).cons (.use s n c.scopes)).append (targetPropertyRemains c rest)
  | .named name e :: rest =>
    ((nameRemains c name).append (partRemains c e)).append (targetPropertyRemains c rest)

theorem optionalRemains (c : Surroundings) :
    (e : Option Expr) → Note.Remains (optionalNotes c e) (optionalNotes c.erase (eraseOptional e))
  | none => nil
  | some e => e.remains c

theorem Pattern.remains (c : Surroundings) :
    (p : Pattern) → Note.Remains (p.notes c) (p.erase.notes c.erase)
  | .identifier _ => nil
  | .array elements rest =>
    (patternElementRemains c elements).append (optionalPatternRemains c rest)
  | .object properties rest =>
    (patternPropertyRemains c properties).append (optionalPatternRemains c rest)
  | .withDefault target initializer => (target.remains c).append (initializer.remains c)

theorem optionalPatternRemains (c : Surroundings) :
    (p : Option Pattern) →
      Note.Remains (optionalPatternNotes c p) (optionalPatternNotes c.erase (eraseOptionalPattern p))
  | none => nil
  | some p => p.remains c

theorem patternElementRemains (c : Surroundings) :
    (ps : List (Option Pattern)) →
      Note.Remains (patternElementNotes c ps) (patternElementNotes c.erase (erasePatternElements ps))
  | [] => nil
  | none :: rest => patternElementRemains c rest
  | some p :: rest => (p.remains c).append (patternElementRemains c rest)

theorem patternPropertyRemains (c : Surroundings) :
    (ps : List PatternProperty) →
      Note.Remains (patternPropertyNotes c ps) (patternPropertyNotes c.erase (erasePatternProperties ps))
  | [] => nil
  | ⟨name, value⟩ :: rest =>
    ((nameRemains c name).append (value.remains c)).append (patternPropertyRemains c rest)

theorem bindingRemains (c : Surroundings) :
    (bs : List Binding) → Note.Remains (bindingNotes c bs) (bindingNotes c.erase (eraseBindings bs))
  | [] => nil
  | ⟨pattern, initializer⟩ :: rest =>
    ((pattern.remains c).append (optionalRemains c initializer)).append (bindingRemains c rest)

theorem bodyRemains (c : Surroundings) :
    (b : Body) → Note.Remains (bodyNotes c b) (bodyNotes c.erase (eraseBody b))
  | .absent => nil
  | .block _ statements => statementRemains c statements
  | .concise e => e.remains c

/-- **The notes on a function remain.** -/
theorem functionRemains (c : Surroundings) :
    (f : Function) → Note.Remains (functionNotes c f) (functionNotes c.erase f.erase)
  | ⟨_, _, _, _, _, _, parameters, rest, body⟩ =>
    functionRemains_of c _ (bindingRemains · parameters) (optionalPatternRemains · rest)
      (bodyRemains · body)

theorem declarationRemains (c : Surroundings) :
    (x : VarDecl) →
      Note.Remains (declarationNotes c x) (declarationNotes c.erase (eraseDeclaration x))
  | ⟨span, kind, isAmbient, bindings⟩ => by
    refine Note.Remains.append (of_faults fun n hn => ?_) (bindingRemains c bindings)
    unfold VarDecl.kindNotes at hn
    split at hn
    · exact ⟨_, List.mem_singleton.mp hn⟩
    · cases hn

theorem headRemains (c : Surroundings) :
    (x : LoopHead) → Note.Remains (headNotes c x) (headNotes c.erase (eraseHead x))
  | .declaration x => declarationRemains c x
  | .target t => t.remains c

theorem blockRemains (c : Surroundings) :
    (b : Block) → Note.Remains (blockNotes c b) (blockNotes c.erase (eraseBlock b))
  | ⟨s, statements⟩ => by
    unfold eraseBlock blockNotes
    dsimp only
    rw [Scope.ofStatements_erase]
    exact (statementRemains (c.inside _) statements).cons (.scope s _)

theorem optionalBlockRemains (c : Surroundings) :
    (b : Option Block) →
      Note.Remains (optionalBlockNotes c b) (optionalBlockNotes c.erase (eraseOptionalBlock b))
  | none => nil
  | some b => blockRemains c b

theorem caseRemains (c : Surroundings) :
    (cs : List Case) → Note.Remains (caseNotes c cs) (caseNotes c.erase (eraseCases cs))
  | [] => nil
  | ⟨test, statements⟩ :: rest =>
    ((optionalRemains c test).append (statementRemains c statements)).append (caseRemains c rest)

theorem handlerRemains (c : Surroundings) :
    (x : Option Handler) → Note.Remains (handlerNotes c x) (handlerNotes c.erase (eraseHandler x))
  | none => nil
  | some ⟨s, parameter, body⟩ => by
    unfold eraseHandler handlerNotes
    dsimp only
    rw [Scope.ofHandler_erase]
    exact ((optionalPatternRemains (c.inside _) parameter).append
      (blockRemains (c.inside _) body)).cons (.scope s _)

/-- **The notes on a statement remain.** -/
theorem Stmt.remains (c : Surroundings) :
    (s : Stmt) → Note.Remains (s.notes c) (s.erase.notes c.erase)
  | .empty _ | .typeAlias _ | .interface _ => nil
  | .expression _ e => e.remains c
  | .declaration x => by
    unfold Stmt.erase Stmt.notes
    rw [x.kind_erase]
    split
    · exact single (.warning _ _)
    · exact declarationRemains c x
  | .function f => (functionRemains c f).cons (.placed _ _)
  | .block b => blockRemains c b
  | .conditional _ test consequent none =>
    (test.remains c).append (aloneRemains consequent (consequent.remains c))
  | .conditional _ test consequent (some alternate) =>
    ((test.remains c).append (aloneRemains consequent (consequent.remains c))).append
      (aloneRemains alternate (alternate.remains c))
  | .while _ test body => (test.remains c).append (aloneRemains body (body.remains c))
  | .doWhile _ body test => (aloneRemains body (body.remains c)).append (test.remains c)
  | .for _ .none test update body =>
    ((optionalRemains c test).append (optionalRemains c update)).append (aloneRemains body (body.remains c))
  | .for _ (.expression e) test update body =>
    (((e.remains c).append (optionalRemains c test)).append (optionalRemains c update)).append
      (aloneRemains body (body.remains c))
  | .for s (.declaration x) test update body => by
    have hparts := fun c => (((declarationRemains c x).append (optionalRemains c test)).append
      (optionalRemains c update)).append (aloneRemains body (body.remains c))
    unfold Stmt.erase eraseInit Stmt.notes
    rw [x.kind_erase]
    split
    · dsimp only
      rw [Scope.ofHead_erase]
      exact (hparts (c.inside _)).cons (.scope s _)
    · exact hparts c
  | .forIn s head subject body =>
    eachRemains c s head (subject.remains ·) (headRemains · head) fun c =>
      aloneRemains body (body.remains c)
  | .forOf s isAwait head subject body => by
    unfold Stmt.erase Stmt.notes
    split
    · exact single (.warning _ _)
    · exact eachRemains c s head (subject.remains ·) (headRemains · head) fun c =>
        aloneRemains body (body.remains c)
  | .switch s subject cases => by
    unfold Stmt.erase Stmt.notes
    dsimp only
    rw [Scope.ofCases_erase]
    exact (subject.remains c).append ((caseRemains (c.inside _) cases).cons (.scope s _))
  | .try _ block handler finalizer =>
    ((blockRemains c block).append (handlerRemains c handler)).append
      (optionalBlockRemains c finalizer)
  | .return _ value => optionalRemains c value
  | .throw _ value => value.remains c
  | .break _ true | .continue _ true => single (.warning _ _)
  | .break _ false | .continue _ false => nil
  | .labelled _ _ | .foreign _ _ => single (.warning _ _)

theorem statementRemains (c : Surroundings) :
    (ss : List Stmt) → Note.Remains (statementNotes c ss) (statementNotes c.erase (eraseStatements ss))
  | [] => nil
  | s :: rest => by
    change Note.Remains _ (statementNotes c.erase (if s.isTypeOnly then _ else _))
    split
    · next hs => exact (Stmt.remains_of_isTypeOnly hs c).append (statementRemains c rest)
    · exact (s.remains c).append (statementRemains c rest)

end

/-! ### The analysis -/

/-- Analyses that find the same names: the same free ones, and at the same places the same scopes but
for what is there for types. -/
structure Analysis.Alike (s t : Analysis) : Prop where
  free : t.free = s.free
  root : t.root = s.root
  scopes : t.scopes = s.scopes.map Scope.erase
  places : t.places = s.places
  warnings : t.warnings.length = s.warnings.length

theorem Root.scope_erase (root : Root) : root.erase.scope = root.scope := by
  cases root with
  | function f =>
    unfold Root.erase Root.scope
    dsimp only
    rw [f.name_erase]
  | expression e => rfl

/-- **The notes on a root remain.** -/
theorem Root.remains (r : Rules) (root : Root) :
    Note.Remains (root.notes r) (root.erase.notes r) := by
  have hscope : (⟨r, [root.erase.scope]⟩ : Surroundings) = Surroundings.erase ⟨r, [root.scope]⟩ := by
    rw [root.scope_erase]
    cases root with
    | function f =>
      unfold Root.scope
      dsimp only
      split <;> rfl
    | expression e => rfl
  cases root with
  | function f =>
    have hremains := functionRemains ⟨r, [(Root.function f).scope]⟩ f
    rwa [← hscope] at hremains
  | expression e =>
    have hremains := e.remains ⟨r, [(Root.expression e).scope]⟩
    rwa [← hscope] at hremains

/-- **The analysis does not notice that types are erased.** -/
theorem analyze_erase {r : Rules} {root : Root} {s : Analysis} (h : analyze r root = .ok s) :
    ∃ t, analyze r root.erase = .ok t ∧ s.Alike t := by
  have hremains := root.remains r
  have hfault := not_fault_of_analyze h
  -- Whether a name is free is asked of the scopes around its use, and erased scopes have the same
  -- names.
  have hhas : ∀ (S : List Scope) (name : String),
      (S.map Scope.erase).any (·.has name) = S.any (·.has name) := fun S name => by
    rw [List.any_map]
    rfl
  unfold analyze at h ⊢
  dsimp only at h ⊢
  split at h
  · cases h
  · cases h
    split
    · next first others hfaults =>
      have hmem : first ∈ first :: others := List.mem_cons_self
      rw [← hfaults] at hmem
      obtain ⟨n, hn, hfirst⟩ := List.mem_filterMap.mp hmem
      cases n with
      | fault f => exact absurd (hremains.fault_mem hn) (hfault f)
      | _ => cases hfirst
    · refine ⟨_, rfl, congrArg withoutRepetition ?_, root.scope_erase, ?_, ?_, ?_⟩
      · refine hremains.filterMap_eq (fun hnm => ?_) (fun _ => rfl) (fun _ => rfl)
        cases hnm with
        | use _ name S =>
          dsimp only
          rw [hhas]
        | _ => rfl
      · rw [List.map_filterMap]
        refine hremains.filterMap_eq (fun hnm => ?_) (fun _ => rfl) (fun _ => rfl)
        cases hnm <;> rfl
      · refine hremains.filterMap_eq (fun hnm => ?_) (fun _ => rfl) (fun _ => rfl)
        cases hnm <;> rfl
      · have hunit : ∀ l : List Fault, l.length = (l.map fun _ => ()).length :=
          fun l => (List.length_map _).symm
        rw [hunit, hunit, List.map_filterMap, List.map_filterMap]
        refine congrArg List.length ?_
        refine hremains.filterMap_eq (fun hnm => ?_) (fun _ => rfl) (fun _ => rfl)
        cases hnm <;> rfl

/-! ### Evaluation -/

open Eval

theorem Expr.inner_inner (e : Expr) : e.inner.inner = e.inner := by
  induction e using Expr.inner.induct with
  | case1 _ _ e ih => exact ih
  | case2 e h =>
    cases e with
    | wrapped s w e => exact absurd rfl (h s w e)
    | _ => rfl

/-- Wrappers do not matter to the value of an expression. -/
theorem Task.run_inner (n : Nat) (e : Expr) :
    Task.run n (.expression e) = Task.run n (.expression e.inner) := by
  cases n with
  | zero => rfl
  | succ n =>
    change Machine.evaluateExpression _ e = Machine.evaluateExpression _ e.inner
    unfold Machine.evaluateExpression
    rw [e.inner_inner]

variable {a : Agent} {r : Realm}

/-- A statement that is there for types does nothing. -/
theorem Task.run_typeOnly (h : a.Evaluates r) (htraced : r.isTraced = false) {s : Stmt}
    (hs : s.isTypeOnly = true) (n : Nat) : Task.run (n + 1) (.statement s) a = .ok .empty a := by
  have hrecord : ∀ e, record e a = .ok () a := fun e => by
    rw [record_apply h, htraced]
    rfl
  change Machine.evaluateStatement _ s a = _
  unfold Machine.evaluateStatement
  cases s with
  | typeAlias | interface | function => exact bind_ok (hrecord _)
  | _ => cases hs

/-- Where evaluation comes to a statement that is there for types, it goes on behind it. -/
theorem Machine.statementsFrom_typeOnly (h : a.Evaluates r) (htraced : r.isTraced = false) {s : Stmt}
    (hs : s.isTypeOnly = true) (n : Nat) (rest : List Stmt) (v : Option Value) :
    (ofDepth (n + 1)).statementsFrom (s :: rest) v a = (ofDepth (n + 1)).statementsFrom rest v a :=
  bind_ok (Task.run_typeOnly h htraced hs n)

/-- **What is there for types does not matter.**  A root that is accepted is so without its types, with
the same free names and the same scopes, in which the same functions are instantiated.  Wrappers do not
matter to the value of an expression, and where evaluation comes to a statement that is there for types,
it goes on behind it. -/
theorem erasure_inert {rules : Rules} {root : Root} {s : Analysis}
    (h : analyze rules root = .ok s) :
    (∃ t, analyze rules root.erase = .ok t ∧ s.Alike t) ∧
    (∀ n e, Task.run n (.expression e) = Task.run n (.expression e.inner)) ∧
    ∀ (n : Nat) (x : Stmt) (rest : List Stmt) (v : Option Value) (a : Agent) (r : Realm),
      x.isTypeOnly = true → a.Evaluates r → r.isTraced = false →
      (Machine.ofDepth (n + 1)).statementsFrom (x :: rest) v a
        = (Machine.ofDepth (n + 1)).statementsFrom rest v a :=
  ⟨analyze_erase h, Task.run_inner,
    fun n _ rest v _ _ hx ha hr => Machine.statementsFrom_typeOnly ha hr hx n rest v⟩

/-- A function that declares a type, and a function without a body and with one, which returns a
parameter in a wrapper. -/
def Function.typed : Function :=
  ⟨⟨0, 90⟩, .declaration, some "f", false, false, false, [⟨.identifier "x", none⟩], none,
    .block ⟨15, 90⟩ [.typeAlias ⟨17, 30⟩, .function ⟨⟨31, 50⟩, .declaration, some "g", false, false, false,
      [⟨.identifier "y", none⟩], none, .absent⟩, .function ⟨⟨51, 70⟩, .declaration, some "g", false, false,
      false, [], none, .block ⟨60, 70⟩ []⟩, .return ⟨71, 88⟩ (some (.wrapped ⟨78, 87⟩ .as
        (.identifier ⟨78, 79⟩ "x")))]⟩

/-- Without its types the function has two statements, and the second one of its functions; a realm
comes to what is left. -/
theorem erasure_inert_typed :
    let r : Realm := ⟨.ofString "", .function .typed, default, [], false, []⟩
    let a : Agent := { Agent.empty with realms := #[r], contexts := [⟨⟨0⟩, default⟩] }
    Function.typed.erase.body.statements.length = 2 ∧
    (∃ s t, analyze ⟨false, false⟩ (.function .typed) = .ok s ∧
      analyze ⟨false, false⟩ (Root.erase (.function .typed)) = .ok t ∧ s.Alike t) ∧
    (Machine.ofDepth 1).statementsFrom [.typeAlias ⟨17, 30⟩] none a
      = (Machine.ofDepth 1).statementsFrom [] none a := by
  intro r a
  have ha : a.Evaluates r := ⟨⟨⟨0⟩, default⟩, [], rfl, rfl⟩
  have hinert := erasure_inert (show analyze ⟨false, false⟩ (.function .typed) = .ok _ from rfl)
  exact ⟨rfl, ⟨_, hinert.1.choose, rfl, hinert.1.choose_spec⟩, hinert.2.2 0 _ [] none a r rfl ha rfl⟩

/-! ### Variables that are only declared -/

/-- A function that returns a variable of its surroundings, unless the variable is declared before. -/
def Function.returning (declarations : List Stmt) : Function :=
  ⟨⟨0, 40⟩, .declaration, some "f", false, false, false, [], none,
    .block ⟨13, 40⟩ (declarations ++ [.return ⟨30, 39⟩ (some (.identifier ⟨37, 38⟩ "x"))])⟩

/-- A variable that is declared for the sake of types only. -/
def VarDecl.ambient : VarDecl := ⟨⟨15, 28⟩, .let, true, [⟨.identifier "x", none⟩]⟩

/-- Loads a function with a value for the name, and calls it. -/
def Machine.loadAndCall (m : Machine) (f : Function) : Eval Value := do
  let v ← m.load (.function f) (.ofString "") ⟨[("x", .boolean true)], false, false⟩
  m.call (match v with
    | .object o => o
    | _ => ⟨0⟩) .undefined []

/-- **A variable that is only declared hides another one of its name**: with the declaration the name is
not free, and the function throws; without it the name is free, and the function returns its value. -/
theorem declared_hides :
    (∃ s, analyze ⟨false, false⟩ (.function (.returning [.declaration .ambient])) = .ok s ∧
      s.free = []) ∧
    (∃ s, analyze ⟨false, false⟩ (.function (.returning [])) = .ok s ∧ s.free = ["x"]) ∧
    (match (Machine.ofDepth 6).loadAndCall (.returning [.declaration .ambient]) .empty with
      | .error (.thrown (.object o)) a => (a.object o).errorKind?
      | _ => none) = some .referenceError ∧
    (match (Machine.ofDepth 6).loadAndCall (.returning []) .empty with
      | .ok v _ => v.isStrictly (.boolean true)
      | _ => false) = true :=
  ⟨⟨_, rfl, rfl⟩, ⟨_, rfl, rfl⟩, by decide +kernel, by decide +kernel⟩

end Scriptlet
