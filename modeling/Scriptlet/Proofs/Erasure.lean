import Mathlib.Logic.Basic
import Scriptlet.Scope.Analysis

/-!
# Erasure of types

A tree has no types in it, only what is left of syntax that is there for their sake: wrappers around
expressions, statements that declare types, and functions that are declared without a body.  To erase
them is to leave out the wrappers, but for parentheses, and such statements.  What the rest declares,
and the functions that it instantiates, are the same as before.

Variables that are only declared are no part of this.  They are names of their scopes like others.

## Main definitions

* `Stmt.isTypeOnly` — the statements that are left out.
* `Expr.erase`, `Stmt.erase`, `Function.erase`, `Root.erase` — trees without what is there for types.
* `Scope.erase`, `Surroundings.erase` — scopes without it.

## Main results

* `Pattern.names_erase`, `Stmt.varNames_erase` — erasure leaves the declared names.
* `Scope.ofStatements_erase`, `Scope.ofFunction_erase` — **the scopes of the erased syntax are the erased
  scopes**.
-/

namespace Scriptlet

/-! ### Erasure -/

/-- Whether the statement is there for the sake of types only. -/
def Stmt.isTypeOnly : Stmt → Bool
  | .typeAlias _ | .interface _ => true
  | .function f => f.isBodiless
  | _ => false

/-- The expression with the wrapper around it, unless that is there for types. -/
def Wrapper.around (w : Wrapper) (place : Span) (e : Expr) : Expr :=
  if w == .parentheses then .wrapped place w e else e

mutual

/-- The expression without what is there for types. -/
def Expr.erase : Expr → Expr
  | .constant s v => .constant s v
  | .identifier s n => .identifier s n
  | .template t => .template (eraseTemplate t)
  | .tagged s tag t => .tagged s tag.erase (eraseTemplate t)
  | .array s elements => .array s (eraseElements elements)
  | .object s properties => .object s (eraseProperties properties)
  | .function f => .function f.erase
  | .unary s op operand => .unary s op operand.erase
  | .update s op before target => .update s op before target.erase
  | .binary s op left right => .binary s op left.erase right.erase
  | .logical s op left right => .logical s op left.erase right.erase
  | .conditional s test consequent alternate =>
    .conditional s test.erase consequent.erase alternate.erase
  | .assign s op target value => .assign s op target.erase value.erase
  | .sequence s items => .sequence s (eraseExpressions items)
  | .call s callee args isOptional => .call s callee.erase (eraseArguments args) isOptional
  | .construct s callee args => .construct s callee.erase (eraseArguments args)
  | .member s object name isOptional => .member s object.erase name isOptional
  | .index s object key isOptional => .index s object.erase key.erase isOptional
  | .privateMember s object field isOptional => .privateMember s object.erase field isOptional
  | .chain s link => .chain s link.erase
  | .wrapped s w content => w.around s content.erase
  | .foreign s form => .foreign s form

/-- The expressions without what is there for types. -/
def eraseExpressions : List Expr → List Expr
  | [] => []
  | e :: rest => e.erase :: eraseExpressions rest

/-- The template without what is there for types. -/
def eraseTemplate : Template → Template
  | ⟨s, quasis, expressions⟩ => ⟨s, quasis, eraseExpressions expressions⟩

/-- The elements of an array literal without what is there for types. -/
def eraseElements : List Element → List Element
  | [] => []
  | .hole :: rest => .hole :: eraseElements rest
  | .item e :: rest => .item e.erase :: eraseElements rest
  | .spread e :: rest => .spread e.erase :: eraseElements rest

/-- The arguments without what is there for types. -/
def eraseArguments : List Argument → List Argument
  | [] => []
  | .item e :: rest => .item e.erase :: eraseArguments rest
  | .spread e :: rest => .spread e.erase :: eraseArguments rest

/-- The name of a property without what is there for types. -/
def eraseName : PropertyName → PropertyName
  | .fixed name => .fixed name
  | .computed e => .computed e.erase
  | .bigInt s => .bigInt s

/-- The properties of an object literal without what is there for types. -/
def eraseProperties : List Property → List Property
  | [] => []
  | .data name value :: rest => .data (eraseName name) value.erase :: eraseProperties rest
  | .shorthand s n initializer :: rest =>
    .shorthand s n (eraseOptional initializer) :: eraseProperties rest
  | .accessor s kind :: rest => .accessor s kind :: eraseProperties rest
  | .spread e :: rest => .spread e.erase :: eraseProperties rest

/-- The target without what is there for types; a wrapper around it counts as parentheses. -/
def Target.erase : Target → Target
  | .identifier s n => .identifier s n
  | .member s object name => .member s object.erase name
  | .index s object key => .index s object.erase key.erase
  | .privateMember s field => .privateMember s field
  | .wrapped s content => .wrapped s content.erase
  | .array elements rest => .array (eraseTargetElements elements) (eraseOptionalTarget rest)
  | .object properties rest => .object (eraseTargetProperties properties) (eraseOptionalTarget rest)

/-- The target, if there is one, without what is there for types. -/
def eraseOptionalTarget : Option Target → Option Target
  | none => none
  | some t => some t.erase

/-- The part of an assigned pattern without what is there for types. -/
def erasePart : TargetElement → TargetElement
  | ⟨target, initializer⟩ => ⟨target.erase, eraseOptional initializer⟩

/-- The elements of an assigned pattern without what is there for types. -/
def eraseTargetElements : List (Option TargetElement) → List (Option TargetElement)
  | [] => []
  | none :: rest => none :: eraseTargetElements rest
  | some e :: rest => some (erasePart e) :: eraseTargetElements rest

/-- The properties of an assigned pattern without what is there for types. -/
def eraseTargetProperties : List TargetProperty → List TargetProperty
  | [] => []
  | .shorthand s n initializer :: rest =>
    .shorthand s n (eraseOptional initializer) :: eraseTargetProperties rest
  | .named name e :: rest => .named (eraseName name) (erasePart e) :: eraseTargetProperties rest

/-- The expression, if there is one, without what is there for types. -/
def eraseOptional : Option Expr → Option Expr
  | none => none
  | some e => some e.erase

/-- The pattern without what is there for types. -/
def Pattern.erase : Pattern → Pattern
  | .identifier n => .identifier n
  | .array elements rest => .array (erasePatternElements elements) (eraseOptionalPattern rest)
  | .object properties rest =>
    .object (erasePatternProperties properties) (eraseOptionalPattern rest)
  | .withDefault target initializer => .withDefault target.erase initializer.erase

/-- The pattern, if there is one, without what is there for types. -/
def eraseOptionalPattern : Option Pattern → Option Pattern
  | none => none
  | some p => some p.erase

/-- The elements of a pattern without what is there for types. -/
def erasePatternElements : List (Option Pattern) → List (Option Pattern)
  | [] => []
  | none :: rest => none :: erasePatternElements rest
  | some p :: rest => some p.erase :: erasePatternElements rest

/-- The properties of a pattern without what is there for types. -/
def erasePatternProperties : List PatternProperty → List PatternProperty
  | [] => []
  | ⟨name, value⟩ :: rest => ⟨eraseName name, value.erase⟩ :: erasePatternProperties rest

/-- The parameters or declared variables without what is there for types. -/
def eraseBindings : List Binding → List Binding
  | [] => []
  | ⟨pattern, initializer⟩ :: rest =>
    ⟨pattern.erase, eraseOptional initializer⟩ :: eraseBindings rest

/-- The body without what is there for types. -/
def eraseBody : Body → Body
  | .absent => .absent
  | .block s statements => .block s (eraseStatements statements)
  | .concise e => .concise e.erase

/-- The function without what is there for types. -/
def Function.erase : Function → Function
  | ⟨span, form, name, isAsync, isGenerator, isAmbient, parameters, rest, body⟩ =>
    ⟨span, form, name, isAsync, isGenerator, isAmbient, eraseBindings parameters,
      eraseOptionalPattern rest, eraseBody body⟩

/-- The declaration without what is there for types. -/
def eraseDeclaration : VarDecl → VarDecl
  | ⟨span, kind, isAmbient, bindings⟩ => ⟨span, kind, isAmbient, eraseBindings bindings⟩

/-- The head of a loop without what is there for types. -/
def eraseHead : LoopHead → LoopHead
  | .declaration d => .declaration (eraseDeclaration d)
  | .target t => .target t.erase

/-- The start of a loop without what is there for types. -/
def eraseInit : LoopInit → LoopInit
  | .none => .none
  | .declaration d => .declaration (eraseDeclaration d)
  | .expression e => .expression e.erase

/-- The statement without what is there for types; where it cannot be left out it becomes empty. -/
def Stmt.erase : Stmt → Stmt
  | .empty s => .empty s
  | .expression s e => .expression s e.erase
  | .declaration d => .declaration (eraseDeclaration d)
  | .function f => .function f.erase
  | .block b => .block (eraseBlock b)
  | .conditional s test consequent none => .conditional s test.erase consequent.erase none
  | .conditional s test consequent (some alternate) =>
    .conditional s test.erase consequent.erase (some alternate.erase)
  | .while s test body => .while s test.erase body.erase
  | .doWhile s body test => .doWhile s body.erase test.erase
  | .for s init test update body =>
    .for s (eraseInit init) (eraseOptional test) (eraseOptional update) body.erase
  | .forIn s head subject body => .forIn s (eraseHead head) subject.erase body.erase
  | .forOf s isAwait head subject body =>
    .forOf s isAwait (eraseHead head) subject.erase body.erase
  | .switch s subject cases => .switch s subject.erase (eraseCases cases)
  | .try s block handler finalizer =>
    .try s (eraseBlock block) (eraseHandler handler) (eraseOptionalBlock finalizer)
  | .return s value => .return s (eraseOptional value)
  | .throw s value => .throw s value.erase
  | .break s isLabelled => .break s isLabelled
  | .continue s isLabelled => .continue s isLabelled
  | .labelled s body => .labelled s body.erase
  | .typeAlias s | .interface s => .empty s
  | .foreign s form => .foreign s form

/-- The statements without what is there for types. -/
def eraseStatements : List Stmt → List Stmt
  | [] => []
  | s :: rest => if s.isTypeOnly then eraseStatements rest else s.erase :: eraseStatements rest

/-- The block without what is there for types. -/
def eraseBlock : Block → Block
  | ⟨s, statements⟩ => ⟨s, eraseStatements statements⟩

/-- The block, if there is one, without what is there for types. -/
def eraseOptionalBlock : Option Block → Option Block
  | none => none
  | some b => some (eraseBlock b)

/-- The clauses of a switch without what is there for types. -/
def eraseCases : List Case → List Case
  | [] => []
  | ⟨test, statements⟩ :: rest =>
    ⟨eraseOptional test, eraseStatements statements⟩ :: eraseCases rest

/-- The handler, if there is one, without what is there for types. -/
def eraseHandler : Option Handler → Option Handler
  | none => none
  | some ⟨s, parameter, body⟩ => some ⟨s, eraseOptionalPattern parameter, eraseBlock body⟩

end

/-- The root without what is there for types. -/
def Root.erase : Root → Root
  | .function f => .function f.erase
  | .expression e => .expression e.erase

/-! ### Declared names -/

mutual

theorem Pattern.names_erase : (p : Pattern) → p.erase.names = p.names
  | .identifier _ => rfl
  | .array elements rest =>
    congrArg₂ (· ++ ·) (elementNames_erase elements) (restNames_erase rest)
  | .object properties rest =>
    congrArg₂ (· ++ ·) (propertyNames_erase properties) (restNames_erase rest)
  | .withDefault target _ => target.names_erase

theorem elementNames_erase : (ps : List (Option Pattern)) →
    elementNames (erasePatternElements ps) = elementNames ps
  | [] => rfl
  | none :: rest => elementNames_erase rest
  | some p :: rest => congrArg₂ (· ++ ·) p.names_erase (elementNames_erase rest)

theorem propertyNames_erase : (ps : List PatternProperty) →
    propertyNames (erasePatternProperties ps) = propertyNames ps
  | [] => rfl
  | ⟨_, value⟩ :: rest => congrArg₂ (· ++ ·) value.names_erase (propertyNames_erase rest)

theorem restNames_erase : (p : Option Pattern) → restNames (eraseOptionalPattern p) = restNames p
  | none => rfl
  | some p => p.names_erase

end

theorem bindingNames_erase (bs : List Binding) : bindingNames (eraseBindings bs) = bindingNames bs := by
  unfold bindingNames
  induction bs with
  | nil => rfl
  | cons b bs ih =>
    obtain ⟨pattern, initializer⟩ := b
    rw [eraseBindings, List.flatMap_cons, List.flatMap_cons, pattern.names_erase, ih]

theorem VarDecl.kind_erase (d : VarDecl) : (eraseDeclaration d).kind = d.kind := by
  obtain ⟨_, _, _, _⟩ := d
  rfl

theorem VarDecl.names_erase (d : VarDecl) : (eraseDeclaration d).names = d.names := by
  obtain ⟨_, _, _, bindings⟩ := d
  exact bindingNames_erase bindings

theorem VarDecl.varNames_erase (d : VarDecl) : (eraseDeclaration d).varNames = d.varNames := by
  unfold VarDecl.varNames
  rw [d.names_erase, d.kind_erase]

theorem VarDecl.declarationKind_erase (d : VarDecl) :
    (eraseDeclaration d).declarationKind = d.declarationKind := by
  unfold VarDecl.declarationKind
  rw [d.kind_erase]

theorem Stmt.varNames_of_isTypeOnly {s : Stmt} (h : s.isTypeOnly = true) : s.varNames = [] := by
  cases s with
  | typeAlias | interface | function => rfl
  | _ => cases h

mutual

theorem Stmt.varNames_erase : (s : Stmt) → s.erase.varNames = s.varNames
  | .declaration d => d.varNames_erase
  | .block b => blockVarNames_erase b
  | .conditional _ _ consequent none => consequent.varNames_erase
  | .conditional _ _ consequent (some alternate) =>
    congrArg₂ (· ++ ·) consequent.varNames_erase alternate.varNames_erase
  | .while _ _ body => body.varNames_erase
  | .doWhile _ body _ => body.varNames_erase
  | .for _ (.declaration d) _ _ body => congrArg₂ (· ++ ·) d.varNames_erase body.varNames_erase
  | .for _ .none _ _ body => body.varNames_erase
  | .for _ (.expression _) _ _ body => body.varNames_erase
  | .forIn _ (.declaration d) _ body => congrArg₂ (· ++ ·) d.varNames_erase body.varNames_erase
  | .forIn _ (.target _) _ body => body.varNames_erase
  | .forOf _ _ (.declaration d) _ body => congrArg₂ (· ++ ·) d.varNames_erase body.varNames_erase
  | .forOf _ _ (.target _) _ body => body.varNames_erase
  | .labelled _ body => body.varNames_erase
  | .switch _ _ cases => casesVarNames_erase cases
  | .try _ b handler finalizer =>
    congrArg₂ (· ++ ·) (congrArg₂ (· ++ ·) (blockVarNames_erase b) (handlerVarNames_erase handler))
      (optionalVarNames_erase finalizer)
  | .empty _ | .expression _ _ | .function _ | .return _ _ | .throw _ _ | .break _ _ | .continue _ _
  | .typeAlias _ | .interface _ | .foreign _ _ => rfl

theorem statementsVarNames_erase : (ss : List Stmt) →
    statementsVarNames (eraseStatements ss) = statementsVarNames ss
  | [] => rfl
  | s :: rest => by
    change statementsVarNames (if s.isTypeOnly then _ else _) = s.varNames ++ statementsVarNames rest
    split
    · next h => rw [Stmt.varNames_of_isTypeOnly h, List.nil_append, statementsVarNames_erase rest]
    · exact congrArg₂ (· ++ ·) s.varNames_erase (statementsVarNames_erase rest)

theorem blockVarNames_erase : (b : Block) → blockVarNames (eraseBlock b) = blockVarNames b
  | ⟨_, statements⟩ => statementsVarNames_erase statements

theorem casesVarNames_erase : (cs : List Case) → casesVarNames (eraseCases cs) = casesVarNames cs
  | [] => rfl
  | ⟨_, statements⟩ :: rest =>
    congrArg₂ (· ++ ·) (statementsVarNames_erase statements) (casesVarNames_erase rest)

theorem handlerVarNames_erase : (h : Option Handler) →
    handlerVarNames (eraseHandler h) = handlerVarNames h
  | none => rfl
  | some ⟨_, _, body⟩ => blockVarNames_erase body

theorem optionalVarNames_erase : (b : Option Block) →
    optionalVarNames (eraseOptionalBlock b) = optionalVarNames b
  | none => rfl
  | some b => blockVarNames_erase b

end

/-! ### Scopes -/

namespace Function

theorem name_erase (f : Function) : f.erase.name = f.name := by
  obtain ⟨_, _, _, _, _, _, _, _, _⟩ := f
  rfl

theorem parameterNames_erase (f : Function) : f.erase.parameterNames = f.parameterNames := by
  obtain ⟨_, _, _, _, _, _, parameters, rest, _⟩ := f
  exact congrArg₂ (· ++ ·) (bindingNames_erase parameters) (restNames_erase rest)

theorem statements_erase (f : Function) :
    f.erase.body.statements = eraseStatements f.body.statements := by
  obtain ⟨_, _, _, _, _, _, _, _, body⟩ := f
  cases body <;> rfl

theorem varNames_erase (f : Function) : f.erase.varNames = f.varNames := by
  unfold varNames
  rw [f.statements_erase, statementsVarNames_erase]

theorem hasParameterExpressions_erase (f : Function) :
    f.erase.hasParameterExpressions = f.hasParameterExpressions := by
  obtain ⟨_, _, _, _, _, _, parameters, rest, _⟩ := f
  unfold hasParameterExpressions erase
  dsimp only
  congr 1
  · cases rest <;> rfl
  · induction parameters with
    | nil => rfl
    | cons b bs ih =>
      obtain ⟨pattern, initializer⟩ := b
      rw [eraseBindings, List.any_cons, List.any_cons, ih]
      congr 1
      cases pattern <;> cases initializer <;> rfl

theorem kindNotes_erase (f : Function) (r : Rules) : f.erase.kindNotes r = f.kindNotes r := by
  obtain ⟨_, form, _, _, _, _, _, _, body⟩ := f
  cases form <;> cases body <;> rfl

theorem isBodiless_erase (f : Function) : f.erase.isBodiless = f.isBodiless := by
  obtain ⟨_, _, _, _, _, _, _, _, body⟩ := f
  cases body <;> rfl

end Function

namespace Scope

/-- The scope with functions without what is there for types. -/
def erase (s : Scope) : Scope := { s with functions := s.functions.map Function.erase }

variable (s : Scope)

theorem declare_erase (name : String) (k : DeclarationKind) :
    s.erase.declare name k = (s.declare name k).erase := by
  unfold declare has erase
  split <;> rfl

theorem declareAll_erase (names : List String) (k : DeclarationKind) :
    s.erase.declareAll names k = (s.declareAll names k).erase := by
  unfold declareAll
  induction names generalizing s with
  | nil => rfl
  | cons n names ih => rw [List.foldl_cons, List.foldl_cons, declare_erase, ih]

theorem hoist_erase (f : Function) : s.erase.hoist f.erase = (s.hoist f).erase := by
  -- Hoisting compares names of functions only, and erasing keeps them.
  have hothers : ∀ (fs : List Function) (n : String),
      (fs.map Function.erase).filter (fun g => g.name != some n)
        = (fs.filter fun g => g.name != some n).map Function.erase := by
    intro fs n
    rw [List.filter_map]
    refine congrArg (List.map _) (congrArg (List.filter · fs) (funext fun g => ?_))
    exact congrArg (· != some n) g.name_erase
  have hput : ∀ (t : Scope) (f : Function) (n : String),
      { t.erase with functions := t.erase.functions.filter (fun g => g.name != some n) ++ [f.erase] }
        = Scope.erase
          { t with functions := t.functions.filter (fun g => g.name != some n) ++ [f] } := by
    intro t f n
    unfold erase
    dsimp only
    rw [hothers, List.map_append]
    rfl
  obtain ⟨span, form, name, isAsync, isGenerator, isAmbient, parameters, rest, body⟩ := f
  cases name with
  | none => rfl
  | some n =>
    have hput := hput (s.declare n .function)
      ⟨span, form, some n, isAsync, isGenerator, isAmbient, parameters, rest, body⟩ n
    rw [← declare_erase] at hput
    cases body with
    | absent => rfl
    | block | concise => exact hput

theorem declareStatement_of_isTypeOnly {x : Stmt} (h : x.isTypeOnly = true) :
    s.declareStatement x = s := by
  cases x with
  | function f =>
    obtain ⟨_, _, name, _, _, _, _, _, body⟩ := f
    cases body with
    | absent => cases name <;> rfl
    | block | concise => cases h
  | typeAlias | interface => rfl
  | _ => cases h

theorem declareStatement_erase (x : Stmt) :
    s.erase.declareStatement x.erase = (s.declareStatement x).erase := by
  cases x with
  | declaration d =>
    unfold declareStatement Stmt.erase
    dsimp only
    rw [d.names_erase, d.kind_erase, d.declarationKind_erase]
    split
    · exact s.declareAll_erase _ _
    · rfl
  | function f => exact s.hoist_erase f
  | conditional _ _ _ alternate => cases alternate <;> rfl
  | _ => rfl

theorem declareStatements_erase (ss : List Stmt) :
    s.erase.declareStatements (eraseStatements ss) = (s.declareStatements ss).erase := by
  unfold declareStatements
  induction ss generalizing s with
  | nil => rfl
  | cons x ss ih =>
    unfold eraseStatements
    split
    · next hx => rw [List.foldl_cons, declareStatement_of_isTypeOnly s hx, ih]
    · rw [List.foldl_cons, List.foldl_cons, declareStatement_erase, ih]

theorem ofStatements_erase (ss : List Stmt) :
    ofStatements (eraseStatements ss) = (ofStatements ss).erase :=
  declareStatements_erase (empty .block) ss

theorem ofCases_erase (cs : List Case) : ofCases (eraseCases cs) = (ofCases cs).erase := by
  have hfold : ∀ s : Scope,
      (eraseCases cs).foldl (fun s c => s.declareStatements c.statements) s.erase
        = (cs.foldl (fun s c => s.declareStatements c.statements) s).erase := by
    induction cs with
    | nil => exact fun _ => rfl
    | cons c cs ih =>
      obtain ⟨test, statements⟩ := c
      intro s
      rw [eraseCases, List.foldl_cons, List.foldl_cons, declareStatements_erase, ih]
  exact hfold (empty .block)

theorem ofHead_erase (d : VarDecl) : ofHead (eraseDeclaration d) = (ofHead d).erase := by
  unfold ofHead
  rw [d.names_erase, d.declarationKind_erase]
  exact declareAll_erase (empty .block) _ _

theorem ofHandler_erase (p : Option Pattern) :
    ofHandler (eraseOptionalPattern p) = (ofHandler p).erase := by
  unfold ofHandler
  rw [restNames_erase]
  exact declareAll_erase (empty .block) _ _

theorem ofParameters_erase (f : Function) : ofParameters f.erase = (ofParameters f).erase := by
  unfold ofParameters
  rw [f.parameterNames_erase]
  exact declareAll_erase (empty (.function false)) _ _

/-- **Erasure leaves what a function declares**, and what is instantiated when it is entered. -/
theorem ofFunction_erase (f : Function) : ofFunction f.erase = (ofFunction f).erase := by
  unfold ofFunction
  rw [f.hasParameterExpressions_erase, f.parameterNames_erase, f.varNames_erase, f.statements_erase,
    ← declareStatements_erase, ← declareAll_erase, ← declareAll_erase]
  rfl

end Scope

/-- The surroundings with scopes without what is there for types. -/
def Surroundings.erase (c : Surroundings) : Surroundings :=
  { c with scopes := c.scopes.map Scope.erase }

theorem Surroundings.insideName_erase (c : Surroundings) (f : Function) :
    c.erase.insideName f.erase = (c.insideName f).erase := by
  obtain ⟨_, form, name, _, _, _, _, _, _⟩ := f
  cases form <;> cases name <;> rfl

end Scriptlet
