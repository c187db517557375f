import Scriptlet.Fault
import Scriptlet.Scope.Basic

/-!
# Analysis

The analysis walks a tree in the order of its text and notes, for every name that is used, the
scopes around the use, and also the scopes, the faults and the syntax that cannot be evaluated.
Such syntax is not entered.  It notes besides the syntax of which the grammar allows only some forms
where it stands.

## Main definitions

* `Rules` — what is checked besides.
* `Placement`, `Note` — what the analysis notes.
* `Expr.notes`, `Stmt.notes`, `Function.notes` — the notes on a tree.
* `Root`, `Analysis`, `analyze` — the roots of trees and the result of their analysis.
-/

namespace Scriptlet

/-- What is checked besides: whether there are only expressions, which change no variable, and
whether variables have to belong to blocks. -/
structure Rules where
  /-- Whether only expressions are allowed that change no variable. -/
  expressionOnly : Bool
  /-- Whether all variables have to belong to blocks. -/
  noVar : Bool
deriving DecidableEq, Repr, Inhabited

/-- Syntax of which the grammar allows only some forms where it stands. -/
inductive Placement
  /-- A function that is an expression. -/
  | expressed (f : Function)
  /-- A function that is a statement. -/
  | declared (f : Function)
  /-- A statement that does not belong to a list. -/
  | single (s : Stmt)

/-- What the analysis notes. -/
inductive Note
  /-- A name is used, with scopes around it, the innermost one first. -/
  | use (place : Span) (name : String) (around : List Scope)
  | fault (f : Fault)
  | warning (f : Fault)
  /-- The syntax at a place has a scope. -/
  | scope (place : Span) (s : Scope)
  | placed (p : Placement)

/-- The rules and the scopes around a piece of syntax, the innermost one first. -/
structure Surroundings where
  /-- The rules. -/
  rules : Rules
  /-- The scopes. -/
  scopes : List Scope

namespace Surroundings

/-- The surroundings inside one more scope. -/
def inside (c : Surroundings) (s : Scope) : Surroundings := { c with scopes := s :: c.scopes }

/-- The surroundings inside a function expression, which knows its own name. -/
def insideName (c : Surroundings) (f : Function) : Surroundings :=
  match f.form, f.name with
  | .expression, some n => c.inside (Scope.ofName n)
  | _, _ => c

/-- The note on the use of a name. -/
def use (c : Surroundings) (place : Span) (name : String) : Note := .use place name c.scopes

end Surroundings

/-- Whether an expression has no meaning in the language, or none under the rules. -/
def Expr.isUnsupported (r : Rules) : Expr → Bool
  | .foreign _ _ | .privateMember _ _ _ _ => true
  | .assign _ _ _ _ | .update _ _ _ _ => r.expressionOnly
  | .function f => r.expressionOnly && f.form != .arrow
  | _ => false

/-- Whether a statement has no meaning in the language. -/
def Stmt.isUnsupported : Stmt → Bool
  | .labelled _ _ | .foreign _ _ => true
  | .break _ isLabelled | .continue _ isLabelled => isLabelled
  | .forOf _ isAwait _ _ _ => isAwait
  | .declaration d => d.kind == .using || d.kind == .awaitUsing
  | _ => false

/-- The notes on the way in which a function is written. -/
def Function.kindNotes (r : Rules) (f : Function) : List Note :=
  (if f.isAsync then [.fault (.asyncFunction f.span)] else [])
    ++ (if f.isGenerator then [.fault (.generatorFunction f.span)] else [])
    ++ match f.form, f.body with
      | .arrow, .block s _ => if r.expressionOnly then [.fault (.statementBody s)] else []
      | _, _ => []

/-- The note on a declaration of variables that belong to a function. -/
def VarDecl.kindNotes (r : Rules) (d : VarDecl) : List Note :=
  if d.kind == .var && r.noVar then [.fault (.functionVariable d.span)] else []

/-- The notes on a loop over a collection, from those on its parts.  Names that the head declares
for the loop are known in the collection too. -/
def eachNotes (c : Surroundings) (place : Span) (head : LoopHead)
    (subjectNotes headNotes bodyNotes : Surroundings → List Note) : List Note :=
  match head.lexical? with
  | some d =>
    let scope := Scope.ofHead d
    let inner := c.inside scope
    .scope place scope :: (subjectNotes inner ++ headNotes inner ++ bodyNotes inner)
  | none => subjectNotes c ++ headNotes c ++ bodyNotes c

/-- The notes on a statement that does not belong to a list, from those on the statement. -/
def alone (s : Stmt) (notes : List Note) : List Note := .placed (.single s) :: notes

/-- The note on the name of a member that is private. -/
def privateNote (field : Span) : Note := .warning (.unsupportedNode "PrivateName" field)

mutual

/-- The notes on an expression. -/
def Expr.notes (c : Surroundings) : Expr → List Note
  | .constant _ _ => []
  | .identifier s n => [c.use s n]
  | .template t => templateNotes c t
  | .tagged _ tag t => tag.notes c ++ templateNotes c t
  | .array _ elements => elementNotes c elements
  | .object _ properties => propertyNotes c properties
  | .function f =>
    -- In an expression only arrows are functions that may be written.
    if f.form != .arrow && c.rules.expressionOnly then
      [.warning (.unsupportedNode f.form.kind f.span)]
    else .placed (.expressed f) :: functionNotes c f
  | .unary _ _ operand => operand.notes c
  | .update s _ _ target =>
    if c.rules.expressionOnly then [.warning (.unsupportedNode "UpdateExpression" s)]
    else target.notes c
  | .binary _ _ left right => left.notes c ++ right.notes c
  | .logical _ _ left right => left.notes c ++ right.notes c
  | .conditional _ test consequent alternate =>
    test.notes c ++ consequent.notes c ++ alternate.notes c
  | .assign s _ target value =>
    if c.rules.expressionOnly then [.warning (.unsupportedNode "AssignmentExpression" s)]
    else target.notes c ++ value.notes c
  | .sequence _ items => expressionNotes c items
  | .call _ callee args _ => callee.notes c ++ argumentNotes c args
  | .construct _ callee args => callee.notes c ++ argumentNotes c args
  | .member _ object _ _ => object.notes c
  | .index _ object key _ => object.notes c ++ key.notes c
  | .privateMember s _ _ _ => [.warning (.unsupportedNode "MemberExpression" s)]
  -- The chain is warned about at the private name, and not visited.
  | .chain _ (.privateMember _ _ field _) => [privateNote field]
  | .chain _ link => link.notes c
  | .wrapped _ _ content => content.notes c
  | .foreign s form => [.warning (.unsupportedNode form.kind s)]

/-- The notes on expressions. -/
def expressionNotes (c : Surroundings) : List Expr → List Note
  | [] => []
  | e :: rest => e.notes c ++ expressionNotes c rest

/-- The notes on the expressions in a template. -/
def templateNotes (c : Surroundings) : Template → List Note
  | ⟨_, _, expressions⟩ => expressionNotes c expressions

/-- The notes on the elements of an array literal. -/
def elementNotes (c : Surroundings) : List Element → List Note
  | [] => []
  | .hole :: rest => elementNotes c rest
  | .item e :: rest => e.notes c ++ elementNotes c rest
  | .spread e :: rest => e.notes c ++ elementNotes c rest

/-- The notes on arguments. -/
def argumentNotes (c : Surroundings) : List Argument → List Note
  | [] => []
  | .item e :: rest => e.notes c ++ argumentNotes c rest
  | .spread e :: rest => e.notes c ++ argumentNotes c rest

/-- The notes on the name of a property. -/
def nameNotes (c : Surroundings) : PropertyName → List Note
  | .computed e => e.notes c
  | .fixed _ | .bigInt _ => []

/-- The notes on the properties of an object literal. -/
def propertyNotes (c : Surroundings) : List Property → List Note
  | [] => []
  | .data name value :: rest => nameNotes c name ++ value.notes c ++ propertyNotes c rest
  | .shorthand s n _ :: rest => c.use s n :: propertyNotes c rest
  | .accessor s kind :: rest => .warning (.unsupportedAccessor kind s) :: propertyNotes c rest
  | .spread e :: rest => e.notes c ++ propertyNotes c rest

/-- The notes on what is assigned to. -/
def Target.notes (c : Surroundings) : Target → List Note
  | .identifier s n => [c.use s n]
  | .member _ object _ => object.notes c
  | .index _ object key => object.notes c ++ key.notes c
  | .privateMember _ field => [privateNote field]
  | .wrapped _ content => content.notes c
  | .array elements rest => targetElementNotes c elements ++ optionalTargetNotes c rest
  | .object properties rest => targetPropertyNotes c properties ++ optionalTargetNotes c rest

/-- The notes on what is left over is assigned to. -/
def optionalTargetNotes (c : Surroundings) : Option Target → List Note
  | none => []
  | some t => t.notes c

/-- The notes on a part of an assigned pattern. -/
def partNotes (c : Surroundings) : TargetElement → List Note
  | ⟨target, initializer⟩ => target.notes c ++ optionalNotes c initializer

/-- The notes on the elements of an assigned pattern. -/
def targetElementNotes (c : Surroundings) : List (Option TargetElement) → List Note
  | [] => []
  | none :: rest => targetElementNotes c rest
  | some e :: rest => partNotes c e ++ targetElementNotes c rest

/-- The notes on the properties of an assigned pattern. -/
def targetPropertyNotes (c : Surroundings) : List TargetProperty → List Note
  | [] => []
  | .shorthand s n initializer :: rest =>
    c.use s n :: optionalNotes c initializer ++ targetPropertyNotes c rest
  | .named name e :: rest => nameNotes c name ++ partNotes c e ++ targetPropertyNotes c rest

/-- The notes on an expression that may be missing. -/
def optionalNotes (c : Surroundings) : Option Expr → List Note
  | none => []
  | some e => e.notes c

/-- The notes on a pattern that declares names. -/
def Pattern.notes (c : Surroundings) : Pattern → List Note
  | .identifier _ => []
  | .array elements rest => patternElementNotes c elements ++ optionalPatternNotes c rest
  | .object properties rest => patternPropertyNotes c properties ++ optionalPatternNotes c rest
  | .withDefault target initializer => target.notes c ++ initializer.notes c

/-- The notes on a pattern that may be missing. -/
def optionalPatternNotes (c : Surroundings) : Option Pattern → List Note
  | none => []
  | some p => p.notes c

/-- The notes on the elements of a pattern. -/
def patternElementNotes (c : Surroundings) : List (Option Pattern) → List Note
  | [] => []
  | none :: rest => patternElementNotes c rest
  | some p :: rest => p.notes c ++ patternElementNotes c rest

/-- The notes on the properties of a pattern. -/
def patternPropertyNotes (c : Surroundings) : List PatternProperty → List Note
  | [] => []
  | ⟨name, value⟩ :: rest => nameNotes c name ++ value.notes c ++ patternPropertyNotes c rest

/-- The notes on parameters or on declared variables with their values. -/
def bindingNotes (c : Surroundings) : List Binding → List Note
  | [] => []
  | ⟨pattern, initializer⟩ :: rest =>
    pattern.notes c ++ optionalNotes c initializer ++ bindingNotes c rest

/-- The notes on the body of a function. -/
def bodyNotes (c : Surroundings) : Body → List Note
  | .absent => []
  | .block _ statements => statementNotes c statements
  | .concise e => e.notes c

/-- The notes on a function. -/
def functionNotes (c : Surroundings) : Function → List Note
  | ⟨span, form, name, isAsync, isGenerator, isAmbient, parameters, rest, body⟩ =>
    let f : Function :=
      ⟨span, form, name, isAsync, isGenerator, isAmbient, parameters, rest, body⟩
    let around := c.insideName f
    let inParameters := around.inside (Scope.ofParameters f)
    let scope := Scope.ofFunction f
    f.kindNotes c.rules ++
      if f.isBodiless then []
      else
        bindingNotes inParameters parameters ++ optionalPatternNotes inParameters rest
          ++ .scope span scope :: bodyNotes (around.inside scope) body

/-- The notes on a declaration of variables. -/
def declarationNotes (c : Surroundings) : VarDecl → List Note
  | ⟨span, kind, isAmbient, bindings⟩ =>
    VarDecl.kindNotes c.rules ⟨span, kind, isAmbient, bindings⟩ ++ bindingNotes c bindings

/-- The notes on a statement. -/
def Stmt.notes (c : Surroundings) : Stmt → List Note
  | .empty _ => []
  | .expression _ e => e.notes c
  | .declaration d =>
    if d.kind == .using || d.kind == .awaitUsing then
      [.warning (.unsupportedNode "VariableDeclaration" d.span)]
    else declarationNotes c d
  | .function f => .placed (.declared f) :: functionNotes c f
  | .block b => blockNotes c b
  | .conditional _ test consequent none => test.notes c ++ alone consequent (consequent.notes c)
  | .conditional _ test consequent (some alternate) =>
    test.notes c ++ alone consequent (consequent.notes c) ++ alone alternate (alternate.notes c)
  | .while _ test body => test.notes c ++ alone body (body.notes c)
  | .doWhile _ body test => alone body (body.notes c) ++ test.notes c
  | .for _ .none test update body =>
    optionalNotes c test ++ optionalNotes c update ++ alone body (body.notes c)
  | .for _ (.expression e) test update body =>
    e.notes c ++ optionalNotes c test ++ optionalNotes c update ++ alone body (body.notes c)
  | .for s (.declaration d) test update body =>
    if d.kind.isLexical then
      let scope := Scope.ofHead d
      -- The scope of a lexical head is around all parts of the loop.
      let inner := c.inside scope
      .scope s scope ::
        (declarationNotes inner d ++ optionalNotes inner test ++ optionalNotes inner update
          ++ alone body (body.notes inner))
    else
      declarationNotes c d ++ optionalNotes c test ++ optionalNotes c update
        ++ alone body (body.notes c)
  | .forIn s head subject body =>
    eachNotes c s head (subject.notes ·) (headNotes · head) fun c => alone body (body.notes c)
  | .forOf s isAwait head subject body =>
    if isAwait then [.warning (.unsupportedNode "ForOfStatement" s)]
    else
      eachNotes c s head (subject.notes ·) (headNotes · head) fun c => alone body (body.notes c)
  | .switch s subject cases =>
    let scope := Scope.ofCases cases
    subject.notes c ++ .scope s scope :: caseNotes (c.inside scope) cases
  | .try _ block handler finalizer =>
    blockNotes c block ++ handlerNotes c handler ++ optionalBlockNotes c finalizer
  | .return _ value => optionalNotes c value
  | .throw _ value => value.notes c
  | .break s isLabelled =>
    if isLabelled then [.warning (.unsupportedNode "BreakStatement" s)] else []
  | .continue s isLabelled =>
    if isLabelled then [.warning (.unsupportedNode "ContinueStatement" s)] else []
  | .labelled s _ => [.warning (.unsupportedNode "LabeledStatement" s)]
  | .typeAlias _ | .interface _ => []
  | .foreign s form => [.warning (.unsupportedNode form.kind s)]

/-- The notes on statements. -/
def statementNotes (c : Surroundings) : List Stmt → List Note
  | [] => []
  | s :: rest => s.notes c ++ statementNotes c rest

/-- The notes on what a loop over a collection gives its values to. -/
def headNotes (c : Surroundings) : LoopHead → List Note
  | .declaration d => declarationNotes c d
  | .target t => t.notes c

/-- The notes on statements between braces. -/
def blockNotes (c : Surroundings) : Block → List Note
  | ⟨span, statements⟩ =>
    let scope := Scope.ofStatements statements
    .scope span scope :: statementNotes (c.inside scope) statements

/-- The notes on a block that may be missing. -/
def optionalBlockNotes (c : Surroundings) : Option Block → List Note
  | none => []
  | some b => blockNotes c b

/-- The notes on the clauses of a switch. -/
def caseNotes (c : Surroundings) : List Case → List Note
  | [] => []
  | ⟨test, statements⟩ :: rest =>
    optionalNotes c test ++ statementNotes c statements ++ caseNotes c rest

/-- The notes on a handler that may be missing. -/
def handlerNotes (c : Surroundings) : Option Handler → List Note
  | none => []
  | some ⟨span, parameter, body⟩ =>
    let scope := Scope.ofHandler parameter
    let inner := c.inside scope
    .scope span scope :: (optionalPatternNotes inner parameter ++ blockNotes inner body)

end

/-! ### Roots -/

/-- What is analysed as a whole: a function or an expression. -/
inductive Root
  | function (f : Function)
  | expression (e : Expr)

namespace Root

/-- The scope around the root, which knows the name of a function. -/
def scope : Root → Scope
  | function f =>
    match f.name with
    | some n => (Scope.empty .global).declare n .function
    | none => Scope.empty .global
  | expression _ => Scope.empty .global

/-- The notes on a root. -/
def notes (r : Rules) (root : Root) : List Note :=
  match root with
  | function f => functionNotes ⟨r, [root.scope]⟩ f
  | expression e => e.notes ⟨r, [root.scope]⟩

end Root

/-- The result of the analysis of a root without faults. -/
structure Analysis where
  /-- The names that are used and not declared, in the order of their first use. -/
  free : List String
  /-- The scope around the root. -/
  root : Scope
  /-- The scopes in it. -/
  scopes : List Scope
  /-- The places of the syntax that has them. -/
  places : List Span
  /-- The syntax that cannot be evaluated. -/
  warnings : List Fault

/-- The list without the later ones of equal elements. -/
def withoutRepetition {α : Type} [BEq α] (l : List α) : List α :=
  (l.foldl (fun acc a => if acc.contains a then acc else a :: acc) []).reverse

/-- The analysis of a root, or the faults found in it. -/
def analyze (r : Rules) (root : Root) : Except Rejection Analysis :=
  -- Everything is noted in one pass in the order of the source; what is rejected or warned about is
  -- sorted out here.
  let notes := root.notes r
  let faults := notes.filterMap fun
    | .fault f => some f
    | _ => none
  match faults with
  | first :: others => .error (.faulty first others)
  | [] =>
    .ok
      { free := withoutRepetition <| notes.filterMap fun
          | .use _ n around => if around.any (·.has n) then none else some n
          | _ => none
        root := root.scope
        scopes := notes.filterMap fun
          | .scope _ s => some s
          | _ => none
        places := notes.filterMap fun
          | .scope place _ => some place
          | _ => none
        warnings := notes.filterMap fun
          | .warning f => some f
          | _ => none }

end Scriptlet
