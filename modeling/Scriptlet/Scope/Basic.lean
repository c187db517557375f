import Scriptlet.Syntax.Tree

/-!
# Scopes

A scope lists the names that a piece of syntax declares, and the functions that are instantiated
when it is entered.  It is a function of the syntax alone.

## Main definitions

* `Scope` — declared names with the ways in which they are declared, and functions.
* `Pattern.names` — the names that a pattern declares.
* `varNames` — the names that a list of statements declares for its function.
* `Scope.ofFunction`, `Scope.ofStatements`, `Scope.ofCases`, `Scope.ofHead`, `Scope.ofHandler` —
  the scopes of syntax.
-/

namespace Scriptlet

/-- The ways to declare a name. -/
inductive DeclarationKind
  | var | let | const | function | parameter
deriving DecidableEq, Repr

/-- A declared name with the ways in which it is declared. -/
structure Declaration where
  /-- The name. -/
  name : String
  /-- The ways in which it is declared, without repetition. -/
  kinds : List DeclarationKind
deriving DecidableEq, Repr

namespace Declaration

/-- Whether the name is declared in the given way. -/
def isKind (d : Declaration) (k : DeclarationKind) : Bool := d.kinds.contains k

/-- Whether the name has no value until its declaration is reached. -/
def isLexical (d : Declaration) : Bool := d.isKind .let || d.isKind .const

/-- The declaration in one more way. -/
def adding (d : Declaration) (k : DeclarationKind) : Declaration :=
  if d.isKind k then d else { d with kinds := d.kinds ++ [k] }

end Declaration

/-- The pieces of syntax that have scopes. -/
inductive ScopeKind
  | global
  | function (hasParameterExpressions : Bool)
  | block
deriving DecidableEq, Repr

/-- A scope. -/
structure Scope where
  /-- The syntax it belongs to. -/
  kind : ScopeKind
  /-- The declared names, in the order of their first declaration. -/
  declarations : List Declaration
  /-- The functions to instantiate, of each name the last one. -/
  functions : List Function

namespace Scope

/-- A scope without names. -/
def empty (kind : ScopeKind) : Scope := ⟨kind, [], []⟩

/-- Whether the scope declares a name. -/
def has (s : Scope) (name : String) : Bool := s.declarations.any (·.name == name)

/-- The scope with one more declaration. -/
def declare (s : Scope) (name : String) (k : DeclarationKind) : Scope :=
  if s.has name then
    { s with declarations := s.declarations.map fun d => if d.name == name then d.adding k else d }
  else { s with declarations := s.declarations ++ [⟨name, [k]⟩] }

/-- The scope with several names declared in the same way. -/
def declareAll (s : Scope) (names : List String) (k : DeclarationKind) : Scope :=
  names.foldl (fun s n => s.declare n k) s

/-- The scope with a function that is instantiated on entry and replaces those of its name; one
without body or name is not instantiated. -/
def hoist (s : Scope) (f : Function) : Scope :=
  match f.name with
  | none => s
  | some n =>
    if f.body matches .absent then s
    else
      let s := s.declare n .function
      { s with functions := s.functions.filter (fun g => g.name != some n) ++ [f] }

end Scope

/-! ### Declared names -/

mutual

/-- The names that a pattern declares, from left to right. -/
def Pattern.names : Pattern → List String
  | .identifier n => [n]
  | .array elements rest => elementNames elements ++ restNames rest
  | .object properties rest => propertyNames properties ++ restNames rest
  | .withDefault target _ => target.names

/-- The names that the elements of a pattern declare. -/
def elementNames : List (Option Pattern) → List String
  | [] => []
  | none :: rest => elementNames rest
  | some p :: rest => p.names ++ elementNames rest

/-- The names that the properties of a pattern declare. -/
def propertyNames : List PatternProperty → List String
  | [] => []
  | ⟨_, value⟩ :: rest => value.names ++ propertyNames rest

/-- The names that the rest of a pattern declares. -/
def restNames : Option Pattern → List String
  | none => []
  | some p => p.names

end

/-- The names that parameters or parts of a declaration declare. -/
def bindingNames (bindings : List Binding) : List String :=
  bindings.flatMap fun b => b.pattern.names

/-- The names that a declaration of variables declares. -/
def VarDecl.names (d : VarDecl) : List String := bindingNames d.bindings

/-- The names that a declaration of variables declares for the function. -/
def VarDecl.varNames (d : VarDecl) : List String := if d.kind.isLexical then [] else d.names

/-- The declaration in the head of a loop whose variables belong to the loop. -/
def LoopHead.lexical? : LoopHead → Option VarDecl
  | .declaration d => if d.kind.isLexical then some d else none
  | .target _ => none

/-- How a declaration of variables that belong to a block declares them. -/
def VarDecl.declarationKind (d : VarDecl) : DeclarationKind :=
  if d.kind == .const then .const else .let

mutual

/-- The names that a statement declares for its function. -/
def Stmt.varNames : Stmt → List String
  | .declaration d => d.varNames
  | .block b => blockVarNames b
  | .conditional _ _ consequent none => consequent.varNames
  | .conditional _ _ consequent (some alternate) => consequent.varNames ++ alternate.varNames
  | .while _ _ body => body.varNames
  | .doWhile _ body _ => body.varNames
  | .for _ (.declaration d) _ _ body => d.varNames ++ body.varNames
  | .for _ _ _ _ body => body.varNames
  | .forIn _ (.declaration d) _ body => d.varNames ++ body.varNames
  | .forIn _ _ _ body => body.varNames
  | .forOf _ _ (.declaration d) _ body => d.varNames ++ body.varNames
  | .forOf _ _ _ _ body => body.varNames
  | .labelled _ body => body.varNames
  | .switch _ _ cases => casesVarNames cases
  | .try _ b handler finalizer =>
    blockVarNames b ++ handlerVarNames handler ++ optionalVarNames finalizer
  | _ => []

/-- The names that statements declare for their function. -/
def statementsVarNames : List Stmt → List String
  | [] => []
  | s :: rest => s.varNames ++ statementsVarNames rest

/-- The names that a block declares for its function. -/
def blockVarNames : Block → List String
  | ⟨_, statements⟩ => statementsVarNames statements

/-- The names that the clauses of a switch declare for their function. -/
def casesVarNames : List Case → List String
  | [] => []
  | ⟨_, statements⟩ :: rest => statementsVarNames statements ++ casesVarNames rest

/-- The names that a handler declares for its function. -/
def handlerVarNames : Option Handler → List String
  | none => []
  | some ⟨_, _, body⟩ => blockVarNames body

/-- The names that a block, if there is one, declares for its function. -/
def optionalVarNames : Option Block → List String
  | none => []
  | some b => blockVarNames b

end

/-! ### Scopes of syntax -/

namespace Scope

/-- The scope with what a statement of a list declares for the list. -/
def declareStatement (s : Scope) : Stmt → Scope
  | .declaration d => if d.kind.isLexical then s.declareAll d.names d.declarationKind else s
  | .function f => s.hoist f
  | _ => s

/-- The scope with what statements declare for their list. -/
def declareStatements (s : Scope) (statements : List Stmt) : Scope :=
  statements.foldl declareStatement s

/-- The scope of statements between braces. -/
def ofStatements (statements : List Stmt) : Scope := (empty .block).declareStatements statements

/-- The scope of the clauses of a switch. -/
def ofCases (cases : List Case) : Scope :=
  cases.foldl (fun s c => s.declareStatements c.statements) (empty .block)

/-- The scope of the head of a loop. -/
def ofHead (d : VarDecl) : Scope := (empty .block).declareAll d.names d.declarationKind

/-- The scope of a handler. -/
def ofHandler (parameter : Option Pattern) : Scope :=
  (empty .block).declareAll (restNames parameter) .parameter

end Scope

/-- The statements of a body; a concise body has none. -/
def Body.statements : Body → List Stmt
  | .block _ statements => statements
  | .absent | .concise _ => []

namespace Function

/-- Whether the function is only declared. -/
def isBodiless (f : Function) : Bool := f.body matches .absent

/-- Whether the parameters are more than names. -/
def hasParameterExpressions (f : Function) : Bool :=
  f.rest.isSome || f.parameters.any fun b =>
    b.initializer.isSome || !(b.pattern matches .identifier _)

/-- The names of the parameters. -/
def parameterNames (f : Function) : List String := bindingNames f.parameters ++ restNames f.rest

/-- The names that the body declares for the function. -/
def varNames (f : Function) : List String := statementsVarNames f.body.statements

end Function

/-- The scope of a function. -/
def Scope.ofFunction (f : Function) : Scope :=
  (((empty (.function f.hasParameterExpressions)).declareAll f.parameterNames .parameter).declareAll
    f.varNames .var).declareStatements f.body.statements

/-- The scope in which the parameters of a function are. -/
def Scope.ofParameters (f : Function) : Scope :=
  (empty (.function false)).declareAll f.parameterNames .parameter

/-- The scope of the name of a function expression. -/
def Scope.ofName (name : String) : Scope := (empty (.function false)).declare name .function

end Scriptlet
