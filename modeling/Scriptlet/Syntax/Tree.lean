import Scriptlet.Text.Basic
import Scriptlet.Syntax.Operator

/-!
# Syntax trees

The trees that the parser builds.  Types are not kept: what is only there for them leaves a wrapper
around an expression, an inert statement, or nothing.  Syntax outside the language is kept as a
leaf, so that it can be reported where it stands.

## Main definitions

* `Span` — a range of byte offsets into the source.
* `Expr`, `Target`, `Pattern`, `Function`, `Stmt` — the trees.
* `Expr.span`, `Stmt.span` — where a tree was written.
* `Expr.kind`, `Stmt.kind` — the names by which diagnostics call a tree.
* `Expr.node`, `Stmt.node` — the names by which a trace of the evaluation calls a tree.
* `Expr.inner` — the expression inside parentheses and type annotations.
-/

namespace Scriptlet

/-- A range of byte offsets into the source: `start` belongs to it and `stop` does not. -/
structure Span where
  /-- The offset of the first byte. -/
  start : Nat
  /-- The offset behind the last byte. -/
  stop : Nat
deriving DecidableEq, Repr, Inhabited

/-- The number of bytes. -/
def Span.length (s : Span) : Nat := s.stop - s.start

/-- Values that are written down directly. -/
inductive Constant
  | null
  | boolean (b : Bool)
  | number (x : Float)
  | string (t : Text)

/-- Expressions that can be written but have no meaning in the language. -/
inductive ForeignExpr
  | this | super | classLiteral | yield | await | importCall | metaProperty | privateIn | regExp
  | bigInt
deriving DecidableEq, Repr

/-- Statements that can be written but have no meaning in the language.  A class is ambient if it
is only declared or abstract. -/
inductive ForeignStmt
  | with | debugger | classDeclaration (ambient : Bool) | enum | module | global | importEquals
  | exportAssignment | namespaceExport | import | exportAll | exportDefault | exportNamed
deriving DecidableEq, Repr

/-- What can stand around an expression without changing its value. -/
inductive Wrapper
  | parentheses | as | satisfies | assertion | nonNull | instantiation
deriving DecidableEq, Repr

/-- The ways to declare variables. -/
inductive VarKind
  | var | let | const | using | awaitUsing
deriving DecidableEq, Repr

/-- Whether the variables belong to the block and not to the function. -/
def VarKind.isLexical (k : VarKind) : Bool := k != .var

/-- The ways to write a function. -/
inductive FunctionForm
  | declaration | expression | arrow
deriving DecidableEq, Repr

/-- A piece of the text of a template: its value, unless an escape in it is wrong, and its
spelling. -/
structure Quasi where
  /-- The value; none if an escape is wrong. -/
  value : Option Text
  /-- The spelling. -/
  raw : String

/-- The kinds of property that are not data. -/
inductive AccessorKind
  | get | set
deriving DecidableEq, Repr

mutual

/-- Expressions. -/
inductive Expr
  | constant (span : Span) (value : Constant)
  | identifier (span : Span) (name : String)
  | template (t : Template)
  | tagged (span : Span) (tag : Expr) (t : Template)
  | array (span : Span) (elements : List Element)
  | object (span : Span) (properties : List Property)
  | function (f : Function)
  | unary (span : Span) (op : UnaryOp) (operand : Expr)
  | update (span : Span) (op : UpdateOp) (before : Bool) (target : Target)
  | binary (span : Span) (op : BinaryOp) (left right : Expr)
  | logical (span : Span) (op : LogicalOp) (left right : Expr)
  | conditional (span : Span) (test consequent alternate : Expr)
  | assign (span : Span) (op : AssignOp) (target : Target) (value : Expr)
  | sequence (span : Span) (items : List Expr)
  | call (span : Span) (callee : Expr) (arguments : List Argument) (isOptional : Bool)
  | construct (span : Span) (callee : Expr) (arguments : List Argument)
  | member (span : Span) (object : Expr) (name : String) (isOptional : Bool)
  | index (span : Span) (object key : Expr) (isOptional : Bool)
  | privateMember (span : Span) (object : Expr) (field : Span) (isOptional : Bool)
  | chain (span : Span) (link : Expr)
  | wrapped (span : Span) (wrapper : Wrapper) (content : Expr)
  | foreign (span : Span) (form : ForeignExpr)

/-- Template literals: `quasis` has one piece more than there are expressions. -/
structure Template where
  /-- Where it was written. -/
  span : Span
  /-- The pieces of text. -/
  quasis : List Quasi
  /-- The expressions between them. -/
  expressions : List Expr

/-- Elements of an array literal. -/
inductive Element
  | hole
  | item (e : Expr)
  | spread (e : Expr)

/-- Arguments of a call. -/
inductive Argument
  | item (e : Expr)
  | spread (e : Expr)

/-- Names of properties.  A name that is an integer with suffix is foreign to the language. -/
inductive PropertyName
  | fixed (name : Text)
  | computed (e : Expr)
  | bigInt (span : Span)

/-- Properties of an object literal.  A shorthand property has an initializer only where the literal
turns out to be a pattern. -/
inductive Property
  | data (name : PropertyName) (value : Expr)
  | shorthand (span : Span) (name : String) (initializer : Option Expr)
  | accessor (span : Span) (kind : AccessorKind)
  | spread (e : Expr)

/-- What can be assigned to. -/
inductive Target
  | identifier (span : Span) (name : String)
  | member (span : Span) (object : Expr) (name : String)
  | index (span : Span) (object key : Expr)
  | privateMember (span : Span) (field : Span)
  | wrapped (span : Span) (content : Expr)
  | array (elements : List (Option TargetElement)) (rest : Option Target)
  | object (properties : List TargetProperty) (rest : Option Target)

/-- A part of an assigned pattern, with the value that replaces undefined. -/
structure TargetElement where
  /-- What is assigned to. -/
  target : Target
  /-- The value that replaces undefined. -/
  initializer : Option Expr

/-- Properties of an assigned object pattern. -/
inductive TargetProperty
  | shorthand (span : Span) (name : String) (initializer : Option Expr)
  | named (name : PropertyName) (element : TargetElement)

/-- Patterns that declare names. -/
inductive Pattern
  | identifier (name : String)
  | array (elements : List (Option Pattern)) (rest : Option Pattern)
  | object (properties : List PatternProperty) (rest : Option Pattern)
  | withDefault (target : Pattern) (initializer : Expr)

/-- Properties of a declared object pattern. -/
structure PatternProperty where
  /-- The name of the property. -/
  name : PropertyName
  /-- The pattern for its value. -/
  value : Pattern

/-- One parameter of a function, or one part of a declaration of variables. -/
structure Binding where
  /-- The declared pattern. -/
  pattern : Pattern
  /-- The value of a variable, or the value that replaces an argument that is undefined. -/
  initializer : Option Expr

/-- Bodies of functions; a function that is only declared has none. -/
inductive Body
  | absent
  | block (span : Span) (statements : List Stmt)
  | concise (e : Expr)

/-- Functions of all forms. -/
structure Function where
  /-- Where it was written. -/
  span : Span
  /-- How it was written. -/
  form : FunctionForm
  /-- Its own name. -/
  name : Option String
  /-- Whether it is asynchronous. -/
  isAsync : Bool
  /-- Whether it is a generator. -/
  isGenerator : Bool
  /-- Whether it is only declared. -/
  isAmbient : Bool
  /-- The parameters. -/
  parameters : List Binding
  /-- The pattern for the arguments left over. -/
  rest : Option Pattern
  /-- The body. -/
  body : Body

/-- Declarations of variables. -/
structure VarDecl where
  /-- Where it was written. -/
  span : Span
  /-- How the variables are declared. -/
  kind : VarKind
  /-- Whether they are declared for the sake of types only. -/
  isAmbient : Bool
  /-- The declared patterns with their values. -/
  bindings : List Binding

/-- What a loop over a collection gives its values to. -/
inductive LoopHead
  | declaration (d : VarDecl)
  | target (t : Target)

/-- What a counting loop starts with. -/
inductive LoopInit
  | none
  | declaration (d : VarDecl)
  | expression (e : Expr)

/-- Statements. -/
inductive Stmt
  | empty (span : Span)
  | expression (span : Span) (e : Expr)
  | declaration (d : VarDecl)
  | function (f : Function)
  | block (b : Block)
  | conditional (span : Span) (test : Expr) (consequent : Stmt) (alternate : Option Stmt)
  | while (span : Span) (test : Expr) (body : Stmt)
  | doWhile (span : Span) (body : Stmt) (test : Expr)
  | for (span : Span) (init : LoopInit) (test update : Option Expr) (body : Stmt)
  | forIn (span : Span) (head : LoopHead) (subject : Expr) (body : Stmt)
  | forOf (span : Span) (isAwait : Bool) (head : LoopHead) (subject : Expr) (body : Stmt)
  | switch (span : Span) (subject : Expr) (cases : List Case)
  | try (span : Span) (block : Block) (handler : Option Handler) (finalizer : Option Block)
  | return (span : Span) (value : Option Expr)
  | throw (span : Span) (value : Expr)
  | break (span : Span) (isLabelled : Bool)
  | continue (span : Span) (isLabelled : Bool)
  | labelled (span : Span) (body : Stmt)
  | typeAlias (span : Span)
  | interface (span : Span)
  | foreign (span : Span) (form : ForeignStmt)

/-- Statements between braces. -/
structure Block where
  /-- Where it was written. -/
  span : Span
  /-- The statements. -/
  statements : List Stmt

/-- Clauses of a switch; the default clause has no test. -/
structure Case where
  /-- The value that selects the clause. -/
  test : Option Expr
  /-- The statements of the clause. -/
  statements : List Stmt

/-- Handlers of thrown values. -/
structure Handler where
  /-- Where it was written. -/
  span : Span
  /-- The pattern for the thrown value. -/
  parameter : Option Pattern
  /-- The body. -/
  body : Block

end

instance : Inhabited Expr := ⟨.identifier default ""⟩
instance : Inhabited Stmt := ⟨.empty default⟩
instance : Inhabited Pattern := ⟨.identifier ""⟩
instance : Inhabited Target := ⟨.identifier default ""⟩

/-! ### Names of trees -/

/-- The name of the form in diagnostics. -/
def ForeignExpr.kind : ForeignExpr → String
  | .this => "ThisExpression"
  | .super => "Super"
  | .classLiteral => "ClassExpression"
  | .yield => "YieldExpression"
  | .await => "AwaitExpression"
  | .importCall => "ImportExpression"
  | .metaProperty => "MetaProperty"
  | .privateIn => "PrivateInExpression"
  | .regExp => "RegExpLiteral"
  | .bigInt => "BigIntLiteral"

/-- The name of the form in a trace. -/
def ForeignExpr.node : ForeignExpr → String
  | .classLiteral => "Class"
  | form => form.kind

/-- The name of the form in diagnostics. -/
def ForeignStmt.kind : ForeignStmt → String
  | .with => "WithStatement"
  | .debugger => "DebuggerStatement"
  | .classDeclaration _ => "ClassDeclaration"
  | .enum => "TSEnumDeclaration"
  | .module => "TSModuleDeclaration"
  | .global => "TSModuleDeclaration"
  | .importEquals => "TSImportEqualsDeclaration"
  | .exportAssignment => "TSExportAssignment"
  | .namespaceExport => "TSNamespaceExportDeclaration"
  | .import => "ImportDeclaration"
  | .exportAll => "ExportAllDeclaration"
  | .exportDefault => "ExportDefaultDeclaration"
  | .exportNamed => "ExportNamedDeclaration"

/-- The name of the form in a trace. -/
def ForeignStmt.node : ForeignStmt → String
  | .classDeclaration _ => "Class"
  | .global => "TSGlobalDeclaration"
  | form => form.kind

/-- The name of the wrapper in diagnostics and in a trace. -/
def Wrapper.kind : Wrapper → String
  | .parentheses => "ParenthesizedExpression"
  | .as => "TSAsExpression"
  | .satisfies => "TSSatisfiesExpression"
  | .assertion => "TSTypeAssertion"
  | .nonNull => "TSNonNullExpression"
  | .instantiation => "TSInstantiationExpression"

/-- The name of the constant in a trace. -/
def Constant.node : Constant → String
  | .null => "NullLiteral"
  | .boolean _ => "BooleanLiteral"
  | .number _ => "NumericLiteral"
  | .string _ => "StringLiteral"

/-- The name of a function expression in diagnostics. -/
def FunctionForm.kind : FunctionForm → String
  | .declaration => "FunctionDeclaration"
  | .expression => "FunctionExpression"
  | .arrow => "ArrowFunctionExpression"

/-- The name of a function in a trace. -/
def FunctionForm.node : FunctionForm → String
  | .arrow => "ArrowFunctionExpression"
  | _ => "Function"

namespace Expr

/-- Where the expression was written. -/
def span : Expr → Span
  | constant s _ | identifier s _ | tagged s _ _ | array s _ | object s _ | unary s _ _
  | update s _ _ _ | binary s _ _ _ | logical s _ _ _ | conditional s _ _ _ | assign s _ _ _
  | sequence s _ | call s _ _ _ | construct s _ _ | member s _ _ _ | index s _ _ _
  | privateMember s _ _ _ | chain s _ | wrapped s _ _ | foreign s _ => s
  | template t => t.span
  | function f => f.span

/-- The name of the expression in diagnostics. -/
def kind : Expr → String
  | constant _ _ => "Literal"
  | identifier _ _ => "Identifier"
  | template _ => "TemplateLiteral"
  | tagged _ _ _ => "TaggedTemplateExpression"
  | array _ _ => "ArrayExpression"
  | object _ _ => "ObjectExpression"
  | function f => f.form.kind
  | unary _ _ _ => "UnaryExpression"
  | update _ _ _ _ => "UpdateExpression"
  | binary _ _ _ _ => "BinaryExpression"
  | logical _ _ _ _ => "LogicalExpression"
  | conditional _ _ _ _ => "ConditionalExpression"
  | assign _ _ _ _ => "AssignmentExpression"
  | sequence _ _ => "SequenceExpression"
  | call _ _ _ _ => "CallExpression"
  | construct _ _ _ => "NewExpression"
  | member _ _ _ _ | index _ _ _ _ | privateMember _ _ _ _ => "MemberExpression"
  | chain _ _ => "ChainExpression"
  | wrapped _ w _ => w.kind
  | foreign _ form => form.kind

/-- The name of the expression in a trace. -/
def node : Expr → String
  | constant _ c => c.node
  | identifier _ _ => "IdentifierReference"
  | function f => f.form.node
  | member _ _ _ _ => "StaticMemberExpression"
  | index _ _ _ _ => "ComputedMemberExpression"
  | privateMember _ _ _ _ => "PrivateFieldExpression"
  | foreign _ form => form.node
  | e => e.kind

/-- The expression inside all wrappers. -/
def inner : Expr → Expr
  | wrapped _ _ e => e.inner
  | e => e

/-- Whether the expression is a function without a name of its own. -/
def isAnonymousFunction (e : Expr) : Bool :=
  match e.inner with
  | function f => f.name.isNone
  | _ => false

end Expr

namespace Stmt

/-- Where the statement was written. -/
def span : Stmt → Span
  | empty s | expression s _ | conditional s _ _ _ | «while» s _ _ | doWhile s _ _
  | «for» s _ _ _ _ | forIn s _ _ _ | forOf s _ _ _ _ | switch s _ _ | «try» s _ _ _
  | «return» s _ | throw s _ | «break» s _ | «continue» s _ | labelled s _ | typeAlias s
  | interface s | foreign s _ => s
  | declaration d => d.span
  | function f => f.span
  | block b => b.span

/-- The name of the statement in diagnostics. -/
def kind : Stmt → String
  | empty _ => "EmptyStatement"
  | expression _ _ => "ExpressionStatement"
  | declaration _ => "VariableDeclaration"
  | function _ => "FunctionDeclaration"
  | block _ => "BlockStatement"
  | conditional _ _ _ _ => "IfStatement"
  | «while» _ _ _ => "WhileStatement"
  | doWhile _ _ _ => "DoWhileStatement"
  | «for» _ _ _ _ _ => "ForStatement"
  | forIn _ _ _ _ => "ForInStatement"
  | forOf _ _ _ _ _ => "ForOfStatement"
  | switch _ _ _ => "SwitchStatement"
  | «try» _ _ _ _ => "TryStatement"
  | «return» _ _ => "ReturnStatement"
  | throw _ _ => "ThrowStatement"
  | «break» _ _ => "BreakStatement"
  | «continue» _ _ => "ContinueStatement"
  | labelled _ _ => "LabeledStatement"
  | typeAlias _ => "TSTypeAliasDeclaration"
  | interface _ => "TSInterfaceDeclaration"
  | foreign _ form => form.kind

/-- The name of the statement in a trace. -/
def node : Stmt → String
  | function f => f.form.node
  | foreign _ form => form.node
  | s => s.kind

end Stmt

end Scriptlet
