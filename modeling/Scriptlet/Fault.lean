import Scriptlet.Syntax.Tree

/-!
# Faults

What can be wrong with a source before it runs.

## Main definitions

* `Fault` — the causes, with the places where they were found.
* `Fault.message`, `Fault.label?` — their wording and their place.
* `Rejection` — why a source is not accepted.
-/

namespace Scriptlet

/-- The spelling of the kind. -/
def AccessorKind.symbol : AccessorKind → String
  | .get => "get"
  | .set => "set"

/-- What can be wrong with a source. -/
inductive Fault
  /-- A function is asynchronous. -/
  | asyncFunction (place : Span)
  /-- A function is a generator. -/
  | generatorFunction (place : Span)
  /-- The body of an arrow function is a block where only expressions are allowed. -/
  | statementBody (place : Span)
  /-- A variable belongs to the function and not to the block, against the rules. -/
  | functionVariable (place : Span)
  /-- A form of syntax has no meaning in the language. -/
  | unsupportedNode (kind : String) (place : Span)
  /-- A property reads or writes through a function. -/
  | unsupportedAccessor (kind : AccessorKind) (place : Span)
  /-- A declaration stands beside the function that does not vanish with the types. -/
  | unsupportedDeclaration (kind : String) (place : Span)
  /-- There is no function. -/
  | functionMissing
  /-- There are other statements than one function. -/
  | notOneFunction (kinds : List String)
  /-- A text is not marked as an expression. -/
  | notMarked (text : String)
deriving DecidableEq, Repr

namespace Fault

/-- The wording of the fault. -/
def message : Fault → String
  | asyncFunction _ => "Async function is not allowed"
  | generatorFunction _ => "Generator function is not allowed"
  | statementBody _ => "Only an `Expression` is allowed in `ArrowFunctionExpression`'s body"
  | functionVariable _ =>
    "Var declaration is not recommended, use `let` or `const` instead"
  | unsupportedNode kind _ => "Unsupported node type `" ++ kind ++ "`"
  | unsupportedAccessor kind _ => "Unsupported property kind `" ++ kind.symbol ++ "`"
  | unsupportedDeclaration kind _ => "Unsupported TypeScript syntax: " ++ kind
  | functionMissing => "Function declaration not found"
  | notOneFunction kinds =>
    "Expect a single function declaration, but received: "
      ++ ", ".intercalate (kinds.map fun k => "\"" ++ k ++ "\"")
  | notMarked text =>
    "Expect an evaluable string wrapped in `<% %>`, but received: \"" ++ text ++ "\""

/-- Where the fault was found, if it has a place. -/
def label? : Fault → Option Span
  | asyncFunction s | generatorFunction s | statementBody s | functionVariable s
  | unsupportedNode _ s | unsupportedAccessor _ s | unsupportedDeclaration _ s => some s
  | functionMissing | notOneFunction _ | notMarked _ => none

end Fault

/-- Why a source is not accepted: it does not follow the grammar, or it has faults. -/
inductive Rejection
  | unreadable
  | faulty (first : Fault) (others : List Fault)
deriving DecidableEq, Repr

end Scriptlet
