import Scriptlet.Scope.Analysis
import Scriptlet.Syntax.Grammar
import Scriptlet.Syntax.Pipeline

/-!
# Sources

## Main definitions

* `Source` — a text with the places of its pipeline operators.
* `Source.slice`, `Source.quoting` — pieces of it, and messages that quote them.
* `Source.function`, `Source.expression` — the function or the expression that it holds.
-/

namespace Scriptlet

/-- A text with the places of its pipeline operators. -/
structure Source where
  /-- The text as it was written. -/
  text : String
  /-- The offsets of the pipeline operators, ascending. -/
  pipelines : List Nat
deriving DecidableEq, Repr, Inhabited

/-- The characters behind the first `n` bytes. -/
def dropBytes : Nat → List Char → List Char
  | 0, cs => cs
  | _, [] => []
  | n + 1, c :: cs => dropBytes (n + 1 - c.utf8Size) cs

/-- The characters in the first `n` bytes. -/
def takeBytes : Nat → List Char → List Char
  | 0, _ => []
  | _, [] => []
  | n + 1, c :: cs => c :: takeBytes (n + 1 - c.utf8Size) cs

namespace Source

/-- The source with the given text. -/
def ofString (text : String) : Source := ⟨text, Pipeline.locate text.toList⟩

/-- The characters that the grammar reads. -/
def readable (s : Source) : List Char := Pipeline.respell s.pipelines s.text.toList

/-- The text at a place. -/
def slice (s : Source) (place : Span) : String :=
  String.ofList (takeBytes place.length (dropBytes place.start s.text.toList))

/-- A message that quotes the text at a place, if there is any. -/
def quoting (s : Source) (message : String) (place : Span) : String :=
  let text := s.slice place
  if text.isEmpty then message else message ++ ": `" ++ text ++ "`"

/-- The message for a fault, with the text at its place. -/
def describe (s : Source) (f : Fault) : String :=
  match f.label? with
  | some place => s.quoting f.message place
  | none => f.message

/-- Whether a pipeline operator lies between two offsets. -/
def hasPipeline (s : Source) (first last : Nat) : Bool :=
  s.pipelines.any fun o => first ≤ o && o < last

end Source

/-! ### What a source holds -/

/-- The name of a statement that may not stand beside a function, whether types may be written or
not. -/
def Stmt.strange? : Stmt → Option String
  | .foreign _ form =>
    match form with
    | .with | .debugger | .classDeclaration _ => none
    | _ => some form.kind
  | _ => none

/-- Whether a statement vanishes with the types. -/
def Stmt.vanishes : Stmt → Bool
  | .typeAlias _ | .interface _ => true
  | .declaration d => d.isAmbient
  | .function f => f.isAmbient || f.isBodiless
  | .foreign _ (.classDeclaration isAmbient) => isAmbient
  | _ => false

/-- The only function of a program, besides what vanishes with the types. -/
def soleFunction (typescript : Bool) (program : List Stmt) : Except Fault Function :=
  match program.findSome? fun s => s.strange?.map fun kind => (kind, s.span) with
  | some (kind, place) => .error (.unsupportedDeclaration kind place)
  | none =>
    match program.filter fun s => !(typescript && s.vanishes) with
    | [] => .error .functionMissing
    | [.function f] => .ok f
    | statements => .error (.notOneFunction (statements.map Stmt.kind))

namespace Source

/-- The function that the source holds. -/
def function (s : Source) (typescript : Bool) : Except Rejection Function :=
  match parseProgram? typescript s.readable with
  | none => .error .unreadable
  | some program =>
    match soleFunction typescript program with
    | .ok f => .ok f
    | .error f => .error (.faulty f [])

/-- The expression that the source starts with. -/
def expression (s : Source) (typescript : Bool) : Except Rejection Expr :=
  match parseExpression? typescript s.readable with
  | none => .error .unreadable
  | some e => .ok e

end Source

end Scriptlet
