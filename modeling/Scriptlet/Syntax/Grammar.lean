import Scriptlet.Syntax.Grammar.Expressions
import Scriptlet.Syntax.Grammar.Statements

/-!
# The grammar

The rules are interpreted to a depth that no source of the given length reaches: between two nested
uses of the same rule at least one character is read, and there are few rules.

## Main definitions

* `grammar` — the interpretation of the rules to a given depth.
* `parseProgram?` — the statements of a program.
* `parseExpression?` — the expression that a source starts with.
-/

namespace Scriptlet

/-- The rules, interpreted to the given depth. -/
def grammar : Nat → Grammar
  | 0 => fun _ => Parser.reject
  | depth + 1 => fun
    | .expression => Parser.expressionRule (grammar depth)
    | .assignment allowReturnType => Parser.assignmentRule (grammar depth) allowReturnType
    | .binary least => Parser.binaryRule (grammar depth) least
    | .unary => Parser.unaryRule (grammar depth)
    | .leftHandSide => Parser.leftHandSideRule (grammar depth)
    | .pattern => Parser.patternBody (grammar depth)
    | .function start form isAsync nameNeeded =>
      Parser.functionRule (grammar depth) start form isAsync nameNeeded
    | .body isAsync isGenerator => Parser.functionBody (grammar depth) isAsync isGenerator
    | .block => Parser.blockRule (grammar depth)
    | .statement isSingle => Parser.statementRule (grammar depth) isSingle
    | .type => Parser.typeBody (grammar depth)
    | .classTail => Parser.classBody (grammar depth)

/-- The number of different rules, and a little more. -/
def rulesPerCharacter : Nat := 16

/-- Runs a rule on a source of which `skipped` bytes have been skipped. -/
def Parser.run? {α : Type} (typescript : Bool) (rule : Grammar → Parser α) (cs : List Char)
    (skipped : Nat) : Option α := do
  let limit := cs.length
  let setting : Setting :=
    { typescript, limit, allowIn := true, inAsync := true, inGenerator := false
      inFunction := false, ambient := false, allowConditionalType := true }
  let first ← Lexer.next? cs skipped
  let (a, c) ← rule (grammar (rulesPerCharacter * (limit + 4))) setting ⟨first, skipped, [], []⟩
  if c.openShorthands.isEmpty then some a else none

/-- The statements of a program. -/
def parseProgram? (typescript : Bool) (cs : List Char) : Option (List Stmt) :=
  let (cs, skipped) := Lexer.skipInterpreterLine cs
  Parser.run? typescript (fun g => Parser.statementsUntil g Parser.atEnd) cs skipped

/-- The expression that a source starts with.  What follows it has to start with a token. -/
def parseExpression? (typescript : Bool) (cs : List Char) : Option Expr :=
  Parser.run? typescript (fun g => g .expression) cs 0

end Scriptlet
