import Scriptlet.Syntax.Grammar.Declarations

/-!
# The grammar: statements

## Main definitions

* `Parser.blockRule` — statements between braces.
* `Parser.statementRule` — a statement.
-/

namespace Scriptlet

namespace Parser

/-- Statements between braces. -/
def blockRule (g : Grammar) : Parser Block := do
  let s ← start
  let statements ← statementList g
  return ⟨← spanFrom s, statements⟩

/-- An expression between parentheses. -/
def parenthesized (g : Grammar) : Parser Expr := do
  expect "("
  let e ← g .expression
  expect ")"
  return e

/-- A conditional statement. -/
def ifStatement (g : Grammar) (s : Nat) : Parser Stmt := do
  advance
  let test ← parenthesized g
  let consequent ← g (.statement true)
  let alternate ← if ← eatWord "else" then some <$> g (.statement true) else pure none
  return .conditional (← spanFrom s) test consequent alternate

/-- A loop that is tested behind its body. -/
def doStatement (g : Grammar) (s : Nat) : Parser Stmt := do
  advance
  let body ← g (.statement true)
  expectWord "while"
  let test ← parenthesized g
  let _ ← eat ";"
  return .doWhile (← spanFrom s) body test

/-- A loop that is tested before its body. -/
def whileStatement (g : Grammar) (s : Nat) : Parser Stmt := do
  advance
  let test ← parenthesized g
  let body ← g (.statement true)
  return .while (← spanFrom s) test body

/-- A counting loop from the first semicolon on. -/
def forTail (g : Grammar) (s : Nat) (init : LoopInit) : Parser Stmt := do
  expect ";"
  let test ← if ← isMark ";" then pure none else some <$> g .expression
  expect ";"
  let update ← if ← isMark ")" then pure none else some <$> g .expression
  expect ")"
  let body ← g (.statement true)
  return .for (← spanFrom s) init test update body

/-- A loop over a collection behind what its values are given to. -/
def forEachTail (g : Grammar) (s : Nat) (isAwait : Bool) (head : LoopHead) : Parser Stmt := do
  if ← eatWord "of" then
    let subject ← g (.assignment true)
    expect ")"
    let body ← g (.statement true)
    return .forOf (← spanFrom s) isAwait head subject body
  else
    ensure !isAwait
    expectWord "in"
    let subject ← g .expression
    expect ")"
    let body ← g (.statement true)
    return .forIn (← spanFrom s) head subject body

/-- Whether a collection follows. -/
def atCollection : Parser Bool := do
  return (← isWord "of") || (← isWord "in")

/-- Whether an expression is the name that may not stand before `of`. -/
def isAsyncName : Expr → Bool
  | .identifier _ n => n == "async"
  | _ => false

/-- Runs a rule where `in` is no operator. -/
def withoutIn {α : Type} (p : Parser α) : Parser α :=
  withReader (fun t => { t with allowIn := false }) p

/-- A loop with a head between parentheses. -/
def forStatement (g : Grammar) (s : Nat) : Parser Stmt := do
  advance
  let isAwait ← eatWord "await"
  ensure (!isAwait || (← read).inAsync)
  expect "("
  if (← isMark ";") && !isAwait then return ← forTail g s .none
  let headStart ← start
  match ← variableKind? with
  | some kind =>
    -- The word `in` belongs to the loop, not to an expression of the head.
    let bindings ← withoutIn (declarators g)
    let d : VarDecl := ⟨← spanFrom headStart, kind, (← read).ambient, bindings⟩
    if ← atCollection then forEachTail g s isAwait (.declaration d)
    else
      -- A constant or a pattern without a value is only allowed in a loop over a collection.
      ensure (!isAwait && areComplete kind bindings)
      forTail g s (.declaration d)
  | none =>
    let e ← withoutIn (g .expression)
    if ← atCollection then
      -- `for (async of` would begin an arrow function.
      ensure !(isAsyncName e && !isAwait && (← isWord "of"))
      forEachTail g s isAwait (.target (← e.toTarget))
    else
      ensure !isAwait
      forTail g s (.expression e)

/-- A statement that leaves a function. -/
def returnStatement (g : Grammar) (s : Nat) : Parser Stmt := do
  ensure (← read).inFunction
  advance
  let value ← if ← mayEndStatement then pure none else some <$> g .expression
  endStatement
  return .return (← spanFrom s) value

/-- A statement that throws a value, which starts on the same line. -/
def throwStatement (g : Grammar) (s : Nat) : Parser Stmt := do
  advance
  ensure !(← onNewLine)
  let value ← g .expression
  endStatement
  return .throw (← spanFrom s) value

/-- The label behind a jump, if there is one, and the end of the statement. -/
def jumpTail : Parser Bool := do
  advance
  let isLabelled ← if ← mayEndStatement then pure false else do
    let _ ← name
    pure true
  endStatement
  return isLabelled

/-- The handler of thrown values. -/
def handler (g : Grammar) : Parser Handler := do
  let s ← start
  expectWord "catch"
  let parameter ←
    if ← eat "(" then do
      let p ← g .pattern
      typeAnnotation g
      expect ")"
      pure (some p)
    else pure none
  let body ← g .block
  return ⟨← spanFrom s, parameter, body⟩

/-- A statement whose thrown values are handled. -/
def tryStatement (g : Grammar) (s : Nat) : Parser Stmt := do
  advance
  let block ← g .block
  let handler ← if ← isWord "catch" then some <$> handler g else pure none
  let finalizer ← if ← eatWord "finally" then some <$> g .block else pure none
  ensure (handler.isSome || finalizer.isSome)
  return .try (← spanFrom s) block handler finalizer

/-- A clause of a switch. -/
def switchCase (g : Grammar) : Parser Case := do
  let test ←
    if ← eatWord "default" then pure none
    else do
      expectWord "case"
      some <$> g .expression
  expect ":"
  let statements ← collect do
    if (← isMark "\x7d") || (← isWord "case") || (← isWord "default") then return none
    else return some (← g (.statement false))
  return ⟨test, statements⟩

/-- A choice between clauses. -/
def switchStatement (g : Grammar) (s : Nat) : Parser Stmt := do
  advance
  let subject ← parenthesized g
  expect "\x7b"
  let cases ← collect do
    if ← isMark "\x7d" then return none else return some (← switchCase g)
  expect "\x7d"
  return .switch (← spanFrom s) subject cases

/-- A statement that changes the meaning of names. -/
def withStatement (g : Grammar) (s : Nat) : Parser Stmt := do
  advance
  let _ ← parenthesized g
  let _ ← g (.statement true)
  return .foreign (← spanFrom s) .with

/-- An expression as a statement, or a statement with a label. -/
def expressionStatement (g : Grammar) (s : Nat) : Parser Stmt := do
  let e ← g .expression
  match e with
  | .identifier _ _ =>
    if ← eat ":" then
      let body ← g (.statement true)
      return .labelled (← spanFrom s) body
    else
      endStatement
      return .expression (← spanFrom s) e
  | _ =>
    endStatement
    return .expression (← spanFrom s) e

/-- A declaration of variables, a function or something that exists for the sake of types, if there
is one.  As the only statement of another one, variables belong to a function and functions are
plain. -/
def declaration? (g : Grammar) (isSingle : Bool) (s : Nat) : Parser (Option Stmt) := do
  if ← typescript then
    match ← typedDeclaration? g s with
    | some d =>
      return some d
    | none =>
      if (← isWord "declare") && (← declarationFollows) then
        advance
        return some (← ambientDeclaration g s)
  match ← functionDeclaration? g s with
  | some f =>
    ensure !(isSingle && (f.isAsync || f.isGenerator))
    return some (.function f)
  | none =>
    if isSingle && (← isWord "let") && !(← markFollows "[") then return none
    match ← variableKind? with
    | some kind =>
      ensure (kind == .var || !isSingle)
      return some (← variableStatement g s kind)
    | none => return none

/-- A statement that starts with a word, written without escapes. -/
def wordStatement (g : Grammar) (isSingle : Bool) (s : Nat) (w : String) : Parser Stmt := do
  match w with
  | "if" => ifStatement g s
  | "do" => doStatement g s
  | "while" => whileStatement g s
  | "for" => forStatement g s
  | "continue" =>
    let isLabelled ← jumpTail
    return .continue (← spanFrom s) isLabelled
  | "break" =>
    let isLabelled ← jumpTail
    return .break (← spanFrom s) isLabelled
  | "return" => returnStatement g s
  | "with" => withStatement g s
  | "switch" => switchStatement g s
  | "throw" => throwStatement g s
  | "try" => tryStatement g s
  | "debugger" =>
    advance
    endStatement
    return .foreign (← spanFrom s) .debugger
  | "class" =>
    ensure !isSingle
    g .classTail
    return .foreign (← spanFrom s) (.classDeclaration (← read).ambient)
  | "import" =>
    if (← markFollows "(") || (← markFollows ".") then expressionStatement g s
    else importDeclaration s
  | "export" => exportDeclaration g s
  | _ =>
    match ← declaration? g isSingle s with
    | some d => return d
    | none => expressionStatement g s

/-- A statement; `isSingle` if it is the only statement of another one. -/
def statementRule (g : Grammar) (isSingle : Bool) : Parser Stmt := do
  let s ← start
  match ← token with
  | .mark "\x7b" => return .block (← g .block)
  | .mark ";" =>
    advance
    return .empty (← spanFrom s)
  | .mark "@" =>
    skipDecorators g
    if ← isWord "export" then exportDeclaration g s
    else
      let isAbstract ← eatWord "abstract"
      g .classTail
      return .foreign (← spanFrom s) (.classDeclaration (isAbstract || (← read).ambient))
  | .word w false => wordStatement g isSingle s w
  | _ => expressionStatement g s

end Parser

end Scriptlet
