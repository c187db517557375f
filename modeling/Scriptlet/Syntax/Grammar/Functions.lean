import Scriptlet.Syntax.Grammar.Types

/-!
# The grammar: functions and classes

Classes are foreign to the language, so that they are read and dropped.

## Main definitions

* `Parser.functionBody` — the statements of a function between braces.
* `Parser.functionTail` — a function from its parameters on.
* `Parser.functionRule` — a function with the word `function`.
* `Parser.classBody` — a class from the word `class` on.
-/

namespace Scriptlet

namespace Parser

/-- Runs a rule inside a function. -/
def insideFunction {α : Type} (isAsync isGenerator : Bool) (p : Parser α) : Parser α :=
  withReader
    (fun s => { s with
      inAsync := isAsync, inGenerator := isGenerator, inFunction := true, allowIn := true }) p

/-- Runs a rule where the parameters of a function stand. -/
def insideParameters {α : Type} (isAsync isGenerator : Bool) (p : Parser α) : Parser α :=
  withReader (fun s => { s with inAsync := isAsync, inGenerator := isGenerator }) p

/-- Whether a statement is a string on its own, and thus a directive at the start of a body. -/
def isDirective : Stmt → Bool
  | .expression _ (.constant _ (.string _)) => true
  | _ => false

/-- Statements up to the given end, without the directives that they start with. -/
def statementsUntil (g : Grammar) (finished : Parser Bool) : Parser (List Stmt) := do
  let statements ← collect do
    if ← finished then return none else return some (← g (.statement false))
  return statements.dropWhile isDirective

/-- The statements of a function between braces. -/
def functionBody (g : Grammar) (isAsync isGenerator : Bool) : Parser (List Stmt) :=
  insideFunction isAsync isGenerator do
    expect "\x7b"
    let statements ← statementsUntil g (isMark "\x7d")
    expect "\x7d"
    return statements

/-- The body of a function; where types may be written a declaration or a method may have none. -/
def optionalBody (g : Grammar) (isAsync isGenerator mayMiss : Bool) : Parser Body := do
  if ← isMark "\x7b" then
    let s ← start
    let statements ← g (.body isAsync isGenerator)
    return .block (← spanFrom s) statements
  else
    ensure (mayMiss && (← typescript))
    endStatement
    return .absent

/-- A function from its parameters on. -/
def functionTail (g : Grammar) (start : Nat) (form : FunctionForm) (name : Option String)
    (isAsync isGenerator mayMiss : Bool) : Parser Function := do
  typeParameters? g
  let (bindings, rest) ← insideParameters isAsync isGenerator (parameters g)
  returnType g
  let body ← optionalBody g isAsync isGenerator mayMiss
  let isAmbient := (← read).ambient
  return ⟨← spanFrom start, form, name, isAsync, isGenerator, isAmbient, bindings, rest, body⟩

/-- A function from the word `function` on. -/
def functionRule (g : Grammar) (start : Nat) (form : FunctionForm) (isAsync nameNeeded : Bool) :
    Parser Function := do
  expectWord "function"
  let isGenerator ← eat "*"
  let found ←
    match form with
    | .declaration => name?
    | _ => insideParameters isAsync isGenerator name?
  if found.isSome then advance
  ensure (found.isSome || !nameNeeded)
  functionTail g start form found isAsync isGenerator (form == .declaration)

/-! ### Classes -/

/-- Words that may stand before a member of a class. -/
def memberModifiers : List String :=
  ["static", "async", "get", "set", "accessor", "public", "private", "protected", "readonly",
   "abstract", "override", "declare"]

/-- Whether the token at hand shows that the word before it was the name of a member. -/
def endsMemberName : Parser Bool := do
  match ← token with
  | .mark m => return ["(", "=", ";", "\x7d", "?", "!", ":", ",", "<"].contains m
  | .endOfInput => return true
  | _ => return false

/-- Skips a modifier of a member, if there is one; true for the one that makes a function
asynchronous. -/
def memberModifier? : Parser (Option Bool) := do
  match ← plainWord? with
  | some w =>
    if memberModifiers.contains w then
      attempt do
        advance
        ensure !(← endsMemberName)
        ensure !(w == "async" && (← onNewLine))
        return w == "async"
    else return none
  | none => return none

/-- Skips the decorators before a class or a member. -/
def skipDecorators (g : Grammar) : Parser Unit := do
  let _ ← collect do
    if ← eat "@" then
      let _ ← g .leftHandSide
      return some ()
    else return none

/-- The name of a member of a class. -/
def classMemberName (g : Grammar) : Parser Unit := do
  match ← token with
  | .privateName => advance
  | _ =>
    let _ ← propertyName g

/-- A member of a class from its name on. -/
def classMemberTail (g : Grammar) (start : Nat) (isAsync isGenerator : Bool) : Parser Unit := do
  classMemberName g
  if ← typescript then
    let _ ← eatAny ["?", "!"]
  if (← isMark "(") || (← isMark "<") then
    let _ ← functionTail g start .expression none isAsync isGenerator true
  else
    typeAnnotation g
    let _ ← insideFunction false false (initializer? g)
    endStatement

/-- A member of a class. -/
def classMember (g : Grammar) : Parser Unit := do
  if ← eat ";" then return ()
  skipDecorators g
  let start ← start
  let isBlock ← attempt do
    expectWord "static"
    let _ ← functionBody g false false
  if isBlock.isSome then return ()
  let modifiers ← collect memberModifier?
  let indexed ← attempt do
    ensure (← typescript)
    indexMember g
    endStatement
  if indexed.isNone then
    let isGenerator ← eat "*"
    classMemberTail g start (modifiers.contains true) isGenerator

/-- A class from the word `class` on. -/
def classBody (g : Grammar) : Parser Unit := do
  expectWord "class"
  unless (← isWord "extends") || (← isWord "implements") do
    if (← name?).isSome then advance
  typeParameters? g
  if ← eatWord "extends" then
    let _ ← g .leftHandSide
    if ← typescript then typeArguments? g
  if (← typescript) && (← eatWord "implements") then
    g .type
    let _ ← collect do
      if ← eat "," then
        g .type
        return some ()
      else return none
  expect "\x7b"
  let _ ← collect do
    if ← isMark "\x7d" then return none
    else
      classMember g
      return some ()
  expect "\x7d"

end Parser

end Scriptlet
