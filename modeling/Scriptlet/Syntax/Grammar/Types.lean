import Scriptlet.Syntax.Grammar.Patterns

/-!
# The grammar: types

Types are read and dropped, so that only their extent matters.

## Main definitions

* `Parser.typeBody` — a type.
* `Parser.typeParameters`, `Parser.typeArguments` — lists of types between angle brackets.
* `Parser.returnType` — the type of a result, which may be a predicate on a parameter.
* `Parser.typeMembers` — the members of an object type or an interface.
-/

namespace Scriptlet

namespace Parser

/-- Types between angle brackets. -/
def typeArguments (g : Grammar) : Parser Unit := do
  expect "<"
  let _ ← commaList ">" (g .type)

/-- Parameters that stand for types, between angle brackets. -/
def typeParameters (g : Grammar) : Parser Unit := do
  expect "<"
  let _ ← commaList ">" do
    let _ ← collect do
      if (← isWord "const") || (← isWord "in") || (← isWord "out") then
        attempt do
          advance
          match ← token with
          | .word _ _ => return ()
          | _ => reject
      else return none
    let _ ← name
    if ← eatWord "extends" then g .type
    if ← eat "=" then g .type

/-- Parameters that stand for types, if they are given. -/
def typeParameters? (g : Grammar) : Parser Unit := do
  if (← typescript) && (← isMark "<") then typeParameters g

/-- The type of a result: a type, a predicate on a parameter, or an assertion of one. -/
def resultType (g : Grammar) : Parser Unit := do
  let predicate ← attempt do
    let asserts ← attempt do
      expectWord "asserts"
      ensure !(← onNewLine)
      ensure ((← isWord "this") || (← name?).isSome)
    let _ ← anyWord
    if asserts.isSome && !((← isWord "is") && !(← onNewLine)) then return ()
    ensure !(← onNewLine)
    expectWord "is"
    g .type
  if predicate.isNone then g .type

/-- The type of a result behind a colon, if there is one and types may be written. -/
def returnType (g : Grammar) : Parser Unit := do
  if (← typescript) && (← isMark ":") then advance; resultType g

/-- The type of a function. -/
def functionType (g : Grammar) : Parser Unit := do
  if ← eatWord "abstract" then ensure (← isWord "new")
  let _ ← eatWord "new"
  typeParameters? g
  let _ ← parameters g
  expect "=>"
  withReader (fun s => { s with allowConditionalType := true }) (resultType g)

/-- The end of a member of an object type. -/
def endMember : Parser Unit := do
  unless (← eat ";") || (← eat ",") do
    ensure ((← isMark "\x7d") || (← onNewLine))

/-- What follows the name of a member: the signature of a method, or the type of a property. -/
def signature (g : Grammar) : Parser Unit := do
  if (← isMark "(") || (← isMark "<") then
    typeParameters? g
    let _ ← parameters g
    returnType g
  else typeAnnotation g

/-- A member whose name stands between brackets with a colon or `in`: an index signature, or the
mapping of a type. -/
def indexMember (g : Grammar) : Parser Unit := do
  expect "["
  let _ ← anyWord
  if ← eat ":" then g .type
  else
    expectWord "in"
    g .type
    if ← eatWord "as" then g .type
  expect "]"
  let _ ← eatAny ["-", "+"]
  let _ ← eat "?"
  typeAnnotation g

/-- The name of a member with its modifiers. -/
def memberName (g : Grammar) : Parser Unit := do
  let _ ← attempt do
    ensure ((← isWord "readonly") || (← isWord "get") || (← isWord "set"))
    advance
    match ← lookahead (propertyName g) with
    | some _ => return ()
    | none => reject
  let _ ← propertyName g
  let _ ← eat "?"

/-- A member of an object type. -/
def typeMember (g : Grammar) : Parser Unit := do
  if (← isMark "(") || (← isMark "<") then signature g
  else
    let constructs ← attempt do
      expectWord "new"
      ensure ((← isMark "(") || (← isMark "<"))
    if constructs.isSome then signature g
    else
      let indexed ← attempt do
        let _ ← eatAny ["-", "+"]
        let _ ← attempt do
          expectWord "readonly"
          ensure (← isMark "[")
        indexMember g
      if indexed.isNone then
        memberName g
        signature g
  endMember

/-- The members of an object type between braces. -/
def typeMembers (g : Grammar) : Parser Unit := do
  expect "\x7b"
  let _ ← collect do
    if ← isMark "\x7d" then return none
    else
      typeMember g
      return some ()
  expect "\x7d"

/-- A member of a tuple type. -/
def tupleMember (g : Grammar) : Parser Unit := do
  let _ ← eat "..."
  let named ← attempt do
    let _ ← anyWord
    let _ ← eat "?"
    expect ":"
  g .type
  if named.isNone then
    let _ ← eat "?"

/-- Names joined by points. -/
def qualifiedName : Parser Unit := do
  let _ ← anyWord
  let _ ← collect do
    if ← eat "." then
      let _ ← anyWord
      return some ()
    else return none

/-- Types between angle brackets, unless a new line starts with them. -/
def typeArguments? (g : Grammar) : Parser Unit := do
  if (← isMark "<") && !(← onNewLine) then typeArguments g

/-- The type that is the result of an import. -/
def importType (g : Grammar) : Parser Unit := do
  expect "("
  g .type
  expect ")"
  if ← eat "." then qualifiedName
  typeArguments? g

/-- Words that are types although they are reserved. -/
def typeWords : List String := ["void", "null", "true", "false", "this"]

/-- The rest of a template type: types between the pieces of text. -/
def templateType (g : Grammar) (last : Bool) : Parser Unit := do
  advance
  unless last do
    let _ ← collect do
      g .type
      match Lexer.continuation? (← lexeme) with
      | some l =>
        replaceCurrent l
        advance
        match l.token with
        | .template _ false => return some ()
        | _ => return none
      | none => reject

/-- A type without operators. -/
def primaryType (g : Grammar) : Parser Unit := do
  match ← token with
  | .string _ | .number _ | .bigInt => advance
  | .template _ last => templateType g last
  | .mark "-" =>
    advance
    match ← token with
    | .number _ | .bigInt => advance
    | _ => reject
  | .mark "?" | .mark "!" =>
    advance
    g .type
  | .mark "\x7b" => typeMembers g
  | .mark "[" =>
    advance
    let _ ← commaList "]" (tupleMember g)
  | .mark "(" =>
    advance
    withReader (fun s => { s with allowConditionalType := true }) (g .type)
    expect ")"
  | .word "typeof" false =>
    advance
    if ← eatWord "import" then importType g
    else
      qualifiedName
      typeArguments? g
  | .word "import" false =>
    advance
    importType g
  | .word w _ =>
    if typeWords.contains w then advance
    else
      ensure (!reservedWords.contains w)
      qualifiedName
      typeArguments? g
  | _ => reject

/-- Whether a type may start here. -/
def startsType : Parser Bool := do
  match ← token with
  | .word w _ => return !reservedWords.contains w || typeWords.contains w ||
      ["function", "import", "new", "typeof"].contains w
  | .string _ | .number _ | .bigInt | .template _ _ => return true
  | .mark "-" => foresee do
    advance
    match ← token with
    | .number _ | .bigInt => return true
    | _ => return false
  | .mark m =>
    return ["\x7b", "[", "(", "<", "|", "&", "*", "?", "!", "..."].contains m
  | _ => return false

/-- A mark behind a type that stands for a value that may be null, or may not.  A question mark with
a type behind it belongs to a conditional. -/
def nullMark : Parser Bool := do
  if ← isMark "?" then
    let isConditional ← foresee do
      advance
      startsType
    if isConditional then return false
    else
      advance
      return true
  else eat "!"

/-- A type with brackets or marks behind it. -/
def postfixType (g : Grammar) : Parser Unit := do
  primaryType g
  let _ ← collect do
    if ← onNewLine then return none
    else if ← eat "[" then
      unless ← isMark "]" do g .type
      expect "]"
      return some ()
    else if ← nullMark then return some ()
    else return none

/-- Words that are operators on types. -/
def typeOperators : List String := ["keyof", "unique", "readonly"]

/-- Skips the operators before a type. -/
def skipTypeOperators : Parser Unit := do
  let _ ← collect do
    match ← plainWord? with
    | some w =>
      if typeOperators.contains w then
        attempt do
          advance
          match ← token with
          | .word _ _ | .mark "\x7b" | .mark "[" | .mark "(" | .string _ | .number _ => return ()
          | _ => reject
      else return none
    | none => return none

/-- A type that is part of an intersection. -/
def operandType (g : Grammar) : Parser Unit := do
  skipTypeOperators
  let inferred ← attempt do
    expectWord "infer"
    let _ ← name
  if inferred.isSome then
    let _ ← attempt do
      expectWord "extends"
      withReader (fun s => { s with allowConditionalType := false }) (g .type)
      ensure (!(← read).allowConditionalType || !(← isMark "?"))
  else postfixType g

/-- Whether the type of a function starts here. -/
def startsFunctionType : Parser Bool := do
  return (← isMark "(") || (← isMark "<") || (← isWord "new") || (← isWord "abstract")

/-- An operand of a union or intersection: the type of a function may stand there too. -/
def unionOperand (g : Grammar) : Parser Unit := do
  let isFunction ← if ← startsFunctionType then attempt (functionType g) else pure none
  if isFunction.isNone then operandType g

/-- Unions and intersections of types. -/
def unionType (g : Grammar) : Parser Unit := do
  let _ ← eatAny ["|", "&"]
  unionOperand g
  let _ ← collect do
    if (← eat "|") || (← eat "&") then
      unionOperand g
      return some ()
    else return none

/-- A type. -/
def typeBody (g : Grammar) : Parser Unit := do
  unionType g
  if (← isWord "extends") && !(← onNewLine) && (← read).allowConditionalType then
    advance
    withReader (fun s => { s with allowConditionalType := false }) (g .type)
    expect "?"
    withReader (fun s => { s with allowConditionalType := true }) do
      g .type
      expect ":"
      g .type

end Parser

end Scriptlet
