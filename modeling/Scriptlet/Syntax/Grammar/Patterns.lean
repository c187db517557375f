import Scriptlet.Syntax.Grammar.Basic
import Scriptlet.Number.Shortest

/-!
# The grammar: names of properties, patterns and parameters

## Main definitions

* `Parser.propertyName` — the name of a property, computed or not.
* `Parser.patternBody` — a pattern that declares names.
* `Parser.parameters` — the parameters of a function between their parentheses.
* `Parser.typeAnnotation` — a type behind a colon, where types may be written.
* `Expr.toTarget` — a literal that turns out to be what is assigned to.
-/

namespace Scriptlet

namespace Parser

/-- Runs a rule where `in` is an operator. -/
def allowingIn {α : Type} (p : Parser α) : Parser α :=
  withReader (fun s => { s with allowIn := true }) p

/-- A type behind a colon, if there is one and types may be written. -/
def typeAnnotation (g : Grammar) : Parser Unit := do
  if (← typescript) && (← isMark ":") then advance; g .type

/-- The name of a property. -/
def propertyName (g : Grammar) : Parser PropertyName := do
  match ← token with
  | .word w _ => advance; return .fixed w
  | .string t => advance; return .fixed t
  | .number x => advance; return .fixed (Double.toText x)
  | .bigInt =>
    let s ← start
    advance
    return .bigInt (← spanFrom s)
  | .mark "[" =>
    advance
    let e ← allowingIn (g (.assignment true))
    expect "]"
    return .computed e
  | _ => reject

/-- A value behind an equals sign, if there is one. -/
def initializer? (g : Grammar) : Parser (Option Expr) := do
  if ← eat "=" then return some (← g (.assignment true)) else return none

/-- A pattern with a value that replaces undefined, if one is given. -/
def patternWithDefault (g : Grammar) : Parser Pattern := do
  let p ← g .pattern
  match ← initializer? g with
  | some e => return .withDefault p e
  | none => return p

/-- A property of an object pattern. -/
def patternProperty (g : Grammar) : Parser PatternProperty := do
  let word ← name?
  let key ← propertyName g
  if ← eat ":" then return ⟨key, ← patternWithDefault g⟩
  else
    match word with
    | some w =>
      match ← initializer? g with
      | some e => return ⟨key, .withDefault (.identifier w) e⟩
      | none => return ⟨key, .identifier w⟩
    | none => reject

/-- The members of an object pattern behind its brace. -/
def objectPattern (g : Grammar) : Parser Pattern := do
  let properties ← collect do
    if (← isMark "\x7d") || (← isMark "...") then return none
    else
      let p ← patternProperty g
      unless ← isMark "\x7d" do expect ","
      return some p
  let rest ←
    if ← eat "..." then do
      let n ← name
      pure (some (Pattern.identifier n))
    else pure none
  expect "\x7d"
  return .object properties rest

/-- The elements of an array pattern behind its bracket. -/
def arrayPattern (g : Grammar) : Parser Pattern := do
  let elements ← collect do
    if (← isMark "]") || (← isMark "...") then return none
    else if ← eat "," then return some none
    else
      let p ← patternWithDefault g
      unless ← isMark "]" do expect ","
      return some (some p)
  let rest ← if ← eat "..." then some <$> g .pattern else pure none
  expect "]"
  return .array elements rest

/-- A pattern that declares names. -/
def patternBody (g : Grammar) : Parser Pattern := allowingIn do
  if ← eat "\x7b" then objectPattern g
  else if ← eat "[" then arrayPattern g
  else return .identifier (← name)

/-- Words that may stand before a parameter where types may be written. -/
def parameterModifiers : List String := ["public", "private", "protected", "readonly", "override"]

/-- Skips the modifiers of a parameter. -/
def skipModifiers : Parser Unit := do
  if ← typescript then
    let _ ← collect do
      match ← plainWord? with
      | some w =>
        if parameterModifiers.contains w then
          attempt do
            advance
            ensure ((← isMark "\x7b") || (← isMark "[") || (← name?).isSome)
        else return none
      | none => return none

/-- What a member of a list of parameters is. -/
inductive ParameterItem
  | binding (b : Binding)
  | rest (p : Pattern)
  | receiver

/-- Whether the item gives the type of the receiver. -/
def ParameterItem.isReceiver : ParameterItem → Bool
  | .receiver => true
  | _ => false

/-- A member of a list of parameters. -/
def parameter (g : Grammar) : Parser ParameterItem := do
  if ← eat "..." then
    let p ← g .pattern
    typeAnnotation g
    -- Nothing comes behind the rest.
    ensure (← isMark ")")
    return .rest p
  else if (← typescript) && (← isWord "this") then
    advance
    typeAnnotation g
    return .receiver
  else
    skipModifiers
    let p ← g .pattern
    if ← typescript then
      let _ ← eat "?"
    typeAnnotation g
    return .binding ⟨p, ← initializer? g⟩

/-- The parameters of a function between their parentheses, and the pattern for the arguments left
over.  The type of the receiver stands before them. -/
def parameters (g : Grammar) : Parser (List Binding × Option Pattern) := allowingIn do
  expect "("
  let items ← commaList ")" (parameter g)
  ensure !(items.tail.any ParameterItem.isReceiver)
  let bindings := items.filterMap fun
    | .binding b => some b
    | _ => none
  let rest := items.findSome? fun
    | .rest p => some p
    | _ => none
  return (bindings, rest)

end Parser

/-! ### Literals that are assigned to -/

/-- Whether a wrapper around the expression can be assigned to. -/
def Expr.isPlace (e : Expr) : Bool :=
  match e.inner with
  | .identifier _ _ | .member _ _ _ _ | .index _ _ _ _ | .privateMember _ _ _ _ => true
  | _ => false

/-- What is assigned to if the expression is no literal. -/
def Expr.toPlace? : Expr → Option Target
  | .identifier s n => some (.identifier s n)
  | .member s o n _ => some (.member s o n)
  | .index s o k _ => some (.index s o k)
  | .privateMember s _ f _ => some (.privateMember s f)
  | .wrapped _ .parentheses e => e.toPlace?
  | .wrapped _ .instantiation _ => none
  | .wrapped s _ e => if e.isPlace then some (.wrapped s e) else none
  | _ => none

mutual

/-- What is assigned to, be it a pattern or not.  A shorthand property with an initializer is
thereby known to belong to a pattern. -/
def Expr.toTarget : Expr → Parser Target
  | .array s elements => do
    Parser.ensure !((← get).spreadCommas.contains s.start)
    let (es, rest) ← elementsToTarget elements
    return .array es rest
  | .object s properties => do
    Parser.ensure !((← get).spreadCommas.contains s.start)
    let (ps, rest) ← propertiesToTarget properties
    return .object ps rest
  | e =>
    match e.toPlace? with
    | some t => return t
    | none => Parser.reject

/-- A part of a pattern: an assignment gives the value that replaces undefined. -/
def Expr.toTargetElement : Expr → Parser TargetElement
  | .assign _ .plain t e => return ⟨t, some e⟩
  | e => do return ⟨← e.toTarget, none⟩

/-- The elements of an array pattern; only the last one can take what is left over. -/
def elementsToTarget : List Element → Parser (List (Option TargetElement) × Option Target)
  | [] => return ([], none)
  | .hole :: rest => do
    let (es, r) ← elementsToTarget rest
    return (none :: es, r)
  | .item e :: rest => do
    let t ← e.toTargetElement
    let (es, r) ← elementsToTarget rest
    return (some t :: es, r)
  | .spread e :: rest => do
    Parser.ensure rest.isEmpty
    return ([], some (← e.toTarget))

/-- The properties of an object pattern; only the last one can take what is left over. -/
def propertiesToTarget : List Property → Parser (List TargetProperty × Option Target)
  | [] => return ([], none)
  | .data key e :: rest => do
    let t ← e.toTargetElement
    let (ps, r) ← propertiesToTarget rest
    return (.named key t :: ps, r)
  | .shorthand s n e :: rest => do
    -- The initializer is the default of a pattern now, and no error.
    modify fun c => { c with openShorthands := c.openShorthands.filter (· != s.start) }
    let (ps, r) ← propertiesToTarget rest
    return (.shorthand s n e :: ps, r)
  | .accessor _ _ :: _ => Parser.reject
  | .spread e :: rest => do
    -- Nothing comes behind the rest.
    Parser.ensure rest.isEmpty
    return ([], some (← e.toTarget))

end

end Scriptlet
