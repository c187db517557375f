import Scriptlet.Syntax.Grammar.Functions

/-!
# The grammar: declarations

## Main definitions

* `Parser.declarators` — declared variables with their values.
* `Parser.variableStatement` — a declaration of variables as a statement.
* `Parser.importDeclaration`, `Parser.exportDeclaration` — links between modules.
* `Parser.typedDeclaration?` — declarations that only exist where types may be written.
-/

namespace Scriptlet

namespace Parser

/-- A name for a declaration behind the word at hand, on its line. -/
def nameFollows : Parser Bool := foresee do
  advance
  return (← name?).isSome && !(← onNewLine)

/-- Whether the given word follows the word at hand on its line. -/
def wordFollows (w : String) : Parser Bool := foresee do
  advance
  return (← isWord w) && !(← onNewLine)

/-- Whether the given mark follows the word at hand. -/
def markFollows (m : String) : Parser Bool := foresee do
  advance
  isMark m

/-! ### Variables -/

/-- Whether a declaration of the kind has to give the pattern a value. -/
def needsValue (kind : VarKind) : Pattern → Bool
  | .identifier _ => kind != .var && kind != .let
  | _ => true

/-- Whether every part of a declaration that needs a value has one. -/
def areComplete (kind : VarKind) (bindings : List Binding) : Bool :=
  bindings.all fun b => b.initializer.isSome || !needsValue kind b.pattern

/-- A declared variable or pattern with its value. -/
def declarator (g : Grammar) : Parser Binding := do
  let p ← g .pattern
  if ← typescript then
    match p with
    | .identifier _ => unless ← onNewLine do let _ ← eat "!"
    | _ => pure ()
  typeAnnotation g
  return ⟨p, ← initializer? g⟩

/-- Declared variables with their values. -/
def declarators (g : Grammar) : Parser (List Binding) := do
  let first ← declarator g
  let others ← collect do
    if ← eat "," then return some (← declarator g) else return none
  return first :: others

/-- A declaration of variables as a statement, behind the words that start it. -/
def variableStatement (g : Grammar) (s : Nat) (kind : VarKind) : Parser Stmt := do
  let bindings ← declarators g
  let isAmbient := (← read).ambient
  ensure (isAmbient || areComplete kind bindings)
  endStatement
  return .declaration ⟨← spanFrom s, kind, isAmbient, bindings⟩

/-- Whether the word `let` at hand starts a declaration and is no name. -/
def letDeclares : Parser Bool := foresee do
  advance
  match ← token with
  | .mark m => return m == "[" || m == "\x7b"
  | .word "in" false | .word "instanceof" false => return false
  | .word _ _ => return true
  | _ => return false

/-- Reads the words that start a declaration of variables, except of those that a name may start
with too. -/
def variableKind? : Parser (Option VarKind) := do
  match ← plainWord? with
  | some "var" => advance; return some .var
  | some "const" => advance; return some .const
  -- These words are names unless a declaration follows.
  | some "let" => if ← letDeclares then advance; return some .let else return none
  | some "using" =>
    if (← nameFollows) && !(← wordFollows "of") then advance; return some .using else return none
  | some "await" =>
    attempt do
      advance
      ensure ((← isWord "using") && (← nameFollows))
      advance
      return .awaitUsing
  | _ => return none

/-! ### Modules -/

/-- The name of another module. -/
def moduleText : Parser Unit := do
  match ← token with
  | .string _ => advance
  | _ => reject

/-- Attributes behind the name of another module. -/
def moduleAttributes : Parser Unit := do
  if (← isWord "with") || ((← isWord "assert") && !(← onNewLine)) then
    advance
    expect "\x7b"
    let _ ← commaList "\x7d" do
      match ← token with
      | .word _ _ | .string _ => advance
      | _ => reject
      expect ":"
      moduleText

/-- The words that are no names of variables in a module. -/
def moduleReservedWords : List String :=
  reservedWords ++ ["await", "implements", "interface", "let", "package", "private", "protected",
    "public", "static", "yield"]

/-- The name of something that a module exports; true if it may also be a variable. -/
def exportedName : Parser Bool := do
  match ← token with
  | .word w _ => advance; return !moduleReservedWords.contains w
  | .string _ => advance; return false
  | _ => reject

/-- Skips the word that restricts a part of a list of imports or exports to types. -/
def skipTypeWord : Parser Unit := do
  if ← typescript then
    let _ ← attempt do
      expectWord "type"
      match ← token with
      | .word w _ => ensure (w != "as")
      | .string _ => return ()
      | _ => reject

/-- A part of a list of exports; true if what it starts with may be a variable. -/
def exportedItem : Parser Bool := do
  skipTypeWord
  let isVariable ← exportedName
  if ← eatWord "as" then
    let _ ← exportedName
  return isVariable

/-- A part of a list of imports, which names the variable that holds it. -/
def importedItem : Parser Unit := do
  skipTypeWord
  let _ ← attempt do
    let _ ← exportedName
    expectWord "as"
  let _ ← name

/-- The word `from`, the name of another module and its attributes. -/
def fromModule : Parser Unit := do
  expectWord "from"
  moduleText
  moduleAttributes

/-- A name for a part of another module or of a namespace, from the name on. -/
def importEquals : Parser Unit := do
  let _ ← name
  expect "="
  let required ← attempt do
    expectWord "require"
    expect "("
    moduleText
    expect ")"
  if required.isNone then qualifiedName
  endStatement

/-- Skips the word that restricts an import to types, or says when the module is loaded. -/
def skipImportPhase : Parser Unit := do
  let _ ← attempt do
    ensure (((← isWord "type") && (← typescript)) || (← isWord "defer") || (← isWord "source"))
    advance
    ensure !(← isWord "from")
    ensure ((← isMark "\x7b") || (← isMark "*") || (← name?).isSome)

/-- The names that an import declares. -/
def importedNames : Parser Unit := do
  let hasDefault := (← name?).isSome
  if hasDefault then advance
  if !hasDefault || (← eat ",") then
    if ← eat "*" then
      expectWord "as"
      let _ ← name
    else
      expect "\x7b"
      let _ ← commaList "\x7d" importedItem

/-- An import. -/
def importDeclaration (s : Nat) : Parser Stmt := do
  expectWord "import"
  match ← token with
  | .string _ =>
    moduleText
    moduleAttributes
    endStatement
    return .foreign (← spanFrom s) .import
  | _ =>
    skipImportPhase
    -- An alias of a namespace begins like an import and is told by the equals sign.
    let equals ← attempt do
      ensure (← typescript)
      importEquals
    if equals.isSome then return .foreign (← spanFrom s) .importEquals
    importedNames
    fromModule
    endStatement
    return .foreign (← spanFrom s) .import

/-- Whether a statement declares something that can be exported. -/
def isExportable : Stmt → Bool
  | .declaration d => d.kind != .using && d.kind != .awaitUsing
  | .function _ | .typeAlias _ | .interface _ => true
  | .foreign _ (.classDeclaration _) | .foreign _ .enum | .foreign _ .module
  | .foreign _ .importEquals => true
  | _ => false

/-- What is exported as the default. -/
def defaultExport (g : Grammar) : Parser Unit := do
  let s ← start
  if ← isWord "function" then
    let _ ← g (.function s .declaration false false)
  else if (← isWord "async") && (← wordFollows "function") then
    advance
    let _ ← g (.function s .declaration true false)
  else if ← isWord "class" then g .classTail
  else if (← typescript) && (← isWord "abstract") && (← wordFollows "class") then
    advance
    g .classTail
  else if (← typescript) && (← isWord "interface") && (← nameFollows) then
    let _ ← g (.statement false)
  else
    let _ ← g (.assignment true)
    endStatement

/-- An export. -/
def exportDeclaration (g : Grammar) (s : Nat) : Parser Stmt := do
  expectWord "export"
  let isTyped ← typescript
  -- Only in front of a list or a star is `type` a mark of the export.
  if isTyped && (← isWord "type") && ((← markFollows "\x7b") || (← markFollows "*")) then advance
  if ← eat "*" then
    if ← eatWord "as" then
      let _ ← exportedName
    fromModule
    endStatement
    return .foreign (← spanFrom s) .exportAll
  else if ← eat "\x7b" then
    let areVariables ← commaList "\x7d" exportedItem
    if ← isWord "from" then fromModule else ensure (areVariables.all id)
    endStatement
    return .foreign (← spanFrom s) .exportNamed
  else if ← eatWord "default" then
    defaultExport g
    return .foreign (← spanFrom s) .exportDefault
  else if isTyped && (← eat "=") then
    let _ ← g .expression
    endStatement
    return .foreign (← spanFrom s) .exportAssignment
  else if isTyped && (← eatWord "as") then
    expectWord "namespace"
    let _ ← name
    endStatement
    return .foreign (← spanFrom s) .namespaceExport
  else
    ensure (isExportable (← g (.statement false)))
    return .foreign (← spanFrom s) .exportNamed

/-! ### Types -/

/-- The name of a member of an enumeration: a word, or a text that may stand between brackets. -/
def enumMemberName (g : Grammar) : Parser Unit := do
  match ← propertyName g with
  | .fixed _ => return ()
  | .computed (.constant _ (.string _)) => return ()
  | .computed (.template t) => ensure t.expressions.isEmpty
  | _ => reject

/-- The members of an enumeration, from its name on. -/
def enumTail (g : Grammar) : Parser Unit := do
  let _ ← name
  expect "\x7b"
  let _ ← commaList "\x7d" do
    match ← token with
    | .number _ => reject
    | _ => enumMemberName g
    initializer? g

/-- Statements between braces. -/
def statementList (g : Grammar) : Parser (List Stmt) := do
  expect "\x7b"
  let statements ← collect do
    if ← isMark "\x7d" then return none else return some (← g (.statement false))
  expect "\x7d"
  return statements

/-- An interface from its name on. -/
def interfaceTail (g : Grammar) : Parser Unit := do
  let _ ← name
  typeParameters? g
  if ← eatWord "extends" then
    g .type
    let _ ← collect do
      if ← eat "," then
        g .type
        return some ()
      else return none
  typeMembers g

/-- A module from its name on; its body may be missing if the name is quoted. -/
def moduleTail (g : Grammar) : Parser Unit := do
  match ← token with
  | .string _ =>
    advance
    if ← isMark "\x7b" then
      let _ ← statementList g
    else endStatement
  | _ =>
    qualifiedName
    let _ ← statementList g

/-- The words that start what can be declared for the sake of types only. -/
def declarableWords : List String :=
  ["var", "let", "const", "function", "async", "class", "abstract", "enum", "namespace", "module",
   "global", "type", "interface", "using"]

/-- Whether a declaration for the sake of types follows the word at hand. -/
def declarationFollows : Parser Bool := foresee do
  advance
  ensure !(← onNewLine)
  match ← plainWord? with
  | some w => return declarableWords.contains w
  | none => return false

/-- Whether a quoted name follows the word at hand on its line. -/
def textFollows : Parser Bool := foresee do
  advance
  match ← token with
  | .string _ => return !(← onNewLine)
  | _ => return false

/-- A declaration that only exists where types may be written, if there is one. -/
def typedDeclaration? (g : Grammar) (s : Nat) : Parser (Option Stmt) := do
  match ← plainWord? with
  | some "type" =>
    if ← nameFollows then
      advance
      let _ ← name
      typeParameters? g
      expect "="
      g .type
      endStatement
      return some (.typeAlias (← spanFrom s))
    else return none
  | some "interface" =>
    if ← nameFollows then
      advance
      interfaceTail g
      return some (.interface (← spanFrom s))
    else return none
  | some "enum" =>
    advance
    enumTail g
    return some (.foreign (← spanFrom s) .enum)
  | some "const" =>
    if ← wordFollows "enum" then
      advance
      advance
      enumTail g
      return some (.foreign (← spanFrom s) .enum)
    else return none
  | some "namespace" =>
    if ← nameFollows then
      advance
      moduleTail g
      return some (.foreign (← spanFrom s) .module)
    else return none
  | some "module" =>
    if (← nameFollows) || (← textFollows) then
      advance
      moduleTail g
      return some (.foreign (← spanFrom s) .module)
    else return none
  | some "global" =>
    if ← markFollows "\x7b" then
      advance
      let _ ← statementList g
      return some (.foreign (← spanFrom s) .global)
    else return none
  | some "abstract" =>
    if ← wordFollows "class" then
      advance
      g .classTail
      return some (.foreign (← spanFrom s) (.classDeclaration true))
    else return none
  | _ => return none

/-- A function declaration, if there is one. -/
def functionDeclaration? (g : Grammar) (s : Nat) : Parser (Option Function) := do
  match ← plainWord? with
  | some "function" => return some (← g (.function s .declaration false true))
  | some "async" =>
    if ← wordFollows "function" then
      advance
      return some (← g (.function s .declaration true true))
    else return none
  | _ => return none

/-- What is declared for the sake of types only, behind the word that says so. -/
def ambientDeclaration (g : Grammar) (s : Nat) : Parser Stmt :=
  withReader (fun t => { t with ambient := true }) do
    match ← typedDeclaration? g s with
    | some d => return d
    | none =>
      match ← functionDeclaration? g s with
      | some f => return .function f
      | none =>
        match ← variableKind? with
        | some kind => variableStatement g s kind
        | none =>
          g .classTail
          return .foreign (← spanFrom s) (.classDeclaration true)

end Parser

end Scriptlet
