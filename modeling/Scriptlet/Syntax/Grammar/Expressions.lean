import Scriptlet.Syntax.Grammar.Functions

/-!
# The grammar: expressions

## Main definitions

* `Parser.expressionRule` — expressions separated by commas.
* `Parser.assignmentRule` — assignments, conditionals and arrow functions.
* `Parser.binaryRule` — operators with two operands, by their strength.
* `Parser.unaryRule` — operators before and behind an operand.
* `Parser.leftHandSideRule` — members, calls and optional chains.
* `Parser.primary` — expressions without operators.
-/

namespace Scriptlet

namespace Parser

/-! ### Literals -/

/-- An element of an array literal or an argument, with a comma or the closing mark behind it. -/
def element (g : Grammar) (literal : Nat) : Parser Element := do
  if ← eat "..." then
    let e ← g (.assignment true)
    if ← eat "," then
      if ← isMark "]" then
        modify fun c => { c with spreadCommas := literal :: c.spreadCommas }
    else ensure (← isMark "]")
    return .spread e
  else
    let e ← g (.assignment true)
    unless ← isMark "]" do expect ","
    return .item e

/-- An array literal. -/
def arrayLiteral (g : Grammar) : Parser Expr := allowingIn do
  let s ← start
  expect "["
  let elements ← collect do
    if ← isMark "]" then return none
    else if ← eat "," then return some Element.hole
    else return some (← element g s)
  expect "]"
  return .array (← spanFrom s) elements

/-- Whether the name of a property follows. -/
def startsPropertyName : Parser Bool := do
  match ← token with
  | .word _ _ | .string _ | .number _ | .bigInt | .mark "[" => return true
  | _ => return false

/-- A property that is a function from its parameters on. -/
def method (g : Grammar) (isAsync isGenerator : Bool) : Parser Expr := do
  let s ← start
  return .function (← functionTail g s .expression none isAsync isGenerator false)

/-- A property that reads or writes through a function. -/
def accessor? (g : Grammar) (s : Nat) : Parser (Option Property) := attempt do
  let isGet ← isWord "get"
  ensure (isGet || (← isWord "set"))
  advance
  ensure (← startsPropertyName)
  let _ ← propertyName g
  let f ← functionTail g s .expression none false false false
  let count := f.parameters.length + (if f.rest.isSome then 1 else 0)
  ensure (count == if isGet then 0 else 1)
  return .accessor (← spanFrom s) (if isGet then .get else .set)

/-- The words and marks before a method: whether it is asynchronous, and whether a generator. -/
def methodMarks : Parser (Bool × Bool) := do
  let isAsync ← attempt do
    expectWord "async"
    ensure !(← onNewLine)
    ensure ((← isMark "*") || (← startsPropertyName))
  let isGenerator ← eat "*"
  return (isAsync.isSome, isGenerator)

/-- A property that is neither a spread nor an accessor. -/
def plainProperty (g : Grammar) (s : Nat) : Parser Property := do
  let (isAsync, isGenerator) ← methodMarks
  let word ← name?
  let key ← propertyName g
  if isAsync || isGenerator || (← isMark "(") || (← isMark "<") then
    return .data key (← method g isAsync isGenerator)
  else if ← eat ":" then return .data key (← g (.assignment true))
  else
    match word with
    | none => reject
    | some w =>
      let span ← spanFrom s
      if ← eat "=" then
        let e ← g (.assignment true)
        -- The initializer is an error unless the literal turns out to be a pattern.
        modify fun c => { c with openShorthands := s :: c.openShorthands }
        return .shorthand span w (some e)
      else return .shorthand span w none

/-- A property of the object literal that starts at `literal`. -/
def property (g : Grammar) (literal : Nat) : Parser Property := do
  if ← eat "..." then
    let e ← g (.assignment true)
    if ← isMark "," then
      if (← lookahead (do advance; expect "\x7d")).isSome then
        modify fun c => { c with spreadCommas := literal :: c.spreadCommas }
    return .spread e
  else
    let s ← start
    match ← accessor? g s with
    | some p => return p
    | none => plainProperty g s

/-- An object literal. -/
def objectLiteral (g : Grammar) : Parser Expr := allowingIn do
  let s ← start
  expect "\x7b"
  let properties ← commaList "\x7d" (property g s)
  return .object (← spanFrom s) properties

/-- The pieces and expressions of a template, the piece at hand being the next one. -/
def templateParts (g : Grammar) (tagged : Bool) :
    Nat → List Quasi → List Expr → Parser (List Quasi × List Expr)
  | 0, _, _ => reject
  | fuel + 1, quasis, expressions => do
    match ← token with
    | .template q last =>
      -- A piece with a malformed escape has no value, which only a tag may receive.
      ensure (tagged || q.value.isSome)
      advance
      if last then return ((q :: quasis).reverse, expressions.reverse)
      else
        let e ← allowingIn (g .expression)
        -- The closing brace is read again, as the start of the next piece.
        match Lexer.continuation? (← lexeme) with
        | some l =>
          replaceCurrent l
          templateParts g tagged fuel (q :: quasis) (e :: expressions)
        | none => reject
    | _ => reject

/-- A template literal. -/
def templateLiteral (g : Grammar) (tagged : Bool) : Parser Template := do
  let s ← start
  let (quasis, expressions) ← templateParts g tagged ((← read).limit + 2) [] []
  return ⟨← spanFrom s, quasis, expressions⟩

/-- A regular expression literal. -/
def regExpLiteral : Parser Expr := do
  let s ← start
  match Lexer.regExp? (← lexeme) with
  | some l =>
    replaceCurrent l
    advance
    return .foreign (← spanFrom s) .regExp
  | none => reject

/-! ### Primary expressions -/

/-- A constant that is one token. -/
def constant (c : Constant) : Parser Expr := do
  let s ← start
  advance
  return .constant (← spanFrom s) c

/-- A foreign expression that is one token. -/
def foreignToken (form : ForeignExpr) : Parser Expr := do
  let s ← start
  advance
  return .foreign (← spanFrom s) form

/-- An import in an expression: a property of the module, or a call. -/
def importExpression (g : Grammar) : Parser Expr := do
  let s ← start
  expectWord "import"
  if ← eat "." then
    if ← eatWord "meta" then return .foreign (← spanFrom s) .metaProperty
    ensure ((← isWord "source") || (← isWord "defer"))
    advance
  expect "("
  let arguments ← allowingIn (commaList ")" (g (.assignment true)))
  ensure (arguments.length == 1 || arguments.length == 2)
  return .foreign (← spanFrom s) .importCall

/-- An expression without operators that starts with the given word, written without escapes. -/
def primaryWord (g : Grammar) (w : String) : Parser Expr := do
  let s ← start
  match w with
  | "this" => foreignToken .this
  | "null" => constant .null
  | "true" => constant (.boolean true)
  | "false" => constant (.boolean false)
  | "function" => return .function (← g (.function s .expression false false))
  | "class" =>
    g .classTail
    return .foreign (← spanFrom s) .classLiteral
  | "super" =>
    let e ← foreignToken .super
    -- This word stands in front of a member or a call only.
    ensure ((← isMark ".") || (← isMark "[") || (← isMark "("))
    return e
  | "import" => importExpression g
  | _ =>
    let asynchronous ← attempt do
      expectWord "async"
      ensure ((← isWord "function") && !(← onNewLine))
    if asynchronous.isSome then return .function (← g (.function s .expression true false))
    else
      let n ← name
      return .identifier (← spanFrom s) n

/-- An expression without operators. -/
def primary (g : Grammar) : Parser Expr := do
  let s ← start
  match ← token with
  | .word w false => primaryWord g w
  | .word _ true =>
    let n ← name
    return .identifier (← spanFrom s) n
  | .number x => constant (.number x)
  | .string t => constant (.string t)
  | .bigInt => foreignToken .bigInt
  | .template _ _ => return .template (← templateLiteral g false)
  | .mark "[" => arrayLiteral g
  | .mark "\x7b" => objectLiteral g
  | .mark "/" | .mark "/=" => regExpLiteral
  | .mark "@" =>
    skipDecorators g
    g .classTail
    return .foreign (← spanFrom s) .classLiteral
  | .mark "(" =>
    advance
    let e ← allowingIn (g .expression)
    expect ")"
    return .wrapped (← spanFrom s) .parentheses e
  | _ => reject

/-! ### Members and calls -/

/-- An argument of a call. -/
def argument (g : Grammar) : Parser Argument := do
  if ← eat "..." then return .spread (← g (.assignment true))
  else return .item (← g (.assignment true))

/-- The arguments of a call between their parentheses. -/
def arguments (g : Grammar) : Parser (List Argument) := allowingIn do
  expect "("
  commaList ")" (argument g)

/-- Operators behind which types in angle brackets may not be followed by an operand. -/
def isOperatorMark (m : String) : Bool :=
  ["<", ">", "=", "==", "!=", "===", "!==", "<=", "<<", "*", "/", "%", "**", "&", "|", "^", "&&",
   "||", "??", "+=", "-=", "*=", "/=", "%=", "**=", "<<=", "&=", "|=", "^=", "&&=", "||=", "??=",
   "?", ",", ")", "]", "\x7d", ":", ";", ".", "?.", "=>"].contains m

/-- Whether types in angle brackets may end before the token at hand. -/
def mayFollowTypeArguments : Parser Bool := do
  match ← token with
  | .mark "(" => return true
  | .template _ _ => return true
  | .mark "<" | .mark ">" | .mark "+" | .mark "-" => return false
  | .endOfInput => return true
  | .mark m => return isOperatorMark m || (← onNewLine)
  | .word w false =>
    return w == "in" || w == "instanceof" || w == "as" || w == "satisfies" || (← onNewLine)
  | _ => onNewLine

/-- Types in angle brackets behind an expression, if that is what they are. -/
def callTypes? (g : Grammar) : Parser (Option Unit) := attempt do
  ensure (← typescript)
  typeArguments g
  ensure (← mayFollowTypeArguments)

/-- An expression that is being extended by members and calls, and whether a link is optional. -/
structure Link where
  /-- The expression. -/
  expr : Expr
  /-- Whether the value may stop the chain. -/
  isOptional : Bool

/-- The name behind a point. -/
def memberLink (s : Nat) (l : Link) (isOptional : Bool) : Parser Link := do
  let nameStart ← start
  match ← token with
  | .privateName =>
    advance
    let field ← spanFrom nameStart
    return ⟨.privateMember (← spanFrom s) l.expr field isOptional, l.isOptional || isOptional⟩
  | _ =>
    let n ← anyWord
    return ⟨.member (← spanFrom s) l.expr n isOptional, l.isOptional || isOptional⟩

/-- The key between brackets. -/
def indexLink (g : Grammar) (s : Nat) (l : Link) (isOptional : Bool) : Parser Link := do
  expect "["
  let key ← allowingIn (g .expression)
  expect "]"
  return ⟨.index (← spanFrom s) l.expr key isOptional, l.isOptional || isOptional⟩

/-- The arguments of a call. -/
def callLink (g : Grammar) (s : Nat) (l : Link) (isOptional : Bool) : Parser Link := do
  let args ← arguments g
  return ⟨.call (← spanFrom s) l.expr args isOptional, l.isOptional || isOptional⟩

/-- A link behind a question mark and a point. -/
def optionalLink (g : Grammar) (s : Nat) (l : Link) : Parser Link := do
  match ← token with
  | .mark "(" => callLink g s l true
  | .mark "[" => indexLink g s l true
  | .mark "<" =>
    ensure (← typescript)
    typeArguments g
    callLink g s l true
  | _ => memberLink s l true

/-- Extends an expression by one link; behind `new` there are no calls and no optional links. -/
def extendLink (g : Grammar) (s : Nat) (isCallee : Bool) (l : Link) : Parser (Option Link) := do
  match ← token with
  | .mark "." =>
    advance
    return some (← memberLink s l false)
  | .mark "?." =>
    -- The callee of `new` is neither an optional link nor a call.
    ensure !isCallee
    advance
    return some (← optionalLink g s l)
  | .mark "[" => return some (← indexLink g s l false)
  | .mark "(" => if isCallee then return none else return some (← callLink g s l false)
  | .template _ _ =>
    ensure !l.isOptional
    let t ← templateLiteral g true
    return some ⟨.tagged (← spanFrom s) l.expr t, false⟩
  | .mark "!" =>
    if (← typescript) && !(← onNewLine) then
      advance
      return some ⟨.wrapped (← spanFrom s) .nonNull l.expr, l.isOptional⟩
    else return none
  | .mark "<" =>
    match ← callTypes? g with
    | none => return none
    | some _ =>
      match ← token with
      | .mark "(" => if isCallee then return some l else return some (← callLink g s l false)
      | .template _ _ => return some l
      | _ =>
        if isCallee then return some l
        else return some ⟨.wrapped (← spanFrom s) .instantiation l.expr, l.isOptional⟩
  | _ => return none

/-- A call with `new`, whose callee ends before the first parenthesis. -/
def constructBody (g : Grammar) : Nat → Parser Expr
  | 0 => reject
  | fuel + 1 => do
    let s ← start
    expectWord "new"
    if ← eat "." then
      expectWord "target"
      return .foreign (← spanFrom s) .metaProperty
    let calleeStart ← start
    ensure !(← isWord "import")
    let callee ← if ← isWord "new" then constructBody g fuel else primary g
    let l ← extend (extendLink g calleeStart true) ⟨callee, false⟩
    let args ← if ← isMark "(" then arguments g else pure []
    return .construct (← spanFrom s) l.expr args

/-- Marks the extent of an optional chain; types in angle brackets are not part of it. -/
def closeChain (span : Span) : Expr → Expr
  | .wrapped s .instantiation e => .wrapped s .instantiation (.chain e.span e)
  | .wrapped s .nonNull e => .chain span (.wrapped s .nonNull e)
  | .call s c args o => .chain span (.call s c args o)
  | .member s e n o => .chain span (.member s e n o)
  | .index s e k o => .chain span (.index s e k o)
  | .privateMember s e f o => .chain span (.privateMember s e f o)
  | e => e

/-- Members, calls and optional chains. -/
def leftHandSideRule (g : Grammar) : Parser Expr := do
  let s ← start
  let head ←
    if ← isWord "new" then constructBody g ((← read).limit + 2) else primary g
  let l ← extend (extendLink g s false) ⟨head, false⟩
  if l.isOptional then return closeChain (← spanFrom s) l.expr else return l.expr

/-! ### Operators with one operand -/

/-- The operator before an operand. -/
def unaryOp? : Token → Option UnaryOp
  | .mark "+" => some .plus
  | .mark "-" => some .negate
  | .mark "!" => some .not
  | .mark "~" => some .complement
  | .word "delete" false => some .delete
  | .word "typeof" false => some .typeof
  | .word "void" false => some .void
  | _ => none

/-- A step by one. -/
def updateOp? : Token → Option UpdateOp
  | .mark "++" => some .increment
  | .mark "--" => some .decrement
  | _ => none

/-- What a step or a combined assignment is applied to. -/
def placeOf (e : Expr) : Parser Target :=
  match e.toPlace? with
  | some t => return t
  | none => reject

/-- Whether the word at hand has a word, a number or a text behind it on its line, as the word of an
operator has. -/
def isOperatorWord : Parser Bool := foresee do
  advance
  match ← token with
  | .word _ _ | .number _ | .bigInt | .string _ => return !(← onNewLine)
  | _ => return false

/-- Operators before and behind an operand.  Where `await` is no operator it may not look like one
either. -/
def unaryRule (g : Grammar) : Parser Expr := do
  let s ← start
  let t ← token
  match unaryOp? t, updateOp? t with
  | some op, _ =>
    advance
    let e ← g .unary
    -- A unary operand of a power needs parentheses.
    ensure !(← isMark "**")
    return .unary (← spanFrom s) op e
  | none, some op =>
    advance
    let target ← placeOf (← g .unary)
    return .update (← spanFrom s) op true target
  | none, none =>
    if (← isMark "<") && (← typescript) then
      advance
      if (← isWord "const") then advance else g .type
      expect ">"
      let e ← g .unary
      ensure !(← isMark "**")
      return .wrapped (← spanFrom s) .assertion e
    else if (← isWord "await") && ((← read).inAsync || (← isOperatorWord)) then
      ensure (← read).inAsync
      advance
      let _ ← g .unary
      ensure !(← isMark "**")
      return .foreign (← spanFrom s) .await
    else
      let e ← g .leftHandSide
      match updateOp? (← token) with
      | some op =>
        -- On a new line the operator belongs to the next statement.
        if ← onNewLine then return e
        else
          let target ← placeOf e
          advance
          return .update (← spanFrom s) op false target
      | none => return e

/-! ### Operators with two operands -/

/-- An operator with two operands. -/
inductive Infix
  | logical (op : LogicalOp)
  | binary (op : BinaryOp)
  | wrapper (w : Wrapper)

/-- The operator with the given spelling, and its strength. -/
def markInfix? : String → Option (Infix × Nat)
  | "??" => some (.logical .coalesce, 1)
  | "||" => some (.logical .or, 2)
  | "&&" => some (.logical .and, 3)
  | "|" => some (.binary .bitOr, 4)
  | "^" => some (.binary .bitXor, 5)
  | "&" => some (.binary .bitAnd, 6)
  | "==" => some (.binary .equal, 7)
  | "!=" => some (.binary .notEqual, 7)
  | "===" => some (.binary .strictEqual, 7)
  | "!==" => some (.binary .strictNotEqual, 7)
  | "<" => some (.binary .less, 8)
  | "<=" => some (.binary .lessEqual, 8)
  | ">" => some (.binary .greater, 8)
  | ">=" => some (.binary .greaterEqual, 8)
  | "<<" => some (.binary .shiftLeft, 9)
  | ">>" => some (.binary .shiftRight, 9)
  | ">>>" => some (.binary .shiftRightZero, 9)
  | "+" => some (.binary .add, 10)
  | "-" => some (.binary .subtract, 10)
  | "*" => some (.binary .multiply, 11)
  | "/" => some (.binary .divide, 11)
  | "%" => some (.binary .remainder, 11)
  | "**" => some (.binary .power, 12)
  | _ => none

/-- The operator that is a word, and its strength. -/
def wordInfix? (w : String) : Parser (Option (Infix × Nat)) := do
  match w with
  | "in" => return if (← read).allowIn then some (.binary .isIn, 8) else none
  | "instanceof" => return some (.binary .instanceOf, 8)
  | "as" => return if (← typescript) && !(← onNewLine) then some (.wrapper .as, 8) else none
  | "satisfies" =>
    return if (← typescript) && !(← onNewLine) then some (.wrapper .satisfies, 8) else none
  | _ => return none

/-- The operator at hand with its strength and its token, greater signs being joined. -/
def infix? : Parser (Option (Infix × Nat × Lexeme)) := do
  let l ← lexeme
  match l.token with
  | .mark ">" =>
    let l := Lexer.joined l
    match l.token with
    | .mark m => return (markInfix? m).map fun (i, n) => (i, n, l)
    | _ => return none
  | .mark m => return (markInfix? m).map fun (i, n) => (i, n, l)
  | .word w false => return (← wordInfix? w).map fun (i, n) => (i, n, l)
  | _ => return none

/-- Whether the expression is, outside parentheses, an alternative of the other kind, with which the
operator may not be mixed. -/
def clashes (op : LogicalOp) : Expr → Bool
  | .logical _ inner _ _ => (op == .coalesce) != (inner == .coalesce)
  | _ => false

/-- Joins two operands. -/
def join (s : Nat) (op : Infix) (left right : Expr) : Parser Expr := do
  let span ← spanFrom s
  match op with
  | .binary op => return .binary span op left right
  | .logical op =>
    ensure !(clashes op left || clashes op right)
    return .logical span op left right
  | .wrapper _ => reject

/-- Extends an expression by an operator that is stronger than `least`; powers associate to the
right. -/
def extendInfix (g : Grammar) (s least : Nat) (left : Expr) : Parser (Option Expr) := do
  match ← infix? with
  | none => return none
  | some (op, strength, l) =>
    -- Powers alone are taken from the right.
    let stops := if strength == 12 then strength < least else strength ≤ least
    if stops then return none
    else
      replaceCurrent l
      advance
      match op with
      | .wrapper w =>
        if (← isWord "const") && w == .as then advance else g .type
        return some (.wrapped (← spanFrom s) w left)
      | _ =>
        let right ← g (.binary strength)
        return some (← join s op left right)

/-- Operands joined by operators that are stronger than `least`. -/
def binaryRule (g : Grammar) (least : Nat) : Parser Expr := do
  let s ← start
  let first ←
    match ← token with
    | .privateName =>
      advance
      ensure ((← isWord "in") && (← read).allowIn && least < 8)
      advance
      let _ ← g (.binary 8)
      pure (.foreign (← spanFrom s) .privateIn)
    | _ => g .unary
  extend (extendInfix g s least) first

/-! ### Assignments and arrow functions -/

/-- The body of an arrow function. -/
def arrowBody (g : Grammar) (isAsync : Bool) : Parser Body := do
  if ← isMark "\x7b" then
    let s ← start
    let statements ← g (.body isAsync false)
    return .block (← spanFrom s) statements
  else
    withReader (fun s => { s with inAsync := isAsync, inGenerator := false, inFunction := true }) do
      return .concise (← g (.assignment true))

/-- The arrow of an arrow function, on the line of its parameters. -/
def expectArrow : Parser Unit := do
  ensure ((← isMark "=>") && !(← onNewLine))
  advance

/-- An arrow function whose only parameter is a name. -/
def nameArrow (g : Grammar) (s : Nat) (isAsync : Bool) : Parser Expr := do
  let outer ← read
  let n ← insideParameters (isAsync || outer.inAsync) outer.inGenerator name
  expectArrow
  let body ← arrowBody g isAsync
  return .function
    ⟨← spanFrom s, .arrow, none, isAsync, false, false, [⟨.identifier n, none⟩], none, body⟩

/-- The parameters of an arrow function up to the arrow, and whether the type of its result was
given.  It has no receiver of its own. -/
def arrowHead (g : Grammar) (isAsync : Bool) : Parser ((List Binding × Option Pattern) × Bool) := do
  typeParameters? g
  ensure !(← foresee do
    expect "("
    isWord "this")
  let outer ← read
  let ps ← insideParameters (isAsync || outer.inAsync) outer.inGenerator (parameters g)
  let typed := (← typescript) && (← isMark ":")
  returnType g
  expectArrow
  return (ps, typed)

/-- An arrow function with its parameters between parentheses.  Between the two marks of a
conditional the type of its result is only one if the second mark follows. -/
def listArrow (g : Grammar) (s : Nat) (isAsync allowReturnType : Bool) : Parser Expr := do
  let ((bindings, rest), typed) ← arrowHead g isAsync
  let body ← arrowBody g isAsync
  if typed && !allowReturnType then ensure (← isMark ":")
  return .function ⟨← spanFrom s, .arrow, none, isAsync, false, false, bindings, rest, body⟩

/-- Whether an arrow function with parameters between parentheses may start here. -/
def startsArrowList : Parser Bool := do
  return (← isMark "(") || ((← isMark "<") && (← typescript))

/-- An arrow function, if one starts here. -/
def arrow? (g : Grammar) (allowReturnType : Bool) : Parser (Option Expr) := do
  let s ← start
  if ← startsArrowList then attempt (listArrow g s false allowReturnType)
  else
    let asynchronous ←
      if ← isWord "async" then
        attempt do
          advance
          ensure !(← onNewLine)
          if ← startsArrowList then listArrow g s true allowReturnType else nameArrow g s true
      else pure none
    match asynchronous with
    | some e => return some e
    | none =>
      match ← token with
      | .word _ _ =>
        -- A name begins an arrow function only if the arrow is there.
        if (← lookahead (do let _ ← name; expectArrow)).isSome then
          return some (← nameArrow g s false)
        else return none
      | _ => return none

/-- The assignment with the given spelling. -/
def assignOp? : String → Option AssignOp
  | "=" => some .plain
  | "+=" => some (.binary .add)
  | "-=" => some (.binary .subtract)
  | "*=" => some (.binary .multiply)
  | "/=" => some (.binary .divide)
  | "%=" => some (.binary .remainder)
  | "**=" => some (.binary .power)
  | "<<=" => some (.binary .shiftLeft)
  | ">>=" => some (.binary .shiftRight)
  | ">>>=" => some (.binary .shiftRightZero)
  | "&=" => some (.binary .bitAnd)
  | "|=" => some (.binary .bitOr)
  | "^=" => some (.binary .bitXor)
  | "&&=" => some (.logical .and)
  | "||=" => some (.logical .or)
  | "??=" => some (.logical .coalesce)
  | _ => none

/-- The assignment at hand with its token, greater signs being joined. -/
def assignment? : Parser (Option (AssignOp × Lexeme)) := do
  let l ← lexeme
  match l.token with
  | .mark m =>
    let l := if m == ">" then Lexer.joined l else l
    match l.token with
    | .mark m => return (assignOp? m).map fun op => (op, l)
    | _ => return none
  | _ => return none

/-- A suspension of a generator. -/
def yieldExpression (g : Grammar) : Parser Expr := do
  let s ← start
  expectWord "yield"
  unless ← onNewLine do
    if ← eat "*" then
      let _ ← g (.assignment true)
    else
      let ends ← do
        match ← token with
        | .mark m => pure ([")", "]", "\x7d", ",", ";", ":"].contains m)
        | .word "in" false => pure true
        | .endOfInput => pure true
        | _ => pure false
      unless ends do
        let _ ← g (.assignment true)
  return .foreign (← spanFrom s) .yield

/-- Assignments, conditionals and arrow functions.  Where `yield` is no operator it may not look
like one either. -/
def assignmentRule (g : Grammar) (allowReturnType : Bool) : Parser Expr := do
  if (← isWord "yield") && ((← read).inGenerator || (← isOperatorWord)) then
    ensure (← read).inGenerator
    return ← yieldExpression g
  match ← arrow? g allowReturnType with
  | some e => return e
  | none =>
    let s ← start
    let left ← g (.binary 0)
    match ← assignment? with
    | some (op, l) =>
      -- Only a plain assignment may have a pattern on its left.
      let target ← if op == .plain then left.toTarget else placeOf left
      replaceCurrent l
      advance
      let value ← g (.assignment allowReturnType)
      return .assign (← spanFrom s) op target value
    | none =>
      if ← eat "?" then
        let consequent ← allowingIn (g (.assignment false))
        expect ":"
        let alternate ← g (.assignment allowReturnType)
        return .conditional (← spanFrom s) left consequent alternate
      else return left

/-- Expressions separated by commas. -/
def expressionRule (g : Grammar) : Parser Expr := do
  let s ← start
  let first ← g (.assignment true)
  if ← isMark "," then
    let rest ← collect do
      if ← eat "," then return some (← g (.assignment true)) else return none
    return .sequence (← spanFrom s) (first :: rest)
  else return first

end Parser

end Scriptlet
