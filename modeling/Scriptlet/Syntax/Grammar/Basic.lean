import Scriptlet.Syntax.Lexer

/-!
# The grammar: state and primitives

A rule of the grammar reads tokens from a cursor and fails where the source does not follow it.
Failing loses the cursor, so that an alternative starts where the failed one did.

Rules refer to each other freely.  The names of the rules that others refer to form the type
`Rule`; the body of a rule takes an interpretation of these names, and the interpretation of depth
`n + 1` runs the bodies on the interpretation of depth `n`.

## Main definitions

* `Cursor`, `Setting`, `Parser` — the state, what a rule may depend on, and the rules' type.
* `Rule`, `Grammar` — the names of rules, and their interpretations.
* `Parser.token`, `Parser.advance`, `Parser.eat`, `Parser.expect` — reading tokens.
* `Parser.attempt`, `Parser.collect` — alternatives and repetition.
* `Parser.endStatement` — the end of a statement, where a semicolon may be left out.
-/

namespace Scriptlet

/-- The state of reading: the token at hand and what is known of those before it. -/
structure Cursor where
  /-- The token at hand. -/
  current : Lexeme
  /-- The offset behind the token before it. -/
  previousStop : Nat
  /-- The starts of shorthand properties with an initializer that are not yet known to belong to a
  pattern. -/
  openShorthands : List Nat
  /-- The starts of literals that have a comma behind a spread element at their end. -/
  spreadCommas : List Nat

/-- What a rule depends on besides the tokens. -/
structure Setting where
  /-- Whether types may be written. -/
  typescript : Bool
  /-- The number of characters of the source. -/
  limit : Nat
  /-- Whether `in` is an operator. -/
  allowIn : Bool
  /-- Whether `await` is an operator. -/
  inAsync : Bool
  /-- Whether `yield` is an operator. -/
  inGenerator : Bool
  /-- Whether a function encloses the place. -/
  inFunction : Bool
  /-- Whether declarations are for the sake of types only. -/
  ambient : Bool
  /-- Whether a conditional type may be written. -/
  allowConditionalType : Bool

/-- Rules of the grammar. -/
abbrev Parser := ReaderT Setting (StateT Cursor Option)

/-- The rules that others refer to by name. -/
inductive Rule : Type → Type
  | expression : Rule Expr
  | assignment (allowReturnType : Bool) : Rule Expr
  | binary (least : Nat) : Rule Expr
  | unary : Rule Expr
  | leftHandSide : Rule Expr
  | pattern : Rule Pattern
  | function (start : Nat) (form : FunctionForm) (isAsync nameNeeded : Bool) : Rule Function
  | body (isAsync isGenerator : Bool) : Rule (List Stmt)
  | block : Rule Block
  | statement (isSingle : Bool) : Rule Stmt
  | type : Rule Unit
  | classTail : Rule Unit

/-- An interpretation of the names of the rules. -/
abbrev Grammar := {α : Type} → Rule α → Parser α

namespace Parser

/-- Fails. -/
def reject {α : Type} : Parser α := fun _ _ => none

/-- The lexeme at hand. -/
def lexeme : Parser Lexeme := do return (← get).current

/-- The token at hand. -/
def token : Parser Token := do return (← get).current.token

/-- The offset at which the token at hand starts. -/
def start : Parser Nat := do return (← get).current.start

/-- Whether a line ends before the token at hand. -/
def onNewLine : Parser Bool := do return (← get).current.onNewLine

/-- Whether types may be written. -/
def typescript : Parser Bool := do return (← read).typescript

/-- The span from an offset to the end of the last token read. -/
def spanFrom (start : Nat) : Parser Span := do return ⟨start, (← get).previousStop⟩

/-- Makes the given token the one at hand. -/
def replaceCurrent (l : Lexeme) : Parser Unit := modify fun c => { c with current := l }

/-- Reads the token at hand. -/
def advance : Parser Unit := do
  let l ← lexeme
  match Lexer.next? l.rest l.stop with
  | some next => modify fun c => { c with current := next, previousStop := l.stop }
  | none => reject

/-- Runs a rule; if it fails, nothing has been read. -/
def attempt {α : Type} (p : Parser α) : Parser (Option α) := fun s c =>
  match p s c with
  | some (a, c) => some (some a, c)
  | none => some (none, c)

/-- The result of a rule that is run without reading anything. -/
def lookahead {α : Type} (p : Parser α) : Parser (Option α) := fun s c =>
  match p s c with
  | some (a, _) => some (some a, c)
  | none => some (none, c)

/-- Whether a rule would return true. -/
def foresee (p : Parser Bool) : Parser Bool := do return (← lookahead p).getD false

/-- Fails unless the condition holds. -/
def ensure (b : Bool) : Parser Unit := if b then pure () else reject

/-- Repeats a rule until it returns nothing, at most `fuel` times. -/
def collectFrom {α : Type} (p : Parser (Option α)) : Nat → List α → Parser (List α)
  | 0, _ => reject
  | fuel + 1, acc => do
    match ← p with
    | some a => collectFrom p fuel (a :: acc)
    | none => return acc.reverse

/-- The results of a rule that is repeated until it returns nothing. -/
def collect {α : Type} (p : Parser (Option α)) : Parser (List α) := do
  collectFrom p ((← read).limit + 2) []

/-- Replaces a value by what a rule makes of it until the rule returns nothing, at most `fuel`
times. -/
def extendFrom {α : Type} (p : α → Parser (Option α)) : Nat → α → Parser α
  | 0, _ => reject
  | fuel + 1, a => do
    match ← p a with
    | some b => extendFrom p fuel b
    | none => return a

/-- Replaces a value by what a rule makes of it until the rule returns nothing. -/
def extend {α : Type} (p : α → Parser (Option α)) (a : α) : Parser α := do
  extendFrom p ((← read).limit + 2) a

/-- Whether the token at hand is the mark with the given spelling. -/
def isMark (s : String) : Parser Bool := do
  match ← token with
  | .mark m => return m == s
  | _ => return false

/-- Whether the token at hand is the given word, written without escapes. -/
def isWord (s : String) : Parser Bool := do
  match ← token with
  | .word w false => return w == s
  | _ => return false

/-- The word at hand, if the token is one that is written without escapes. -/
def plainWord? : Parser (Option String) := do
  match ← token with
  | .word w false => return some w
  | _ => return none

/-- Reads a mark if it is at hand. -/
def eat (s : String) : Parser Bool := do
  if ← isMark s then advance; return true else return false

/-- Reads one of several marks if it is at hand. -/
def eatAny (marks : List String) : Parser Bool := do
  match ← token with
  | .mark m => if marks.contains m then advance; return true else return false
  | _ => return false

/-- Reads a word if it is at hand. -/
def eatWord (s : String) : Parser Bool := do
  if ← isWord s then advance; return true else return false

/-- Reads a mark. -/
def expect (s : String) : Parser Unit := do
  if ← isMark s then advance else reject

/-- Reads a word. -/
def expectWord (s : String) : Parser Unit := do
  if ← isWord s then advance else reject

/-- Whether the source is read to its end. -/
def atEnd : Parser Bool := do
  match ← token with
  | .endOfInput => return true
  | _ => return false

/-- Whether a statement may end here without a semicolon. -/
def mayEndStatement : Parser Bool := do
  return (← isMark ";") || (← isMark "\x7d") || (← atEnd) || (← onNewLine)

/-- Reads the end of a statement. -/
def endStatement : Parser Unit := do
  if ← eat ";" then return ()
  else ensure (← mayEndStatement)

/-- Reads members separated by commas up to a closing mark, which is read too; a comma may stand
behind the last one. -/
def commaList {α : Type} (close : String) (member : Parser α) : Parser (List α) :=
  collectThen
where
  /-- Reads the members one by one. -/
  collectThen : Parser (List α) := do
    let items ← collect do
      if ← isMark close then return none
      else
        let a ← member
        unless ← isMark close do expect ","
        return some a
    expect close
    return items

/-- The words that are never names. -/
def reservedWords : List String :=
  ["break", "case", "catch", "class", "const", "continue", "debugger", "default", "delete", "do",
   "else", "enum", "export", "extends", "false", "finally", "for", "function", "if", "import", "in",
   "instanceof", "new", "null", "return", "super", "switch", "this", "throw", "true", "try",
   "typeof", "var", "void", "while", "with"]

/-- Whether a word may be a name here. -/
def isName (w : String) : Parser Bool := do
  let s ← read
  return !reservedWords.contains w && !(w == "await" && s.inAsync)
    && !(w == "yield" && s.inGenerator)

/-- The name at hand, if the token is one. -/
def name? : Parser (Option String) := do
  match ← token with
  | .word w _ => return if ← isName w then some w else none
  | _ => return none

/-- Reads a name. -/
def name : Parser String := do
  match ← name? with
  | some w => advance; return w
  | none => reject

/-- Reads a word, reserved or not. -/
def anyWord : Parser String := do
  match ← token with
  | .word w _ => advance; return w
  | _ => reject

end Parser

end Scriptlet
