import Scriptlet.Text.Basic
import Scriptlet.Syntax.Tree

/-!
# Tokens

The units of the grammar.  A word may be a name or a keyword, which the grammar decides; a greater
sign is always a token of its own, and the grammar joins it to its neighbours where it may.

## Main definitions

* `Token` — the tokens.
* `Lexeme` — a token with its place in the source and with what follows it.
-/

namespace Scriptlet

/-- The tokens.  A word is `escaped` if a part of it was written as an escape, and then it is no
keyword.  A template piece is `last` if no substitution follows it. -/
inductive Token
  | endOfInput
  | word (name : String) (escaped : Bool)
  | privateName
  | mark (spelling : String)
  | number (x : Float)
  | bigInt
  | string (t : Text)
  | template (q : Quasi) (last : Bool)
  | regExp

/-- A token in its place. -/
structure Lexeme where
  /-- The token. -/
  token : Token
  /-- The offset of its first byte. -/
  start : Nat
  /-- The offset behind its last byte. -/
  stop : Nat
  /-- Whether a line ends between the token before it and this one. -/
  onNewLine : Bool
  /-- The characters from its first one on. -/
  source : List Char
  /-- The characters behind it. -/
  rest : List Char

/-- A token without place, at the end of an empty source. -/
def Lexeme.none : Lexeme := ⟨.endOfInput, 0, 0, false, [], []⟩

end Scriptlet
