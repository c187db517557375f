import Scriptlet.Scope.Basic
import Scriptlet.Text.Quoted

/-!
# Scopes as readers see them

## Main definitions

* `ScopeKind.flags`, `Declaration.flags` — the words for kinds of scopes and declarations.
* `Scope.display` — a scope in one line.
-/

namespace Scriptlet

/-- The words for a kind of scope. -/
def ScopeKind.words : ScopeKind → List String
  | .global => ["GLOBAL"]
  | .function false => ["FUNCTION"]
  | .function true => ["FUNCTION", "PARAMETER_EXPRESSIONS"]
  | .block => ["BLOCK"]

/-- The ways to declare a name, in the order in which they are listed. -/
def DeclarationKind.all : List DeclarationKind := [.var, .let, .const, .function, .parameter]

/-- The word for a way to declare a name. -/
def DeclarationKind.word : DeclarationKind → String
  | .var => "var"
  | .let => "let"
  | .const => "const"
  | .function => "function"
  | .parameter => "param"

/-- Words side by side, or what stands for none. -/
def flagsDisplay (words : List String) : String :=
  if words.isEmpty then "(empty)" else " | ".intercalate words

/-- The words for a kind of scope, side by side. -/
def ScopeKind.flags (k : ScopeKind) : String := flagsDisplay k.words

/-- The words for the ways in which a name is declared, side by side. -/
def Declaration.flags (d : Declaration) : String :=
  flagsDisplay ((DeclarationKind.all.filter d.isKind).map (·.word))

/-- A list as readers see it. -/
def listDisplay (items : List String) : String := "[" ++ ", ".intercalate items ++ "]"

/-- A list of names as readers see it. -/
def namesDisplay (names : List String) : String := listDisplay (names.map quote)

/-- A scope as readers see it. -/
def Scope.display (s : Scope) : String :=
  "Scope \x7b flags: " ++ s.kind.flags
    ++ ", declarations: "
    ++ listDisplay (s.declarations.map fun d => "(" ++ quote d.name ++ ", " ++ d.flags ++ ")")
    ++ ", functions: " ++ toString s.functions.length ++ " \x7d"

end Scriptlet
