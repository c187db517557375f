import Scriptlet.Agent.Basic
import Scriptlet.Number.Shortest
import Scriptlet.Text.Quoted

/-!
# Values as readers see them

Texts are quoted, arrays and objects are written with their contents, and an object inside itself is
written as a mark.

## Main definitions

* `Agent.displayFrom` — a value inside the given objects.
* `Agent.display` — a value.
* `Agent.functionSource` — the text of a function.
-/

namespace Scriptlet

/-- What stands for empty places of an array. -/
def holesDisplay : Nat → List String
  | 0 => []
  | 1 => ["<1 empty item>"]
  | n => ["<" ++ toString n ++ " empty items>"]

/-- The places of an array from an index on, given the elements there and the length. -/
def placesDisplay (length : Nat) : Nat → List (Nat × String) → List String
  | next, [] => holesDisplay (length - next)
  | next, (i, s) :: rest => holesDisplay (i - next) ++ s :: placesDisplay length (i + 1) rest

/-- An error with its message. -/
def errorDisplay (kind : ErrorKind) : Option Value → String
  | some (.text t) => if t.isEmpty then kind.name else kind.name ++ ": " ++ t.toString
  | _ => kind.name

/-- A function with its name. -/
def functionDisplay (name : String) : String :=
  if name.isEmpty then "[Function (anonymous)]" else "[Function " ++ name ++ "]"

/-- A key in front of a value. -/
def keyDisplay : PropertyKey → String
  | .text t => t.toString
  | .symbol s => "[" ++ s.display ++ "]"

namespace Agent

/-- A value inside the objects of `path`, written to the given depth. -/
def displayFrom (a : Agent) : Nat → List ObjectId → Value → String
  | _, _, .undefined => "undefined"
  | _, _, .null => "null"
  | _, _, .boolean b => if b then "true" else "false"
  | _, _, .number x => Double.toText x
  | _, _, .text t => quote t.toString
  | _, _, .symbol s => s.display
  | 0, _, .object _ => "[Circular]"
  | depth + 1, path, .object id =>
    if path.contains id then "[Circular]"
    else
      let inner := displayFrom a depth (id :: path)
      let o := a.object id
      -- An object on the path was answered above, so what is inside is written along a longer path.
      match o.kind with
      | .array e =>
        "[" ++ ", ".intercalate
            (placesDisplay e.length 0 (e.present.map fun (i, v) => (i, inner v)))
          ++ "]"
      | .closure c => functionDisplay c.name
      | .builtin b => functionDisplay b.name
      | .error kind => errorDisplay kind (o.ownValue? "message")
      | .ordinary =>
        match o.ownKeys with
        | [] => "\x7b\x7d"
        | keys =>
          let parts := keys.map fun k =>
            keyDisplay k ++ ": " ++ inner ((o.ownValue? k).getD .undefined)
          "\x7b " ++ ", ".intercalate parts ++ " \x7d"

/-- A value as readers see it. -/
def display (a : Agent) (v : Value) : String := a.displayFrom (a.objects.size + 1) [] v

/-- A thrown value as readers see it: a text speaks for itself. -/
def displayThrown (a : Agent) : Value → String
  | .text t => t.toString
  | v => a.display v

/-- The text of a function: its source, or what stands for that of a built-in one. -/
def functionSource (a : Agent) (id : ObjectId) : String :=
  match (a.object id).kind with
  | .closure c => ((a.realms[c.realm.index]?).map (·.source.slice c.code.span)).getD ""
  | .builtin b => "function " ++ b.name ++ "() \x7b [native code] \x7d"
  | _ => ""

end Agent

end Scriptlet
