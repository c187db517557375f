/-!
# Commands

A command line is the name of a command with switches and values behind it.  A switch is a word of
its own, such as `--verbose`, or a letter of a word, such as `-vt`; it can be given once.  A word
`--` says that everything behind it is a value.

## Main definitions

* `Switch`, `Command` — the switches and the commands.
* `Command.ofArguments?` — the command that a command line holds, if it is in order.
-/

namespace Scriptlet

/-- A switch of a command. -/
inductive Switch
  /-- Whether there are reports of the evaluation. -/
  | verbose
  /-- Whether types may be written. -/
  | typescript
  /-- Whether all variables have to belong to blocks. -/
  | noVar
deriving DecidableEq, Repr

namespace Switch

/-- The switches. -/
def all : List Switch := [.verbose, .typescript, .noVar]

/-- The letter for a switch. -/
def letter : Switch → Char
  | .verbose => 'v'
  | .typescript => 't'
  | .noVar => 'n'

/-- The word for a switch. -/
def word : Switch → String
  | .verbose => "--verbose"
  | .typescript => "--typescript"
  | .noVar => "--no-var"

/-- The switches that a word holds, if it is no value. -/
def ofWord? (word : String) : Option (List Switch) :=
  match word.toList with
  | '-' :: '-' :: _ => (all.find? fun s => s.word == word).map fun s => [s]
  | '-' :: letters => letters.mapM fun c => all.find? fun s => s.letter == c
  | _ => none

end Switch

/-- Whether a word is a value when nothing else is said. -/
def isPlainValue (word : String) : Bool :=
  match word.toList with
  | ['-'] => true
  | '-' :: _ => false
  | _ => true

/-- The words behind the name of a command. -/
structure CommandWords where
  /-- The switches, in their order. -/
  switches : List Switch
  /-- The values, in their order. -/
  values : List String
deriving DecidableEq, Repr, Inhabited

/-- The words behind the name of a command, if those that are no values hold switches. -/
def CommandWords.ofList? : List String → Option CommandWords
  | [] => some ⟨[], []⟩
  | word :: rest =>
    if word == "--" then some ⟨[], rest⟩
    else do
      if isPlainValue word then
        let w ← ofList? rest
        return { w with values := word :: w.values }
      else
        let switches ← Switch.ofWord? word
        let w ← ofList? rest
        return { w with switches := switches ++ w.switches }

/-- Whether the switches are among the given ones, each at most once. -/
def CommandWords.respects (w : CommandWords) (allowed : List Switch) : Bool :=
  w.switches.all allowed.contains && decide w.switches.Nodup

/-- A command. -/
inductive Command
  /-- Reads the function in a file, and tells about its names. -/
  | parse (typescript : Bool) (path : String)
  /-- Calls the function in a file with the values of some expressions. -/
  | eval (verbose typescript noVar : Bool) (path : String) (arguments : List String)
  /-- Evaluates a marked expression. -/
  | expr (verbose : Bool) (text : String)
deriving DecidableEq, Repr

namespace Command

/-- The command that a command line holds, if it is in order. -/
def ofArguments? : List String → Option Command
  | [] => none
  | name :: words => do
    let w ← CommandWords.ofList? words
    -- Each command takes its own switches; any other switch is refused.
    match name, w.values with
    | "parse", [path] =>
      if w.respects [.typescript] then some (parse (w.switches.contains .typescript) path) else none
    | "eval", path :: arguments =>
      if w.respects Switch.all then
        some (eval (w.switches.contains .verbose) (w.switches.contains .typescript)
          (w.switches.contains .noVar) path arguments)
      else none
    | "expr", [text] =>
      if w.respects [.verbose] then some (expr (w.switches.contains .verbose) text) else none
    | _, _ => none

/-- The file that a command reads. -/
def path? : Command → Option String
  | parse _ path | eval _ _ _ path _ => some path
  | expr _ _ => none

end Command

end Scriptlet
