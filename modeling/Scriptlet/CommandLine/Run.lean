import Scriptlet.CommandLine.Basic
import Scriptlet.Globals
import Scriptlet.Loading
import Scriptlet.Prepared
import Scriptlet.Scope.Display

/-!
# Running commands

A command works on an agent of its own until it has its value, or until something stops it.

## Main definitions

* `Failure`, `Session` — what can stop a command, and its work.
* `Output` — what a command leaves behind.
* `Command.run` — what comes of a command, given the text of the file that it reads.
-/

namespace Scriptlet

/-- What can stop a command. -/
inductive Failure
  /-- A text is not accepted. -/
  | rejected (r : Rejection)
  /-- A computation was interrupted. -/
  | interrupted (i : Interrupt)

/-- The work of a command. -/
abbrev Session := EStateM Failure Agent

namespace Session

/-- A computation as part of the work. -/
def compute {α : Type} (p : Eval α) : Session α := fun a =>
  match p a with
  | .ok r a => .ok r a
  | .error i a => .error (.interrupted i) a

/-- What was read, if it was accepted. -/
def accept {α : Type} : Except Rejection α → Session α
  | .ok r => return r
  | .error r => throw (.rejected r)

/-- The value of a function for the values of some expressions. -/
def apply (m : Machine) (typescript noVar : Bool) (text : String) (arguments : List String) :
    Session Value := do
  let provisions : Provisions := ⟨← compute standardGlobals, noVar, false⟩
  let p ← accept (prepareFunction text typescript noVar)
  let f ← compute (m.load p.root p.source provisions)
  let values ← arguments.mapM fun text => do
    let source := Source.ofString text
    let e ← accept (source.expression typescript)
    compute (m.load (.expression e) source provisions)
  compute (m.invoke f values)

/-- The value of a marked expression. -/
def evaluateMarked (m : Machine) (text : String) : Session Value := do
  let provisions : Provisions := ⟨← compute standardGlobals, false, false⟩
  let p ← accept (prepareMarked text false)
  compute (m.load p.root p.source provisions)

end Session

/-- What a command leaves behind. -/
structure Output where
  /-- The exit code. -/
  code : UInt8
  /-- The lines that were printed. -/
  printed : List String
  /-- The lines about what happened and what went wrong. -/
  notices : List String
deriving DecidableEq, Repr, Inhabited

/-- The line for a report. -/
def Report.line : Report → String
  | .supplied names => "Supplied globals: " ++ namesDisplay names
  | .calling name => "Calling " ++ name
  | .uncaught display => "Uncaught " ++ display

/-- The lines for what is wrong with a text. -/
def Rejection.lines : Rejection → List String
  | .unreadable => ["SyntaxError:"]
  | .faulty first others =>
    "SyntaxError:" :: (first :: others).flatMap fun f =>
      (f.message.splitOn "\n").map ("  " ++ ·)

/-- What is left behind by an agent's work. -/
def Output.ofResult : EStateM.Result Failure Agent Value → Output
  | .ok v a => ⟨0, [a.display v], reportLines a⟩
  | .error (.rejected r) a => ⟨1, [], reportLines a ++ r.lines⟩
  | .error (.interrupted (.thrown v)) a =>
    ⟨1, [], reportLines a ++ ["Uncaught exception: " ++ a.displayThrown v]⟩
  | .error (.interrupted _) a => ⟨101, [], reportLines a ++ ["The evaluation was stopped"]⟩
where
  /-- The lines for the reports of an agent. -/
  reportLines (a : Agent) : List String := a.reports.reverse.map Report.line

namespace Command

/-- What a root is like, for readers. -/
def describe (p : Prepared) : List String :=
  ["Free variables: " ++ namesDisplay p.analysis.free,
   "Root scope: " ++ p.analysis.root.display,
   "Scopes: " ++ toString p.analysis.scopes.length]

/-- What comes of work on a file. -/
def withFile (file? : Option String) (f : String → Output) : Output :=
  match file? with
  | some text => f text
  | none => ⟨1, [], ["Error: the file cannot be read"]⟩

/-- What comes of a command, given the text of the file that it reads. -/
def run (m : Machine) (file? : Option String) : Command → Output
  | parse typescript _ => withFile file? fun text =>
    match prepareFunction text typescript false with
    | .ok p => ⟨0, describe p, []⟩
    | .error r => ⟨1, [], r.lines⟩
  | eval verbose typescript noVar _ arguments => withFile file? fun text =>
    .ofResult ((Session.apply m typescript noVar text arguments).run (.new verbose))
  | expr verbose text => .ofResult ((Session.evaluateMarked m text).run (.new verbose))

end Command

/-- What comes of a command line that is not in order. -/
def Output.usage : Output :=
  ⟨2, [], ["error: this is not a command line",
    "usage: parse [-t] PATH",
    "       eval [-vtn] PATH [EXPRESSION...]",
    "       expr [-v] TEXT"]⟩

end Scriptlet
