import Scriptlet.Marked

/-!
# Prepared roots

A root is prepared when it has been read and analysed without faults.

## Main definitions

* `Prepared` — a root with its source and analysis.
* `prepareFunction`, `prepareMarked` — preparing the text of a function and of a marked expression.
-/

namespace Scriptlet

/-- A root with its source and analysis. -/
structure Prepared where
  /-- The source. -/
  source : Source
  /-- The root. -/
  root : Root
  /-- The analysis. -/
  analysis : Analysis

/-- Analyses a root. -/
def prepare (rules : Rules) (source : Source) (root : Root) : Except Rejection Prepared := do
  return ⟨source, root, ← analyze rules root⟩

/-- Reads and analyses a function. -/
def prepareFunction (text : String) (typescript noVar : Bool) : Except Rejection Prepared := do
  let source := Source.ofString text
  prepare ⟨false, noVar⟩ source (.function (← source.function typescript))

/-- Reads and analyses a marked expression. -/
def prepareMarked (text : String) (typescript : Bool) : Except Rejection Prepared := do
  let (source, e) ← readMarked text typescript
  prepare ⟨true, false⟩ source (.expression e)

end Scriptlet
