import Scriptlet.Main
import Scriptlet.Proofs.Acceptance
import Scriptlet.Proofs.ArrayHistories
import Scriptlet.Proofs.Chains
import Scriptlet.Proofs.Moments
import Scriptlet.Proofs.InertTypes
import Scriptlet.Proofs.KeyHistories
import Scriptlet.Proofs.PipelineOperators
import Scriptlet.Proofs.Restoration
import Scriptlet.Proofs.StoredTexts
import Scriptlet.Proofs.TemplateObjects
import Scriptlet.Proofs.VariableHistories
import Scriptlet.Proofs.Confinement
import Scriptlet.Proofs.Assignments
import Scriptlet.Proofs.Clauses
import Scriptlet.Proofs.PropertyWrites
import Scriptlet.Proofs.CountingLoops
import Scriptlet.Proofs.IndexLoops
import Scriptlet.Proofs.Completions
import Scriptlet.Proofs.Destructuring
import Scriptlet.Proofs.FunctionCalls
import Scriptlet.Proofs.Searches
import Scriptlet.Proofs.MappedItems
import Scriptlet.Proofs.Slices
import Scriptlet.Proofs.ConversionMethods
import Scriptlet.Proofs.Drawings
import Scriptlet.Proofs.JoinedTexts
import Scriptlet.Proofs.SplitTexts
import Scriptlet.Proofs.HeldProperties
import Scriptlet.Proofs.Entries
import Scriptlet.Proofs.CopiedProperties
import Scriptlet.Proofs.Blanks
import Scriptlet.Proofs.NumberScans
import Scriptlet.Proofs.NumberReading
import Scriptlet.Proofs.RadixTexts
import Scriptlet.Proofs.ExactArithmetic
import Scriptlet.Proofs.FixedPlaces
import Scriptlet.Proofs.CaseMapping
import Scriptlet.Proofs.ShownTexts
import Scriptlet.Proofs.FunctionVariables
import Scriptlet.Proofs.MarkedTexts
import Scriptlet.Proofs.IndexKeys
import Scriptlet.Proofs.EscapedTexts
import Scriptlet.Proofs.SuppliedNames
