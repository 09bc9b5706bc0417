import Recast.Config.Plan
import Recast.Proofs.Planning
import Recast.Proofs.PredicateMeaning
import Recast.Proofs.TypeSoundness
import Recast.Query.Model
import Recast.Recaster.Settings
import Recast.Ty.Catalogue
import Recast.Proofs.Registration
import Recast.Proofs.Progress
import Recast.Proofs.TableGrowth
import Recast.Proofs.Closure
import Recast.Proofs.Resolution
import Recast.Proofs.Unchanged
import Recast.Proofs.Rebinding
import Recast.Proofs.Replacing
import Recast.Proofs.Binding
import Recast.Proofs.Renumbering
import Recast.Proofs.SharedTable
import Recast.Proofs.Alongside
import Recast.Proofs.Batch
import Recast.Proofs.Delegate
import Recast.Proofs.InferredPair
import Recast.Proofs.QueryHistory
import Recast.Proofs.EvalDepth
import Recast.Proofs.RowQueries
import Recast.Proofs.RuntimeShape
import Recast.Proofs.Lockstep
import Recast.Proofs.LexicalScope
import Recast.Proofs.Interning
import Recast.Proofs.Conformance
import Recast.Proofs.OperatorResults
import Recast.Proofs.Preservation
import Recast.Proofs.SingleChain
import Recast.Proofs.DepthLimit
import Recast.Proofs.SpineWalk
import Recast.Proofs.BetaReduction
import Recast.Proofs.FailedRegistration
import Recast.Proofs.PathSteps
import Recast.Proofs.LiteralPaths
import Recast.Proofs.ProjectedPaths
import Recast.Proofs.Coupling
import Recast.Proofs.Validation
import Recast.Proofs.PathParts
import Recast.Proofs.WordCuts
import Recast.Proofs.Flattening
import Recast.Proofs.Construction
import Recast.Proofs.OperatorCoverage
import Recast.Proofs.Inheritance
import Recast.Proofs.PlanCalls
import Recast.Proofs.Completion
import Recast.Proofs.Reversal
import Recast.Proofs.DistinctRules
import Recast.Proofs.RoundTrip
import Recast.Proofs.IntegerOrder
import Recast.Proofs.Assignability
import Recast.Proofs.Substitution
import Recast.Proofs.MethodInference
import Recast.Proofs.KeyOrder
import Recast.Proofs.Selectors
import Recast.Proofs.IntegerArithmetic
import Recast.Proofs.SortedByKey
import Recast.Proofs.Extremes
import Recast.Proofs.FailedChange
import Recast.Proofs.OperandOrder
import Recast.Proofs.CompleteRecords
import Recast.Proofs.Scopes
import Recast.Proofs.EditDistance
