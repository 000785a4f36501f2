import PipelineFusion.Value.Text
import PipelineFusion.Value.Tagged
import PipelineFusion.Plan.Runner
import PipelineFusion.Boundary.Independence
import PipelineFusion.Optimizer.Report
import PipelineFusion.Settings.Text
import PipelineFusion.Proofs.Plan.Flow
import PipelineFusion.Proofs.Plan.Simulation
import PipelineFusion.Proofs.Plan.Responses
import PipelineFusion.Proofs.Plan.Sequence
import PipelineFusion.Proofs.Plan.Outline
import PipelineFusion.Proofs.Plan.Events
import PipelineFusion.Proofs.Plan.Substitution
import PipelineFusion.Proofs.Value.Tagged
import PipelineFusion.Proofs.Settings.RoundTrip
import PipelineFusion.Proofs.Rule.Meaning
import PipelineFusion.Proofs.Rule.Evidence
import PipelineFusion.Proofs.Boundary.Strictness
import PipelineFusion.Proofs.Boundary.Subtree
import PipelineFusion.Proofs.Boundary.Disguise
import PipelineFusion.Proofs.Rule.Shape
import PipelineFusion.Proofs.Rule.Laxity
import PipelineFusion.Proofs.Rule.Wall
import PipelineFusion.Proofs.Rule.Group
import PipelineFusion.Proofs.Rule.Refusal
import PipelineFusion.Proofs.Rule.Language
import PipelineFusion.Proofs.Rule.Prefix
import PipelineFusion.Proofs.Rule.Bracketing
import PipelineFusion.Proofs.Optimizer.Derivation
import PipelineFusion.Proofs.Optimizer.Operations
import PipelineFusion.Proofs.Optimizer.Accounting
import PipelineFusion.Proofs.Optimizer.Equivalence
import PipelineFusion.Proofs.Optimizer.NormalForm
import PipelineFusion.Proofs.Optimizer.Independence
import PipelineFusion.Proofs.Optimizer.Settling
import PipelineFusion.Proofs.Optimizer.Exhaustion
import PipelineFusion.Proofs.Optimizer.Optimality
import PipelineFusion.Proofs.Optimizer.Laxity
import PipelineFusion.Proofs.Optimizer.Regrouping
import PipelineFusion.Proofs.Optimizer.Visibility
import PipelineFusion.Proofs.Optimizer.Findings
import PipelineFusion.Proofs.Optimizer.Trace
import PipelineFusion.Proofs.Optimizer.Passes
import PipelineFusion.Proofs.Optimizer.Locality
import PipelineFusion.Proofs.Optimizer.Visits
import PipelineFusion.Proofs.Optimizer.Warnings
import PipelineFusion.Proofs.Optimizer.Collapse
