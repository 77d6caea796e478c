import ReactorCausality.Boundary.Timing

/-!
The classification of boundaries: the report and the diagnostics that go with it, all in the order
of the connections. The warnings come first, then one error for each wait that nobody can settle.
A partition that names reactors the program does not have is refused.
-/
namespace ReactorCausality

/-- A report with its diagnostics. -/
structure BoundaryResult where
  report : BoundaryReport := {}
  diagnostics : List Diagnostic := []
  deriving DecidableEq, Repr

namespace BoundarySetting

def findings (setting : BoundarySetting) (edges : List BoundaryEdge) :
    List (BoundaryEdge × TimingFinding) :=
  let circular := setting.circularEdges edges
  edges.filterMap fun edge => (setting.finding? circular edge).map fun finding => (edge, finding)

def result (setting : BoundarySetting) : BoundaryResult :=
  let edges := setting.edges
  let findings := setting.findings edges
  let unbounded := findings.filterMap fun (edge, finding) => finding.unbounded? edge
  let warnings := findings.filterMap fun (edge, finding) => finding.warning? edge
  { report :=
      { edges
        controls := edges.flatMap setting.controls
        unresolved := unbounded.map UnboundedEdge.connection }
    diagnostics := warnings ++ (AnalysisError.unboundedTiming unbounded).diagnostics }

/-- Classifies every connection. Where all reactors are in one federate there is nothing to
report. -/
def classify (setting : BoundarySetting) : Except (List PartitionProblem) BoundaryResult :=
  match setting.partition.problems setting.index with
  | [] =>
    if setting.partition.isFederated setting.index then .ok setting.result else .ok {}
  | problems => .error problems

end BoundarySetting

end ReactorCausality
