import ReactorCausality.Cycle
import ReactorCausality.Diagnostic
import ReactorCausality.Index.Survey
import ReactorCausality.Priority.Table

/-!
What stops an analysis: a cycle, a malformed program, a contradiction of the analysis with itself,
or a wait without a bound. Each comes with one message and with the diagnostics that explain it.
-/
namespace ReactorCausality

/-- A connection between federates whose wait has no bound. -/
structure UnboundedEdge where
  connection : ConnectionId
  name : String
  reason : String
  deriving DecidableEq, Repr

/-- What stops an analysis. -/
inductive AnalysisError where
  | graphCycle (cycles : List Cycle)
  /-- The analysis contradicts itself. -/
  | invariant (message : String)
  /-- The program is malformed; there is one line for each problem. -/
  | malformed (details : List String)
  | unboundedTiming (edges : List UnboundedEdge)
  deriving DecidableEq, Repr

def Cycle.diagnostic (cycle : Cycle) : Diagnostic :=
  { severity := .error
    kind := .graphCycle
    message := s!"zero-delay dependency cycle through {cycle.members.length} node(s)"
    code := some .e0100
    hint := some "break the cycle with an `after` delay or a physical connection"
    involved := cycle.members.map fun member => ⟨member.subject, member.name⟩
    causes := [{ message := " -> ".intercalate cycle.pathNames }] }

def UnboundedEdge.diagnostic (edge : UnboundedEdge) : Diagnostic :=
  { severity := .error
    kind := .unresolvableBoundaryTiming
    message := s!"no safe-to-process bound for federated connection {edge.name}"
    code := some .e0200
    hint := some "configure a network latency or a safe-to-process offset"
    involved := [⟨.connection edge.connection, edge.name⟩]
    causes := [{ message := edge.reason }] }

namespace AnalysisError

def ofProblems (problems : List Problem) : AnalysisError :=
  malformed (problems.map Problem.message)

/-- Nodes that are never ready contradict an analysis that has found no cycle. -/
def ofStalled (fault : Stalled) : AnalysisError :=
  invariant fault.message

def malformedMessage (details : List String) : String :=
  s!"malformed program model ({details.length} problem(s))"

def message : AnalysisError → String
  | graphCycle cycles => s!"zero-delay dependency cycle detected ({cycles.length} cycle(s))"
  | invariant message => s!"invariant violated: {message}"
  | malformed details => s!"invariant violated: {malformedMessage details}"
  | unboundedTiming edges =>
    s!"no safe-to-process bound for {edges.length} federated connection(s)"

def diagnostics : AnalysisError → List Diagnostic
  | graphCycle cycles => cycles.map Cycle.diagnostic
  | invariant message =>
    [{ severity := .error, kind := .invariantViolation, message, code := some .e0900 }]
  | malformed details =>
    [{ severity := .error
       kind := .malformedModel
       message := malformedMessage details
       code := some .e0901
       causes := details.map fun detail => { message := detail } }]
  | unboundedTiming edges => edges.map UnboundedEdge.diagnostic

end AnalysisError

end ReactorCausality
