import ReactorCausality.Analysis.Options
import ReactorCausality.Analysis.Provenance
import ReactorCausality.Boundary.Classification
import ReactorCausality.Graph.Builder
import ReactorCausality.Priority.Certificate

/-!
Running an analysis. The state of an analysis holds what it is about and everything that has been
found out so far; a run goes through the required passes and stops at the first that reports an
error. Artifacts stay in the state from one run to the next, also when what they were made from
has been replaced.

Waits between federates that nobody can settle do not stop a run. They are reported, and no code
may be generated for the federates.
-/
namespace ReactorCausality

/-- What an analysis is about, and what has been found out so far. -/
structure AnalysisState where
  program : Program
  partition : Partition
  options : AnalysisOptions
  index : Option Index := none
  graph : Option DependencyGraph := none
  cycles : Option CycleReport := none
  priorities : Option PriorityTable := none
  certificate : Option PriorityCertificate := none
  boundaries : Option BoundaryReport := none
  diagnostics : List Diagnostic := []
  hasError : Bool := false
  /-- Whether code for the federates must not be generated. -/
  isBlocked : Bool := false
  provenance : Option Provenance := none
  deriving Repr

/-- What a pass has to report. -/
structure PassReport where
  pass : Pass
  diagnostics : List Diagnostic
  deriving DecidableEq, Repr

/-- How a run ends: the state, the reports of the passes in order, and the pass that stopped it. -/
structure RunOutcome where
  state : AnalysisState
  reports : List PassReport
  failing : Option Pass
  deriving Repr

/-- The message of a run that a pass has stopped. -/
def Pass.stopMessage (pass : Pass) : String :=
  s!"analysis stopped in pass {pass.name}"

/-- The diagnostics of a certificate: an error that names the obligations that do not hold. -/
def PriorityCertificate.diagnostics (certificate : PriorityCertificate) : List Diagnostic :=
  if certificate.allHold then []
  else
    [{ severity := .error
       kind := .invariantViolation
       message := "priority verification failed: " ++ ", ".intercalate certificate.failed
       code := some .e0900 }]

namespace AnalysisState

/-- The index and the graph that a pass works on. -/
def layout? (state : AnalysisState) : Except AnalysisError (Index × DependencyGraph) :=
  match state.index, state.graph with
  | some index, some graph => .ok (index, graph)
  | _, _ => .error (.invariant "graph artifacts missing before use")

/-- Lays out the program and builds its graph. -/
def buildGraph (state : AnalysisState) :
    Except AnalysisError (AnalysisState × List Diagnostic) := do
  let index ← (Index.build state.program).mapError .ofProblems
  let builder ← (GraphBuilder.build index).mapError fun fault => .invariant fault.message
  return ({ state with index := some index, graph := some builder.graph }, [])

/-- Looks for zero-delay cycles; each is an error. -/
def detectCycles (state : AnalysisState) :
    Except AnalysisError (AnalysisState × List Diagnostic) := do
  let (_, graph) ← state.layout?
  let report := graph.cycles
  return ({ state with cycles := some report }, (AnalysisError.graphCycle report.cycles).diagnostics)

/-- Assigns priorities and certifies them. -/
def assignPriorities (state : AnalysisState) :
    Except AnalysisError (AnalysisState × List Diagnostic) := do
  let (index, graph) ← state.layout?
  let table ← graph.priorities.mapError .ofStalled
  let certificate := table.certificate graph index
  return ({ state with priorities := some table, certificate := some certificate },
    certificate.diagnostics)

/-- Classifies the boundaries between federates. -/
def classifyBoundaries (state : AnalysisState) :
    Except AnalysisError (AnalysisState × List Diagnostic) := do
  let (index, graph) ← state.layout?
  match state.priorities with
  | none => .error (.invariant "boundary classification before priorities")
  | some priorities =>
    let setting : BoundarySetting :=
      { index, graph, priorities, partition := state.partition, policy := state.options.policy }
    let result ← setting.classify.mapError fun problems =>
      .malformed (problems.map PartitionProblem.message)
    return ({ state with boundaries := some result.report }, result.diagnostics)

/-- The state after a pass and what the pass has to report, or why the pass cannot be done. -/
def execute (state : AnalysisState) :
    Pass → Except AnalysisError (AnalysisState × List Diagnostic)
  | .buildGraph => state.buildGraph
  | .detectCycles => state.detectCycles
  | .assignPriorities => state.assignPriorities
  | .classifyBoundaries => state.classifyBoundaries

/-- Puts diagnostics behind those that have been collected. -/
def collect (state : AnalysisState) (diagnostics : List Diagnostic) : AnalysisState :=
  { state with diagnostics := state.diagnostics ++ diagnostics }

/-- Does one pass. Gives the state, the report, and whether the run goes on. When boundaries have
been reported, errors about them block the federates and do not stop the run. -/
def step (state : AnalysisState) (pass : Pass) : AnalysisState × PassReport × Bool :=
  let (state, diagnostics) :=
    match state.execute pass with
    | .ok (state, diagnostics) => (state, diagnostics)
    | .error error => (state, error.diagnostics)
  let report := ⟨pass, diagnostics⟩
  let isError := Diagnostic.anyError diagnostics
  if pass == .classifyBoundaries && state.boundaries.isSome then
    ({ state.collect diagnostics with isBlocked := state.isBlocked || isError }, report, true)
  else ({ state.collect diagnostics with hasError := state.hasError || isError }, report, !isError)

/-- Records the provenance of the program and of the priorities and boundaries in the state. -/
def recordProvenance (state : AnalysisState) : AnalysisState :=
  let output := state.priorities.map fun table => canonicalOutput table state.boundaries
  { state with provenance := some (.of state.program output) }

/-- Does passes, one after the other, until one stops the run. -/
def runPasses (state : AnalysisState) (reports : List PassReport) : List Pass → RunOutcome
  | [] => ⟨state.recordProvenance, reports, none⟩
  | pass :: passes =>
    match state.step pass with
    | (state, report, true) => runPasses state (reports ++ [report]) passes
    | (state, report, false) => ⟨state, reports ++ [report], some pass⟩

/-- Does all passes that are required for a pass. -/
def run (state : AnalysisState) (terminal : Pass) : RunOutcome :=
  state.runPasses [] (Pass.required terminal)

def fresh (program : Program) (partition : Partition) (options : AnalysisOptions) :
    AnalysisState :=
  { program := program, partition := partition, options := options }

end AnalysisState

/-- The analysis of a program from the start, as far as its options say. -/
def analyze (program : Program) (partition : Partition) (options : AnalysisOptions) : RunOutcome :=
  (AnalysisState.fresh program partition options).run options.terminal

end ReactorCausality
