import ReactorCausality.Analysis.Run
import ReactorCausality.CommandLine.Arguments
import ReactorCausality.Federation.Plan
import ReactorCausality.Rendering.Dot

/-!
The command. It reads a program and perhaps a federation plan, runs the analysis as far as is needed
for what is to be printed, prints every diagnostic that comes up, and then what was asked for. What
the command line says goes before what the plan says.

The exit code is 0 if all went well, 1 if the analysis found an error, and 2 if there was nothing to
analyze. Graphs are printed also when the analysis found an error, since that is when they are
needed. Nothing that only federates need is printed while the federates are blocked.
-/
namespace ReactorCausality

namespace Command

def name : String := "rca"

/-- What a run of the command leaves behind. -/
structure Outcome where
  exitCode : Nat
  output : String := ""
  errors : String := ""
  deriving DecidableEq, Repr

/-- Why there is nothing to analyze. -/
inductive InputFault where
  | arguments (fault : ArgumentFault)
  | unreadable (path : String)
  | program (path : String) (fault : DecodeFault)
  | plan (path : String) (fault : DecodeFault)
  deriving DecidableEq, Repr

def describe (what : String) (fault : DecodeFault) : String :=
  match fault.message? with
  | some message => s!"{what}: {message}"
  | none => what

def InputFault.message : InputFault → String
  | arguments fault => fault.message
  | unreadable path => s!"{path}: cannot be read"
  | program path fault => path ++ ": " ++ describe "invalid program model" fault
  | plan path fault => path ++ ": " ++ describe "invalid federation file" fault

/-- The pass that is needed for what is to be printed. -/
def terminalFor : EmitStage → Pass
  | .graph => .buildGraph
  | .dot => .detectCycles
  | .priorities => .assignPriorities
  | _ => .classifyBoundaries

def optionsFor (arguments : Arguments) (plan : FederationPlan) : AnalysisOptions :=
  { policy :=
      { coordination := (arguments.coordination.or plan.coordination).getD .centralized
        networkLatency := arguments.networkLatency.or plan.networkLatency
        defaultOffset := arguments.defaultOffset.or plan.defaultOffset }
    terminal := terminalFor (arguments.emit.getD .all) }

def document (index : Index) (table : PriorityTable) (state : AnalysisState) : Json :=
  let priority (entry : PriorityEntry) : Json :=
    .object [
      ("level", .nat entry.priority.level),
      ("rank", .nat entry.priority.rank),
      ("reaction", .string (index.reactionName entry.reaction))]
  .object [
    ("boundaries", .ofOption BoundaryReport.toJson state.boundaries),
    ("diagnostics", .ofList Diagnostic.toJson state.diagnostics),
    ("priorities", .ofList priority table.entries)]

/-- What is printed when no pass has stopped the analysis. -/
def output (stage : EmitStage) (target : Target) (index : Index) (table : PriorityTable)
    (state : AnalysisState) : String :=
  let naming : Naming := ⟨index, state.partition⟩
  let controls :=
    if state.isBlocked then [] else (state.boundaries.map BoundaryReport.controls).getD []
  match stage with
  | .all => naming.render target (some table) controls
  | .priorities => naming.render target (some table) []
  | .controls => naming.render target none controls
  | .json => (document index table state).pretty ++ "\n"
  | .buildInfo => (state.provenance.map Provenance.document).getD ""
  | .graph => ""
  | .dot => ""

/-- The exit code and what is printed after a run of the analysis. -/
def conclude (stage : EmitStage) (target : Target) (run : RunOutcome) : Nat × String :=
  let state := run.state
  match stage, state.graph, state.index with
  | .graph, some graph, _ => (0, graph.listing)
  | .graph, none, _ => (1, "")
  | .dot, some graph, some index => (0, graph.dot index state.cycles)
  | .dot, _, _ => (1, "")
  | stage, _, index =>
    match run.failing, index, state.priorities with
    | none, some index, some table =>
      (if state.isBlocked then 1 else 0, output stage target index table state)
    | _, _, _ => (1, "")

def diagnosticLine (diagnostic : Diagnostic) : String :=
  s!"{name}: {diagnostic.text}\n"

/-- Analyzes a program under a plan. -/
def analysis (arguments : Arguments) (program : Program) (plan : FederationPlan) : Outcome :=
  let run := analyze program plan.partition (optionsFor arguments plan)
  let (exitCode, output) :=
    conclude (arguments.emit.getD .all) (arguments.target.getD .text) run
  { exitCode
    output
    errors := String.join (run.reports.flatMap fun report =>
      report.diagnostics.map diagnosticLine) }

/-- Reads a file. -/
def readFile (files : String → Option String) (path : String) : Except InputFault String :=
  match files path with
  | some text => .ok text
  | none => .error (.unreadable path)

/-- Reads the program and the plan, and analyzes. -/
def analysisOfFiles (files : String → Option String) (path : String) (arguments : Arguments) :
    Except InputFault Outcome := do
  let program ← (Program.ofText (← readFile files path)).mapError (.program path)
  let plan ←
    match arguments.federation with
    | none => .ok {}
    | some path => (FederationPlan.ofText (← readFile files path)).mapError (.plan path)
  return analysis arguments program plan

def usage : String :=
  s!"Usage: {name} <program> [--federation <file>] [--emit <stage>] [--target <form>] " ++
    "[--coordination <kind>] [--network-latency <time>] [--default-stp <time>] [--verbose]\n"

def answer (files : String → Option String) : Request → Except InputFault Outcome
  | .version => .ok { exitCode := 0, output := s!"{name} {analyzerVersion}\n" }
  | .help => .ok { exitCode := 0, output := usage }
  | .analysis path arguments => analysisOfFiles files path arguments

/-- The outcome of a command line, where files are read with the given function. -/
def run (files : String → Option String) (arguments : List String) : Outcome :=
  match (Request.ofArguments arguments).mapError .arguments >>= answer files with
  | .ok outcome => outcome
  | .error fault => { exitCode := 2, errors := s!"{name}: error: {fault.message}\n" }

def paths (arguments : List String) : List String :=
  match Request.ofArguments arguments with
  | .ok (.analysis path arguments) => path :: arguments.federation.toList
  | _ => []

end Command

end ReactorCausality
