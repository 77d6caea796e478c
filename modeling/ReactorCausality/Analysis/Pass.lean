import ReactorCausality.Decode

/-!
The passes of an analysis and what they depend on. A pass runs after the passes that it depends on,
and an analysis up to some pass runs no others.
-/
namespace ReactorCausality

/-- A pass of the analysis. -/
inductive Pass where
  | buildGraph
  | detectCycles
  | assignPriorities
  | classifyBoundaries
  deriving DecidableEq, Repr, Inhabited

/-- What passes produce. -/
inductive Artifact where
  | index
  | graph
  | cycles
  | priorities
  | priorityCertificate
  | boundaries
  deriving DecidableEq, Repr

namespace Pass

def all : List Pass :=
  [buildGraph, detectCycles, assignPriorities, classifyBoundaries]

def name : Pass → String
  | buildGraph => "build_graph"
  | detectCycles => "detect_cycles"
  | assignPriorities => "assign_priorities"
  | classifyBoundaries => "classify_boundaries"

def inputs : Pass → List Pass
  | buildGraph => []
  | detectCycles => [buildGraph]
  | assignPriorities => [detectCycles]
  | classifyBoundaries => [assignPriorities]

def outputs : Pass → List Artifact
  | buildGraph => [.index, .graph]
  | detectCycles => [.cycles]
  | assignPriorities => [.priorities, .priorityCertificate]
  | classifyBoundaries => [.boundaries]

/-- What makes the artifacts of a pass outdated when it changes. -/
def invalidationKey : Pass → String
  | buildGraph => "program model"
  | detectCycles => "graph"
  | assignPriorities => "graph"
  | classifyBoundaries => "graph + priorities + partition + boundary policy"

/-- What a pass guarantees. -/
def invariants : Pass → String
  | buildGraph => "one node per reaction and port, ids in pre-order"
  | detectCycles => "zero-delay view is acyclic or every cycle is reported"
  | assignPriorities => "P1-P3 obligations verified"
  | classifyBoundaries => "one sender and one receiver spec per boundary edge"

/-- How many passes at most come one after another up to a pass. -/
def stage : Pass → Nat
  | buildGraph => 0
  | detectCycles => 1
  | assignPriorities => 2
  | classifyBoundaries => 3

/-- A pass comes after the passes whose artifacts it uses. -/
theorem stage_lt_of_mem_inputs {pass input : Pass} (member : input ∈ pass.inputs) :
    input.stage < pass.stage := by
  cases pass <;> simp_all [inputs, stage]

/-- Passes in the order in which they have to run, with a pass and all it depends on put behind
those that are there already. -/
def arrange (order : List Pass) (pass : Pass) : List Pass :=
  if pass ∈ order then order
  else (pass.inputs.attach.foldl (fun order ⟨input, _⟩ => arrange order input) order) ++ [pass]
termination_by pass.stage
decreasing_by exact stage_lt_of_mem_inputs ‹_›

/-- The passes that have to run for a pass, in order. -/
def required (terminal : Pass) : List Pass :=
  arrange [] terminal

def decode : Nat → Decoder Pass :=
  .choice (all.map fun pass => (pass.name, pass)) []

def ofText (text : String) : Except DecodeFault Pass :=
  Decoder.text decode text

end Pass

namespace Artifact

/-- The title of an artifact in a description of passes. -/
def title : Artifact → String
  | index => "Index"
  | graph => "Graph"
  | cycles => "Cycles"
  | priorities => "Priorities"
  | priorityCertificate => "PriorityCert"
  | boundaries => "Boundaries"

end Artifact

end ReactorCausality
