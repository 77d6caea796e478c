import ReactorCausality.Boundary.Report
import ReactorCausality.Digest
import ReactorCausality.Priority.Table

/-!
Provenance: which program an analysis was about and what came out of it, each as the digest of a
canonical text. Two analyses with the same digests had the same program and gave the same
priorities and control reactions.
-/
namespace ReactorCausality

def analyzerVersion : String := "0.3.1"

/-- The rank and level of a reaction as a triple. -/
def PriorityEntry.toJson (entry : PriorityEntry) : Json :=
  .array [entry.reaction.toJson, .nat entry.priority.rank, .nat entry.priority.level]

/-- The canonical text of priorities and control reactions. No report is the same as a report
without control reactions. -/
def canonicalOutput (table : PriorityTable) (boundaries : Option BoundaryReport) : String :=
  let controls := (boundaries.map BoundaryReport.controls).getD []
  (Json.object [
    ("controls", .ofList ControlReaction.toJson controls),
    ("priorities", .ofList PriorityEntry.toJson table.entries)]).compact

/-- The digests of a program and of what an analysis made of it, if there are priorities. -/
structure Provenance where
  modelHash : String
  outputHash : Option String
  deriving DecidableEq, Repr

namespace Provenance

/-- The provenance of a program and the canonical text of what came out. -/
def of (program : Program) (output : Option String) : Provenance :=
  ⟨Digest.ofText program.canonicalText, output.map Digest.ofText⟩

def toJson (provenance : Provenance) : Json :=
  .object [
    ("analyzer_version", .string analyzerVersion),
    ("manifest_schema_version", .nat 1),
    ("model_hash", .string provenance.modelHash),
    ("output_hash", .ofOption .string provenance.outputHash)]

def document (provenance : Provenance) : String :=
  provenance.toJson.pretty ++ "\n"

end Provenance

end ReactorCausality
