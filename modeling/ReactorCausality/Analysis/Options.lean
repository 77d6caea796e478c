import ReactorCausality.Analysis.Pass
import ReactorCausality.Federation.Policy

/-!
The options of an analysis: the policy for boundaries, and the pass up to which to go.
-/
namespace ReactorCausality

/-- What an analysis is asked to do. -/
structure AnalysisOptions where
  policy : Policy := {}
  terminal : Pass := .classifyBoundaries
  deriving DecidableEq, Repr, Inhabited

namespace AnalysisOptions

/-- Changes the policy. -/
def withPolicy (options : AnalysisOptions) (change : Policy → Policy) : AnalysisOptions :=
  { options with policy := change options.policy }

/-- The fields of the options, none of which has to be given. -/
def fields (depth : Nat) : List (Decoder.Field AnalysisOptions) :=
  [.defaulted "coordination" (Coordination.decode depth)
      fun options coordination => options.withPolicy fun policy => { policy with coordination },
    .defaulted "network_latency" (.optional .time)
      fun options networkLatency =>
        options.withPolicy fun policy => { policy with networkLatency },
    .defaulted "default_stp" (.optional .time)
      fun options defaultOffset =>
        options.withPolicy fun policy => { policy with defaultOffset },
    .defaulted "terminal" (Pass.decode depth)
      fun options terminal => { options with terminal }]

def decode : Nat → Decoder AnalysisOptions :=
  .record {} fields

def ofText (text : String) : Except DecodeFault AnalysisOptions :=
  Decoder.text decode text

end AnalysisOptions

end ReactorCausality
