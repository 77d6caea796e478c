import ReactorCausality.AnalysisError
import ReactorCausality.Boundary.Setting
import ReactorCausality.Search.Component

/-!
Timing findings. A wait without a bound is an error if nobody can settle it: under decentralized
coordination, and also where federates wait for each other in a circle of zero-delay edges. Any
other wait without a bound is left to the coordinator, with a warning. A bound that a declared delay
uses up completely is worth a warning too.
-/
namespace ReactorCausality

/-- Why a wait without a bound cannot be settled. -/
inductive UnboundedReason where
  | circle (receiver sender : String)
  | decentralized
  deriving DecidableEq, Repr

def UnboundedReason.message : UnboundedReason → String
  | circle receiver sender =>
    s!"{receiver} waits on {sender} within a zero-delay cycle between federates"
  | decentralized =>
    "decentralized coordination needs a network latency or safe-to-process offset"

/-- What is found about the timing of an edge. -/
inductive TimingFinding where
  /-- Nobody can settle the wait. -/
  | unresolvable (reason : UnboundedReason)
  /-- The wait is left to the coordinator. -/
  | arbitrated
  /-- The declared delay uses up the bound. -/
  | absorbed
  deriving DecidableEq, Repr

namespace TimingFinding

def warning? (edge : BoundaryEdge) : TimingFinding → Option Diagnostic
  | unresolvable _ => none
  | arbitrated =>
    some
      { severity := .warning
        kind := .boundaryTiming
        message := s!"federated connection {edge.name} has no finite safe-to-process bound"
        code := some .w0200
        hint := some "the coordinator will arbitrate tag advancement for this edge"
        involved := [⟨.connection edge.connection, edge.name⟩] }
  | absorbed =>
    some
      { severity := .warning
        kind := .boundaryTiming
        message := s!"delay on {edge.name} absorbs the whole safe-to-process bound"
        code := some .w0201
        involved := [⟨.connection edge.connection, edge.name⟩] }

def unbounded? (edge : BoundaryEdge) : TimingFinding → Option UnboundedEdge
  | unresolvable reason => some ⟨edge.connection, edge.name, reason.message⟩
  | _ => none

end TimingFinding

namespace BoundarySetting

/-- Where the zero-delay edges that leave a federate lead. -/
def receivers (edges : List BoundaryEdge) (federate : Nat) : List Nat :=
  (edges.filter fun edge => edge.isZeroDelay && edge.sender.number == federate).map
    fun edge => edge.receiver.number

/-- The zero-delay edges inside a circle of federates. -/
def circularEdges (setting : BoundarySetting) (edges : List BoundaryEdge) : List ConnectionId :=
  let next := receivers edges
  let circles :=
    (Component.all setting.partition.names.length next).filter (Component.isCyclic next)
  (edges.filter fun edge =>
    edge.isZeroDelay && circles.any fun circle =>
      circle.contains edge.sender.number && circle.contains edge.receiver.number).map
    BoundaryEdge.connection

/-- What is found about the timing of an edge, given the edges inside circles. -/
def finding? (setting : BoundarySetting) (circular : List ConnectionId) (edge : BoundaryEdge) :
    Option TimingFinding :=
  match edge.bound with
  | none =>
    if edge.isZeroDelay && circular.contains edge.connection then
      some (.unresolvable (.circle (setting.partition.federateName edge.receiver)
        (setting.partition.federateName edge.sender)))
    else if edge.isZeroDelay && setting.policy.coordination == .decentralized then
      some (.unresolvable .decentralized)
    else some .arbitrated
  | some bound =>
    if bound.isZero && !edge.isPhysical && !edge.isZeroDelay then some .absorbed else none

end BoundarySetting

end ReactorCausality
