import ReactorCausality.Boundary.Report
import ReactorCausality.Federation.Partition
import ReactorCausality.Federation.Policy
import ReactorCausality.Index.Ports
import ReactorCausality.Priority.Table

/-!
Boundary edges and their control reactions. A connection crosses a boundary if its ends belong to
reactors of different federates. Its receiver may wait as long as the network takes, or as long as
the reactions behind the edge allow, whichever is longer; a delay on the connection leaves that
much less to wait.

The control reaction of the sender goes behind the last reaction that may still write to the edge,
and the one of the receiver in front of the first reaction that reads from it.
-/
namespace ReactorCausality

/-- What boundaries are classified by. -/
structure BoundarySetting where
  index : Index
  graph : DependencyGraph
  priorities : PriorityTable
  partition : Partition
  policy : Policy

namespace BoundarySetting

def federateOfPort (setting : BoundarySetting) (port : PortId) : FederateId :=
  match setting.index.portOwner? port with
  | some owner => setting.partition.federateOf setting.index owner
  | none => .ofUnassigned

def federateOfReaction (setting : BoundarySetting) (reaction : ReactionId) : FederateId :=
  match setting.index.reactionOwner? reaction with
  | some owner => setting.partition.federateOf setting.index owner
  | none => .ofUnassigned

/-- The reactions of a federate among some, each once and in ascending order. -/
def within (setting : BoundarySetting) (federate : FederateId) (reactions : List ReactionId) :
    List ReactionId :=
  (distinct (reactions.filter fun reaction =>
    setting.federateOfReaction reaction = federate)).mergeSort EntityId.precedes

/-- The reactions of a federate that read a port, or a port that it feeds at the same tag. -/
def guardedReaders (setting : BoundarySetting) (port : PortId) (federate : FederateId) :
    List ReactionId :=
  setting.within federate
    ((port :: setting.index.dependents .zeroDelay port).flatMap setting.index.readers)

/-- The reactions of a federate that write a port, or a port that feeds it at the same tag. -/
def feedingWriters (setting : BoundarySetting) (port : PortId) (federate : FederateId) :
    List ReactionId :=
  setting.within federate
    ((port :: setting.index.dependencies .zeroDelay port).flatMap setting.index.writers)

/-- The safe-to-process offsets that the readers behind a port declare. -/
def declaredOffsets (setting : BoundarySetting) (port : PortId) (federate : FederateId) :
    List TimeValue :=
  (setting.guardedReaders port federate).filterMap fun reaction =>
    (setting.index.reaction? reaction).bind fun entry => entry.reaction.safeToProcess

/-- The larger of two durations, as far as they are known. -/
def longer : Option TimeValue → Option TimeValue → Option TimeValue
  | some left, some right => some (max left right)
  | some left, none => some left
  | none, right => right

def receiverBound (setting : BoundarySetting) (connection : Connection) (receiver : FederateId) :
    Option TimeValue :=
  let declared := (setting.declaredOffsets connection.target receiver).max?
  let offset := declared.or setting.policy.defaultOffset
  (longer setting.policy.networkLatency offset).map fun base =>
    if connection.isPhysical then base else base.sub connection.delayOrZero

/-- The boundary edge of a connection, if it crosses a boundary. Ports that the dependency graph
does not have are on no boundary of it. -/
def edge? (setting : BoundarySetting) (connection : Connection) : Option BoundaryEdge :=
  let sender := setting.federateOfPort connection.source
  let receiver := setting.federateOfPort connection.target
  let isKnown := fun (port : PortId) => (setting.graph.position? (.port port)).isSome
  if isKnown connection.source && isKnown connection.target && sender ≠ receiver then
    some
      { connection := connection.id
        name := setting.index.nameOfConnection connection
        source := connection.source
        target := connection.target
        sender
        receiver
        delay := connection.delay
        isPhysical := connection.isPhysical
        bound := setting.receiverBound connection receiver }
  else none

def edges (setting : BoundarySetting) : List BoundaryEdge :=
  setting.index.connections.filterMap fun entry => setting.edge? entry.connection

/-- Whether one rank comes before another. A reaction without a rank comes before all others. -/
def rankBefore : Option Nat → Option Nat → Bool
  | none, some _ => true
  | some left, some right => left < right
  | _, none => false

/-- The first of the reactions that no other one precedes. -/
def first? (setting : BoundarySetting) : List ReactionId → Option ReactionId
  | [] => none
  | reaction :: rest =>
    match setting.first? rest with
    | none => some reaction
    | some other =>
      if rankBefore (setting.priorities.rank? other) (setting.priorities.rank? reaction) then
        some other
      else some reaction

/-- The last of the reactions that precedes no other one. -/
def last? (setting : BoundarySetting) : List ReactionId → Option ReactionId
  | [] => none
  | reaction :: rest =>
    match setting.last? rest with
    | none => some reaction
    | some other =>
      if rankBefore (setting.priorities.rank? other) (setting.priorities.rank? reaction) then
        some reaction
      else some other

def senderControl (setting : BoundarySetting) (edge : BoundaryEdge) : ControlReaction :=
  { connection := edge.connection
    edge := edge.name
    side := .sender
    kind := .emitAbsent
    bound := none
    federate := edge.sender
    port := edge.source
    placement :=
      match setting.last? (setting.feedingWriters edge.source edge.sender) with
      | some reaction => .after reaction
      | none => .unanchored }

def receiverControl (setting : BoundarySetting) (edge : BoundaryEdge) : ControlReaction :=
  { connection := edge.connection
    edge := edge.name
    side := .receiver
    kind := .waitBounded
    bound := edge.bound
    federate := edge.receiver
    port := edge.target
    placement :=
      match setting.first? (setting.guardedReaders edge.target edge.receiver) with
      | some reaction => .before reaction
      | none => .unanchored }

def controls (setting : BoundarySetting) (edge : BoundaryEdge) : List ControlReaction :=
  [setting.senderControl edge, setting.receiverControl edge]

end BoundarySetting

end ReactorCausality
