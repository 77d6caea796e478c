import ReactorCausality.Federation.Federate
import ReactorCausality.Program.Interchange

/-!
What is reported about the boundaries between federates: the connections that cross one, and for
each of them the two control reactions that have to be added, one on either side. The sender
announces that it has nothing to send; the receiver waits for a message, an announcement, or the
end of its bound.
-/
namespace ReactorCausality

/-- A connection whose ends are in different federates. -/
structure BoundaryEdge where
  connection : ConnectionId
  name : String
  source : PortId
  target : PortId
  sender : FederateId
  receiver : FederateId
  delay : Option TimeValue
  isPhysical : Bool
  /-- How long the receiver waits; there may be nothing that bounds the wait. -/
  bound : Option TimeValue
  deriving DecidableEq, Repr

namespace BoundaryEdge

def isZeroDelay (edge : BoundaryEdge) : Bool :=
  !edge.isPhysical && edge.delay.isNone

def toJson (edge : BoundaryEdge) : Json :=
  .object [
    ("bound", .ofOption TimeValue.toJson edge.bound),
    ("connection", edge.connection.toJson),
    ("delay", .ofOption TimeValue.toJson edge.delay),
    ("name", .string edge.name),
    ("physical", .bool edge.isPhysical),
    ("receiver", edge.receiver.toJson),
    ("sender", edge.sender.toJson),
    ("source", edge.source.toJson),
    ("target", edge.target.toJson)]

end BoundaryEdge

/-- The side of a boundary edge. -/
inductive Side where
  | sender
  | receiver
  deriving DecidableEq, Repr

def Side.word : Side → String
  | sender => "sender"
  | receiver => "receiver"

/-- What a control reaction does. -/
inductive ControlKind where
  | emitAbsent
  | waitBounded
  deriving DecidableEq, Repr

def ControlKind.word : ControlKind → String
  | emitAbsent => "emit_absent"
  | waitBounded => "wait_bounded"

/-- Where a control reaction goes among the reactions of its federate. -/
inductive Placing where
  | before (reaction : ReactionId)
  | after (reaction : ReactionId)
  /-- No reaction of the federate has to do with the port. -/
  | unanchored
  deriving DecidableEq, Repr

/-- A place is an object from its side to the reaction, or the word that there is none. -/
def Placing.toJson : Placing → Json
  | before reaction => .object [("before", reaction.toJson)]
  | after reaction => .object [("after", reaction.toJson)]
  | unanchored => .string "unanchored"

/-- A control reaction that has to be added. -/
structure ControlReaction where
  connection : ConnectionId
  edge : String
  side : Side
  kind : ControlKind
  bound : Option TimeValue
  federate : FederateId
  /-- The port of the edge on this side. -/
  port : PortId
  placement : Placing
  deriving DecidableEq, Repr

def ControlReaction.toJson (control : ControlReaction) : Json :=
  .object [
    ("bound", .ofOption TimeValue.toJson control.bound),
    ("connection", control.connection.toJson),
    ("edge", .string control.edge),
    ("federate", control.federate.toJson),
    ("kind", .string control.kind.word),
    ("placement", control.placement.toJson),
    ("port", control.port.toJson),
    ("side", .string control.side.word)]

/-- What is reported about boundaries. -/
structure BoundaryReport where
  edges : List BoundaryEdge := []
  controls : List ControlReaction := []
  /-- The connections that keep code from being generated for the federates. -/
  unresolved : List ConnectionId := []
  deriving DecidableEq, Repr

namespace BoundaryReport

def isEmpty (report : BoundaryReport) : Bool :=
  report.edges.isEmpty

def toJson (report : BoundaryReport) : Json :=
  .object [
    ("controls", .ofList ControlReaction.toJson report.controls),
    ("edges", .ofList BoundaryEdge.toJson report.edges),
    ("unresolved", .ofList EntityId.toJson report.unresolved)]

end BoundaryReport

end ReactorCausality
