import ReactorCausality.Federation.Federate
import ReactorCausality.Graph.Basic
import ReactorCausality.Program.Interchange

/-!
What findings are about: the entities of a program and the federates that it is split into.
-/
namespace ReactorCausality

/-- Something that a finding can be about. -/
inductive Subject where
  | reactor (id : ReactorId)
  | port (id : PortId)
  | reaction (id : ReactionId)
  | connection (id : ConnectionId)
  | federate (id : FederateId)
  deriving DecidableEq, Repr

namespace Subject

/-- A subject is an object from its kind to its id. -/
def toJson : Subject → Json
  | reactor id => .object [("reactor", id.toJson)]
  | port id => .object [("port", id.toJson)]
  | reaction id => .object [("reaction", id.toJson)]
  | connection id => .object [("connection", id.toJson)]
  | federate id => .object [("federate", id.toJson)]

def ofNode : NodeKind → Subject
  | .reaction id => reaction id
  | .port id => port id

end Subject

end ReactorCausality
