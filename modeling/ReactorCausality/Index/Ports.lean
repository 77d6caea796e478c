import ReactorCausality.Index.Basic
import ReactorCausality.Search.BreadthFirst

/-!
Walks from port to port along connections, through as many levels of the program as the connections
cross. A walk lists every port it comes to once, the nearest first, and never its start.
-/
namespace ReactorCausality

namespace Index

def portIds (index : Index) : List PortId :=
  index.ports.map fun entry => entry.port.id

/-- The ports that a port feeds, directly or through other ports. -/
def dependents (index : Index) (walk : PortWalk) (port : PortId) : List PortId :=
  BreadthFirst.reachable (index.directTargets walk) index.portIds port

/-- The ports that feed a port, directly or through other ports. -/
def dependencies (index : Index) (walk : PortWalk) (port : PortId) : List PortId :=
  BreadthFirst.reachable (index.directSources walk) index.portIds port

end Index

end ReactorCausality
