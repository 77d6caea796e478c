import ReactorCausality.Program.Basic

/-!
Dependency graphs. The nodes are reactions and ports, and an edge says that its source happens no
later than its target. Delayed and physical connections are edges too, but broken ones: the
zero-delay view leaves them out.

Nodes and edges are known by their positions.
-/
namespace ReactorCausality

/-- What a node stands for. -/
inductive NodeKind where
  | reaction (id : ReactionId)
  | port (id : PortId)
  deriving DecidableEq, Repr

def NodeKind.reaction? : NodeKind → Option ReactionId
  | reaction id => some id
  | port _ => none

/-- A node, with the reactor it belongs to and its hierarchical name. -/
structure Node where
  kind : NodeKind
  reactor : ReactorId
  name : String
  deriving DecidableEq, Repr

/-- Why the target of an edge waits for its source. -/
inductive EdgeKind where
  /-- The reaction writes the port. -/
  | effect
  /-- The reaction is triggered by the port or reads it. -/
  | source
  /-- One ordered reaction of a reactor is declared after another. -/
  | order
  | connection (id : ConnectionId) (broken : Option Break)
  deriving DecidableEq, Repr

/-- An edge between the nodes at two positions. -/
structure Edge where
  source : Nat
  target : Nat
  kind : EdgeKind
  deriving DecidableEq, Repr

namespace Edge

def isZeroDelay (edge : Edge) : Bool :=
  match edge.kind with
  | .connection _ (some _) => false
  | _ => true

/-- The connection that the edge stands for, if it is one. -/
def connection? (edge : Edge) : Option ConnectionId :=
  match edge.kind with
  | .connection id _ => some id
  | _ => none

end Edge

/-- Reactions and ports with everything that orders them. -/
structure DependencyGraph where
  nodes : List Node
  edges : List Edge
  deriving DecidableEq, Repr

namespace DependencyGraph

def nodeName (graph : DependencyGraph) (node : Nat) : String :=
  ((graph.nodes[node]?).map Node.name).getD ""

def reactionAt? (graph : DependencyGraph) (node : Nat) : Option ReactionId :=
  (graph.nodes[node]?).bind fun node => node.kind.reaction?

def position? (graph : DependencyGraph) (kind : NodeKind) : Option Nat :=
  graph.nodes.findIdx? fun node => node.kind = kind

def reactions (graph : DependencyGraph) : List (Nat × ReactionId) :=
  graph.nodes.zipIdx.filterMap fun (node, position) =>
    node.kind.reaction?.map fun id => (position, id)

def zeroDelayEdges (graph : DependencyGraph) : List Edge :=
  graph.edges.filter Edge.isZeroDelay

def edgesFrom (graph : DependencyGraph) (node : Nat) : List Edge :=
  graph.edges.filter fun edge => edge.source = node

def edgesTo (graph : DependencyGraph) (node : Nat) : List Edge :=
  graph.edges.filter fun edge => edge.target = node

/-- Where the zero-delay edges of a node lead. -/
def successors (graph : DependencyGraph) (node : Nat) : List Nat :=
  ((graph.edgesFrom node).filter Edge.isZeroDelay).map Edge.target

/-- Where the zero-delay edges to a node come from. -/
def predecessors (graph : DependencyGraph) (node : Nat) : List Nat :=
  ((graph.edgesTo node).filter Edge.isZeroDelay).map Edge.source

end DependencyGraph

end ReactorCausality
