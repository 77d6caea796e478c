import ReactorCausality.Graph.OfIndex

/-!
Building the dependency graph step by step. The builder goes through the tree, reactor by reactor, and
gives a node to every reaction when it comes to it and to every port when it is first referred to, be
it by a reaction of another reactor; the edges are added on the way, and those of the connections at
the end. Whatever refers to something that the index does not have stops the builder.
-/
namespace ReactorCausality

/-- Why the builder stops. -/
inductive GraphFault where
  /-- The port is not in the index. -/
  | missingPort (referrer : String) (port : PortId)
  /-- The connection is listed and cannot be looked up. -/
  | missingConnection (id : ConnectionId)
  deriving DecidableEq, Repr

def GraphFault.message : GraphFault → String
  | missingPort referrer port => s!"{referrer} references port {port.text} which has no graph node"
  | missingConnection id => s!"connection {id.text} listed but not indexed"

/-- A graph in the making, and the nodes that reactions and ports have so far. Of several nodes for one
id the latest stands first. -/
structure GraphBuilder where
  nodes : List Node := []
  edges : List Edge := []
  reactionNodes : List (ReactionId × Nat) := []
  portNodes : List (PortId × Nat) := []
  deriving DecidableEq, Repr

namespace GraphBuilder

def graph (builder : GraphBuilder) : DependencyGraph :=
  ⟨builder.nodes, builder.edges⟩

def addEdge (builder : GraphBuilder) (source target : Nat) (kind : EdgeKind) : GraphBuilder :=
  { builder with edges := builder.edges ++ [⟨source, target, kind⟩] }

def addReactionNode (builder : GraphBuilder) (id : ReactionId) (owner : ReactorId) (name : String) :
    GraphBuilder :=
  { builder with
    nodes := builder.nodes ++ [⟨.reaction id, owner, name⟩]
    reactionNodes := (id, builder.nodes.length) :: builder.reactionNodes }

/-- The node of a port, which gets one when something refers to it for the first time. -/
def portNode (index : Index) (referrer : String) (builder : GraphBuilder) (port : PortId) :
    Except GraphFault (GraphBuilder × Nat) :=
  match builder.portNodes.lookup port with
  | some node => .ok (builder, node)
  | none =>
    match index.port? port with
    | none => .error (.missingPort referrer port)
    | some entry =>
      .ok ({ builder with
        nodes := builder.nodes ++ [⟨.port port, entry.owner, entry.name⟩]
        portNodes := (port, builder.nodes.length) :: builder.portNodes }, builder.nodes.length)

/-- Joins the node of a port to what touches the port. -/
def addTouched (index : Index) (referrer : String) (join : GraphBuilder → Nat → GraphBuilder)
    (builder : GraphBuilder) (port : PortId) : Except GraphFault GraphBuilder :=
  (builder.portNode index referrer port).map fun (builder, node) => join builder node

/-- Adds an edge from the last ordered reaction, if there is one. -/
def addOrder (builder : GraphBuilder) (previous : Option Nat) (node : Nat) : GraphBuilder :=
  match previous with
  | none => builder
  | some before => builder.addEdge before node .order

/-- Adds a reaction, with edges from the ports that it reads and to those that it writes. -/
def addReaction (index : Index) (owner : ReactorId) (builder : GraphBuilder) (reaction : Reaction) :
    Except GraphFault GraphBuilder := do
  let name := index.reactionName reaction.id
  let node := builder.nodes.length
  let builder := builder.addReactionNode reaction.id owner name
  let builder ← reaction.readPorts.foldlM
    (addTouched index name fun builder source => builder.addEdge source node .source) builder
  reaction.writtenPorts.foldlM
    (addTouched index name fun builder target => builder.addEdge node target .effect) builder

/-- Adds the reactions of a reactor, given the node of the last ordered reaction before them. -/
def addReactions (index : Index) (owner : ReactorId) (previous : Option Nat) (builder : GraphBuilder) :
    List Reaction → Except GraphFault GraphBuilder
  | [] => .ok builder
  | reaction :: rest => do
    let node := builder.nodes.length
    let builder ← builder.addReaction index owner reaction
    if reaction.isUnordered then addReactions index owner previous builder rest
    else addReactions index owner (some node) (builder.addOrder previous node) rest

mutual

/-- Adds a reactor and everything below it. -/
def visit (index : Index) (builder : GraphBuilder) : Reactor → Except GraphFault GraphBuilder
  | ⟨id, _, ports, reactions, _, children, _, _⟩ => do
    let builder ← builder.addReactions index id none reactions
    let builder ← (ports.map Port.id).foldlM
      (addTouched index (index.reactorName id) fun builder _ => builder) builder
    visitAll index builder children

def visitAll (index : Index) (builder : GraphBuilder) :
    List Reactor → Except GraphFault GraphBuilder
  | [] => .ok builder
  | child :: rest => do
    let builder ← visit index builder child
    visitAll index builder rest

end

def addConnection (index : Index) (builder : GraphBuilder) (id : ConnectionId) :
    Except GraphFault GraphBuilder :=
  match index.connection? id with
  | none => .error (.missingConnection id)
  | some entry => do
    let connection := entry.connection
    let referrer := s!"connection {id.text}"
    let (builder, source) ← builder.portNode index referrer connection.source
    let (builder, target) ← builder.portNode index referrer connection.target
    return builder.addEdge source target (.connection id connection.break?)

/-- The builder when everything has been added. -/
def build (index : Index) : Except GraphFault GraphBuilder := do
  let builder ← visit index {} index.main
  (index.connections.map fun entry => entry.connection.id).foldlM (addConnection index) builder

end GraphBuilder

end ReactorCausality
