import ReactorCausality.Graph.Basic
import ReactorCausality.Index.Basic

/-!
The dependency graph of a program. Its nodes stand in the order in which the program mentions what
they stand for: reactor by reactor in pre-order, each reaction with the ports it reads and writes,
then the remaining ports of the reactor. Its edges stand in the same order, with those of the
connections behind all others.
-/
namespace ReactorCausality

/-- A dependency between two things, before they have positions. -/
structure Dependency where
  source : NodeKind
  target : NodeKind
  kind : EdgeKind
  deriving DecidableEq, Repr

namespace Reaction

/-- What a declaration of a reaction mentions, in order. -/
def mentions (reaction : Reaction) : List NodeKind :=
  .reaction reaction.id :: (reaction.readPorts ++ reaction.writtenPorts).map .port

def portDependencies (reaction : Reaction) : List Dependency :=
  (reaction.readPorts.map fun port => ⟨.port port, .reaction reaction.id, .source⟩)
    ++ reaction.writtenPorts.map fun port => ⟨.reaction reaction.id, .port port, .effect⟩

/-- The dependencies of the reactions of a reactor, given the last ordered reaction before them.
Each ordered reaction follows the ordered reaction before it; unordered ones are passed over. -/
def dependencies (previous : Option ReactionId) : List Reaction → List Dependency
  | [] => []
  | reaction :: rest =>
    if reaction.isUnordered then reaction.portDependencies ++ dependencies previous rest
    else
      reaction.portDependencies
        ++ (previous.map fun id => ⟨.reaction id, .reaction reaction.id, .order⟩).toList
        ++ dependencies (some reaction.id) rest

end Reaction

/-- What a reactor mentions, in order, without its children. -/
def Reactor.mentions (reactor : Reactor) : List NodeKind :=
  reactor.reactions.flatMap Reaction.mentions ++ reactor.ports.map fun port => .port port.id

def Connection.dependency (connection : Connection) : Dependency :=
  ⟨.port connection.source, .port connection.target,
    .connection connection.id connection.break?⟩

namespace Index

def nodeKinds (index : Index) : List NodeKind :=
  distinct (index.reactors.flatMap fun entry => entry.reactor.mentions)

def node? (index : Index) : NodeKind → Option Node
  | .reaction id =>
    (index.reaction? id).map fun entry => ⟨.reaction id, entry.owner, entry.name⟩
  | .port id => (index.port? id).map fun entry => ⟨.port id, entry.owner, entry.name⟩

def dependencyList (index : Index) : List Dependency :=
  (index.reactors.flatMap fun entry => Reaction.dependencies none entry.reactor.reactions)
    ++ index.connections.map fun entry => entry.connection.dependency

def graph (index : Index) : DependencyGraph :=
  let kinds := index.nodeKinds
  { nodes := kinds.filterMap index.node?
    edges := index.dependencyList.map fun dependency =>
      ⟨kinds.idxOf dependency.source, kinds.idxOf dependency.target, dependency.kind⟩ }

end Index

end ReactorCausality
