import ReactorCausality.Cycle
import ReactorCausality.Graph.OfIndex
import ReactorCausality.Priority.Table
import ReactorCausality.Proofs.Renaming.Index

/-!
The dependency graph of a renamed program. Its nodes stand where they stood and its edges lead where
they led, so whatever is worked out from positions comes out the same: the cycles, but for what their
members are about, and the ranks and levels of the reactions.
-/
namespace ReactorCausality

variable (ρ : Renaming)

/-! ### Renaming a graph -/

def NodeKind.rename : NodeKind → NodeKind
  | reaction id => reaction (id.rename ρ)
  | port id => port (id.rename ρ)

theorem NodeKind.rename_injective : Function.Injective (rename ρ) := by
  intro left right same
  cases left <;> cases right <;> simp_all [rename]

def Node.rename (node : Node) : Node :=
  { node with kind := node.kind.rename ρ, reactor := node.reactor.rename ρ }

def EdgeKind.rename : EdgeKind → EdgeKind
  | effect => effect
  | source => source
  | order => order
  | connection id broken => connection (id.rename ρ) broken

def Edge.rename (edge : Edge) : Edge :=
  { edge with kind := edge.kind.rename ρ }

def Dependency.rename (dependency : Dependency) : Dependency :=
  ⟨dependency.source.rename ρ, dependency.target.rename ρ, dependency.kind.rename ρ⟩

def DependencyGraph.rename (graph : DependencyGraph) : DependencyGraph :=
  ⟨graph.nodes.map (Node.rename ρ), graph.edges.map (Edge.rename ρ)⟩

/-! ### The graph of a renamed program -/

namespace Reaction

theorem mentions_rename (reaction : Reaction) :
    (reaction.rename ρ).mentions = reaction.mentions.map (NodeKind.rename ρ) := by
  rw [mentions, mentions, readPorts_rename, writtenPorts_rename, ← List.map_append, List.map_cons,
    List.map_map, List.map_map]
  rfl

theorem portDependencies_rename (reaction : Reaction) :
    (reaction.rename ρ).portDependencies = reaction.portDependencies.map (Dependency.rename ρ) := by
  rw [portDependencies, portDependencies, readPorts_rename, writtenPorts_rename, List.map_append,
    List.map_map, List.map_map, List.map_map, List.map_map]
  rfl

theorem dependencies_rename (previous : Option ReactionId) (reactions : List Reaction) :
    dependencies (previous.map (EntityId.rename ρ)) (reactions.map (rename ρ)) =
      (dependencies previous reactions).map (Dependency.rename ρ) := by
  induction reactions generalizing previous with
  | nil => rfl
  | cons reaction rest ih =>
    rw [List.map_cons, dependencies, dependencies, isUnordered_rename]
    split
    · rw [ih, portDependencies_rename, List.map_append]
    · have order : ((previous.map (EntityId.rename ρ)).map fun id =>
          (⟨.reaction id, .reaction (reaction.rename ρ).id, .order⟩ : Dependency)).toList =
          ((previous.map fun id =>
            (⟨.reaction id, .reaction reaction.id, .order⟩ : Dependency)).toList).map
            (Dependency.rename ρ) := by
        cases previous <;> rfl
      have later := ih (some reaction.id)
      rw [order, portDependencies_rename, List.map_append, List.map_append, ← later]
      rfl

end Reaction

theorem Reactor.mentions_rename (reactor : Reactor) :
    (reactor.rename ρ).mentions = reactor.mentions.map (NodeKind.rename ρ) := by
  simp [mentions, List.flatMap_map, List.map_flatMap, Reaction.mentions_rename, NodeKind.rename,
    Port.rename, Function.comp_def]

namespace Index

variable (index : Index)

theorem nodeKinds_rename :
    (index.rename ρ).nodeKinds = index.nodeKinds.map (NodeKind.rename ρ) := by
  rw [nodeKinds, nodeKinds, ← distinct_map (NodeKind.rename_injective ρ), List.map_flatMap]
  simp only [rename, List.flatMap_map, ReactorEntry.rename, Reactor.mentions_rename]

theorem node?_rename (kind : NodeKind) :
    (index.rename ρ).node? (kind.rename ρ) = (index.node? kind).map (Node.rename ρ) := by
  cases kind <;> simp [node?, NodeKind.rename, Node.rename, Function.comp_def, ReactionEntry.rename,
    PortEntry.rename]

theorem dependencyList_rename :
    (index.rename ρ).dependencyList = index.dependencyList.map (Dependency.rename ρ) := by
  have reactions (entry : ReactorEntry) := Reaction.dependencies_rename ρ none entry.reactor.reactions
  simp only [Option.map_none] at reactions
  simp only [dependencyList, rename, List.flatMap_map, ReactorEntry.rename, Reactor.reactions_rename,
    reactions, List.map_append, List.map_flatMap, List.map_map]
  rfl

/-- Renaming a program renames what stands in its graph and moves nothing. -/
theorem graph_rename : (index.rename ρ).graph = index.graph.rename ρ := by
  simp only [graph, DependencyGraph.rename, nodeKinds_rename, dependencyList_rename,
    List.filterMap_map, List.map_filterMap, List.map_map]
  congr 1
  · congr 1
    funext kind
    exact index.node?_rename ρ kind
  · congr 1
    funext dependency
    simp only [Function.comp_apply, Dependency.rename, Edge.rename,
      idxOf_map (NodeKind.rename_injective ρ)]

end Index

/-! ### Cycles -/

namespace DependencyGraph

variable (graph : DependencyGraph)

@[simp]
theorem length_nodes_rename : (graph.rename ρ).nodes.length = graph.nodes.length :=
  List.length_map _

@[simp]
theorem getElem?_nodes_rename (node : Nat) :
    (graph.rename ρ).nodes[node]? = graph.nodes[node]?.map (Node.rename ρ) :=
  List.getElem?_map

@[simp]
theorem nodeName_rename : (graph.rename ρ).nodeName = graph.nodeName := by
  funext node
  simp [nodeName, Function.comp_def, Node.rename]

@[simp]
theorem reactionAt?_rename (node : Nat) :
    (graph.rename ρ).reactionAt? node = (graph.reactionAt? node).map (EntityId.rename ρ) := by
  simp only [reactionAt?, getElem?_nodes_rename]
  cases graph.nodes[node]? with
  | none => rfl
  | some found =>
    cases kind : found.kind <;>
      simp [Node.rename, NodeKind.rename, NodeKind.reaction?, kind]

@[simp]
theorem isZeroDelay_edge_rename (edge : Edge) : (edge.rename ρ).isZeroDelay = edge.isZeroDelay := by
  obtain ⟨source, target, kind⟩ := edge
  cases kind with
  | connection id broken => cases broken <;> rfl
  | _ => rfl

@[simp]
theorem successors_rename : (graph.rename ρ).successors = graph.successors := by
  funext node
  simp [successors, edgesFrom, rename, List.filter_map, Function.comp_def]
  rfl

@[simp]
theorem predecessors_rename : (graph.rename ρ).predecessors = graph.predecessors := by
  funext node
  simp [predecessors, edgesTo, rename, List.filter_map, Function.comp_def]
  rfl

end DependencyGraph

def Subject.rename : Subject → Subject
  | reactor id => reactor (id.rename ρ)
  | port id => port (id.rename ρ)
  | reaction id => reaction (id.rename ρ)
  | connection id => connection (id.rename ρ)
  | federate id => federate id

def CycleMember.rename (member : CycleMember) : CycleMember :=
  { member with subject := member.subject.rename ρ }

/-- Nodes, paths and names of a cycle do not depend on the ids. -/
def Cycle.rename (cycle : Cycle) : Cycle :=
  { cycle with members := cycle.members.map (CycleMember.rename ρ) }

def CycleReport.rename (report : CycleReport) : CycleReport :=
  ⟨report.cycles.map (Cycle.rename ρ)⟩

theorem Cycle.ofComponent_rename (graph : DependencyGraph) (next : Nat → List Nat)
    (component : List Nat) :
    ofComponent (graph.rename ρ) next component = (ofComponent graph next component).rename ρ := by
  simp only [ofComponent, rename, DependencyGraph.nodeName_rename,
    DependencyGraph.getElem?_nodes_rename, List.map_filterMap]
  congr 2
  funext node
  cases graph.nodes[node]? with
  | none => rfl
  | some found => obtain ⟨kind, owner, name⟩ := found; cases kind <;> rfl

theorem DependencyGraph.cycles_rename (graph : DependencyGraph) :
    (graph.rename ρ).cycles = graph.cycles.rename ρ := by
  simp only [cycles, cyclicComponents, CycleReport.rename, length_nodes_rename, successors_rename,
    List.map_map]
  congr 2
  funext component
  exact Cycle.ofComponent_rename ρ graph graph.successors component

/-! ### Priorities -/

def PriorityEntry.rename (entry : PriorityEntry) : PriorityEntry :=
  { entry with reaction := entry.reaction.rename ρ }

/-- The order of the nodes, the ranks and the levels do not depend on the ids. -/
def PriorityTable.rename (table : PriorityTable) : PriorityTable :=
  { table with entries := table.entries.map (PriorityEntry.rename ρ) }

def Placement.rename (placement : Placement) : Placement :=
  { placement with entries := placement.entries.map (PriorityEntry.rename ρ) }

namespace PriorityTable

variable (table : PriorityTable) (reaction : ReactionId)

@[simp]
theorem get?_rename : (table.rename ρ).get? (reaction.rename ρ) = table.get? reaction := by
  simp [get?, rename, PriorityEntry.rename, List.find?_map, Function.comp_def]

@[simp]
theorem rank?_rename : (table.rename ρ).rank? (reaction.rename ρ) = table.rank? reaction := by
  simp [rank?]

@[simp]
theorem level?_rename : (table.rename ρ).level? (reaction.rename ρ) = table.level? reaction := by
  simp [level?]

end PriorityTable

namespace Placement

variable (graph : DependencyGraph)

theorem release_rename (carried : Nat) (placement : Placement) (node : Nat) :
    release carried (placement.rename ρ) node = (release carried placement node).rename ρ :=
  rfl

theorem start_rename : start (graph.rename ρ) = (start graph).rename ρ := by
  simp [start, rename]

theorem place_rename (placement : Placement) (node : Nat) (ready : List Nat) :
    (placement.rename ρ).place (graph.rename ρ) node ready =
      (placement.place graph node ready).rename ρ := by
  have released (carried : Nat) (placement : Placement) (nodes : List Nat) :
      nodes.foldl (release carried) (placement.rename ρ) =
        (nodes.foldl (release carried) placement).rename ρ :=
    List.foldl_hom (rename ρ) fun placement node => release_rename ρ carried placement node
  rw [place, place, DependencyGraph.reactionAt?_rename, DependencyGraph.successors_rename]
  cases graph.reactionAt? node with
  | none =>
    simp only [Option.map_none, ← released]
    rfl
  | some reaction =>
    simp only [Option.map_some, ← released]
    simp [rename, PriorityEntry.rename]

/-- Every round places the same node. -/
theorem run_rename (rounds : Nat) (placement : Placement) :
    run (graph.rename ρ) rounds (placement.rename ρ) = (run graph rounds placement).rename ρ := by
  induction rounds generalizing placement with
  | zero => rfl
  | succ rounds ih =>
    have ready : (placement.rename ρ).ready = placement.ready := rfl
    rw [run, run, ready]
    cases placement.ready with
    | nil => rfl
    | cons node ready =>
      dsimp only
      rw [place_rename, ih]

end Placement

theorem DependencyGraph.priorities_rename (graph : DependencyGraph) :
    (graph.rename ρ).priorities = graph.priorities.map (PriorityTable.rename ρ) := by
  have order (placement : Placement) : (placement.rename ρ).order = placement.order := rfl
  simp only [priorities, length_nodes_rename, Placement.start_rename, Placement.run_rename, order]
  split <;> rfl

end ReactorCausality
