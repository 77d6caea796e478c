import ReactorCausality.Proofs.Graph.Builder

/-!
What the graph of an accepted program consists of. It has one node for every reaction and every port,
and one edge for every port that a reaction reads or writes, for every two ordered reactions of a
reactor with no ordered one between them, and for every connection; each sort of edges stands in the
order of the program (`graph_exact`).
-/
namespace ReactorCausality

/-- The reactor itself declares the reaction or port. -/
def Reactor.Declares (reactor : Reactor) : NodeKind → Prop
  | .reaction id => id ∈ reactor.reactions.map Reaction.id
  | .port id => id ∈ reactor.ports.map Port.id

namespace Program

/-- For every port that a reaction reads, the reaction waits for the port. -/
def sourceDependencies (program : Program) : List Dependency :=
  program.reactions.flatMap fun reaction =>
    reaction.readPorts.map fun port => ⟨.port port, .reaction reaction.id, .source⟩

/-- For every port that a reaction writes, the port waits for the reaction. -/
def effectDependencies (program : Program) : List Dependency :=
  program.reactions.flatMap fun reaction =>
    reaction.writtenPorts.map fun port => ⟨.reaction reaction.id, .port port, .effect⟩

/-- Of the ordered reactions of a reactor, each waits for the one before it. -/
def orderDependencies (program : Program) : List Dependency :=
  program.reactors.flatMap fun reactor =>
    let ids := Reaction.orderedIds reactor.reactions
    (ids.zip ids.tail).map fun (first, second) => ⟨.reaction first, .reaction second, .order⟩

end Program

namespace DependencyGraph

/-- What an edge says about the things that its ends stand for. -/
def dependency? (graph : DependencyGraph) (edge : Edge) : Option Dependency := do
  let source ← graph.nodes[edge.source]?
  let target ← graph.nodes[edge.target]?
  return ⟨source.kind, target.kind, edge.kind⟩

/-- The graph has exactly the nodes and edges that the program asks for. -/
structure Depicts (graph : DependencyGraph) (program : Program) : Prop where
  /-- No two nodes stand for the same thing. -/
  distinct : (graph.nodes.map Node.kind).Nodup
  declared : ∀ kind, kind ∈ graph.nodes.map Node.kind ↔ program.Declares kind
  /-- Every node belongs to the reactor that declares what it stands for. -/
  owned : ∀ node ∈ graph.nodes, ∃ reactor ∈ program.reactors,
    node.reactor = reactor.id ∧ reactor.Declares node.kind
  /-- Reactions stand in pre-order of their reactors and in the order of their declarations. -/
  reactions : graph.reactions.map Prod.snd = program.reactions.map Reaction.id
  /-- What stands for a reaction or port is found, and nothing else is. -/
  found : ∀ kind node, graph.position? kind = some node ↔
    (graph.nodes[node]?).map Node.kind = some kind
  sources : (graph.edges.filter fun edge => edge.kind = .source).map graph.dependency? =
    program.sourceDependencies.map some
  effects : (graph.edges.filter fun edge => edge.kind = .effect).map graph.dependency? =
    program.effectDependencies.map some
  orders : (graph.edges.filter fun edge => edge.kind = .order).map graph.dependency? =
    program.orderDependencies.map some
  /-- Nothing orders an unordered reaction. -/
  unordered : ∀ edge ∈ graph.edges, edge.kind = .order →
    ∀ reaction ∈ program.reactions, reaction.isUnordered →
      graph.reactionAt? edge.source ≠ some reaction.id ∧
        graph.reactionAt? edge.target ≠ some reaction.id
  connections : (graph.edges.filter fun edge => edge.connection?.isSome).map graph.dependency? =
    program.connections.map fun connection => some ⟨.port connection.source,
      .port connection.target, .connection connection.id connection.break?⟩
  /-- A delay breaks the dependency along a connection, also if it is zero. -/
  broken : ∀ edge ∈ graph.edges, ∀ id ∈ edge.connection?, ∃ connection ∈ program.connections,
    connection.id = id ∧ (edge.isZeroDelay ↔ ¬ connection.isPhysical ∧ connection.delay = none)

end DependencyGraph

theorem Connection.isZeroDelay_iff {connection : Connection} :
    connection.isZeroDelay ↔ ¬ connection.isPhysical ∧ connection.delay = none := by
  cases physical : connection.isPhysical <;> simp [isZeroDelay, break?, physical]

/-! ### Dependencies of one sort -/

namespace Reaction

/-- Apart from the order, a reactor has the dependencies of its reactions, one after the other. -/
theorem filter_dependencies {p : Dependency → Bool}
    (noOrder : ∀ first second, p ⟨first, second, .order⟩ = false) (previous : Option ReactionId)
    (reactions : List Reaction) : (dependencies previous reactions).filter p =
      reactions.flatMap fun reaction => reaction.portDependencies.filter p := by
  induction reactions generalizing previous with
  | nil => rfl
  | cons reaction rest ih =>
    by_cases unordered : reaction.isUnordered
    · simp [dependencies, unordered, ih]
    · cases previous <;> simp [dependencies, unordered, ih, noOrder]

theorem filter_portDependencies_order (reaction : Reaction) :
    reaction.portDependencies.filter (fun dependency => dependency.kind = .order) = [] := by
  simp [portDependencies]

/-- The order of a reactor joins the ordered reactions that come one after the other. -/
theorem filter_dependencies_order (previous : Option ReactionId) (reactions : List Reaction) :
    let ids := previous.toList ++ orderedIds reactions
    (dependencies previous reactions).filter (fun dependency => dependency.kind = .order) =
      (ids.zip ids.tail).map fun (first, second) => ⟨.reaction first, .reaction second, .order⟩ := by
  induction reactions generalizing previous with
  | nil => cases previous <;> rfl
  | cons reaction rest ih =>
    have ports := reaction.filter_portDependencies_order
    by_cases unordered : reaction.isUnordered
    · simpa [dependencies, orderedIds, unordered, ports] using ih previous
    · cases previous <;>
        simpa [dependencies, orderedIds, unordered, ports] using ih (some reaction.id)

end Reaction

namespace Index.Describes

variable {index : Index} {program : Program} (described : index.Describes program)
include described

theorem filter_dependencyList {p : Dependency → Bool}
    (noOrder : ∀ first second, p ⟨first, second, .order⟩ = false)
    (noConnection : ∀ connection : Connection, p connection.dependency = false) :
    index.dependencyList.filter p =
      program.reactions.flatMap fun reaction => reaction.portDependencies.filter p := by
  have carried : (program.connections.map Connection.dependency).filter p = [] := by
    simp [noConnection]
  rw [described.dependencyList_eq, List.filter_append, carried, List.append_nil,
    List.filter_flatMap, Program.reactions, List.flatMap_assoc]
  simp only [Reactor.dependencies, Reaction.filter_dependencies noOrder]

/-- Every edge says what the dependency says for which it stands. -/
theorem dependency?_edgeOf {dependency : Dependency} (member : dependency ∈ index.dependencyList) :
    index.graph.dependency? (index.edgeOf dependency) = some dependency := by
  obtain ⟨isSource, isTarget, -⟩ := described.dependency_ends member
  obtain ⟨source, atSource, sourceKind⟩ :=
    Option.map_eq_some_iff.mp (described.kind_at_position isSource)
  obtain ⟨target, atTarget, targetKind⟩ :=
    Option.map_eq_some_iff.mp (described.kind_at_position isTarget)
  simp [DependencyGraph.dependency?, edgeOf, atSource, atTarget, sourceKind, targetKind]

/-- Edges of some kinds stand for the dependencies of these kinds, in the same order. -/
theorem map_dependency?_edges (p : EdgeKind → Bool) :
    (index.graph.edges.filter fun edge => p edge.kind).map index.graph.dependency? =
      (index.dependencyList.filter fun dependency => p dependency.kind).map some := by
  have kinds : (fun edge : Edge => p edge.kind) ∘ index.edgeOf = fun dependency => p dependency.kind :=
    rfl
  rw [index.edges_graph, List.filter_map, kinds, List.map_map]
  refine List.map_congr_left fun dependency member => ?_
  exact described.dependency?_edgeOf (List.mem_of_mem_filter member)

theorem map_sources : (index.graph.edges.filter fun edge => edge.kind = .source).map
    index.graph.dependency? = program.sourceDependencies.map some := by
  have each (reaction : Reaction) :
      reaction.portDependencies.filter (fun dependency => dependency.kind = .source) =
        reaction.readPorts.map fun port => ⟨.port port, .reaction reaction.id, .source⟩ := by
    simp [Reaction.portDependencies, List.filter_map, Function.comp_def]
  rw [described.map_dependency?_edges fun kind => kind = .source,
    described.filter_dependencyList (by simp) (by simp [Connection.dependency])]
  simp only [Program.sourceDependencies, each]

theorem map_effects : (index.graph.edges.filter fun edge => edge.kind = .effect).map
    index.graph.dependency? = program.effectDependencies.map some := by
  have each (reaction : Reaction) :
      reaction.portDependencies.filter (fun dependency => dependency.kind = .effect) =
        reaction.writtenPorts.map fun port => ⟨.reaction reaction.id, .port port, .effect⟩ := by
    simp [Reaction.portDependencies, List.filter_map, Function.comp_def]
  rw [described.map_dependency?_edges fun kind => kind = .effect,
    described.filter_dependencyList (by simp) (by simp [Connection.dependency])]
  simp only [Program.effectDependencies, each]

theorem map_orders : (index.graph.edges.filter fun edge => edge.kind = .order).map
    index.graph.dependency? = program.orderDependencies.map some := by
  have carried : (program.connections.map Connection.dependency).filter
      (fun dependency => dependency.kind = .order) = [] := by
    simp [Connection.dependency]
  have each (reactor : Reactor) := Reaction.filter_dependencies_order none reactor.reactions
  rw [described.map_dependency?_edges fun kind => kind = .order, described.dependencyList_eq,
    List.filter_append, carried, List.append_nil, List.filter_flatMap]
  simp only [Reactor.dependencies, each, Program.orderDependencies, Option.toList_none,
    List.nil_append]

theorem map_connections_graph : (index.graph.edges.filter fun edge => edge.connection?.isSome).map
    index.graph.dependency? = program.connections.map fun connection => some connection.dependency := by
  let isConnection (kind : EdgeKind) : Bool := (Edge.connection? ⟨0, 0, kind⟩).isSome
  have declared : (program.reactors.flatMap Reactor.dependencies).filter
      (fun dependency => isConnection dependency.kind) = [] := by
    rw [List.filter_flatMap, List.flatMap_eq_nil_iff]
    intro reactor _
    rw [Reactor.dependencies, Reaction.filter_dependencies (by simp [isConnection, Edge.connection?])]
    simp [Reaction.portDependencies, isConnection, Edge.connection?]
  have carried : (program.connections.map Connection.dependency).filter
      (fun dependency => isConnection dependency.kind) =
        program.connections.map Connection.dependency := by
    simp [Connection.dependency, isConnection, Edge.connection?]
  calc (index.graph.edges.filter fun edge => edge.connection?.isSome).map index.graph.dependency?
      = (index.dependencyList.filter fun dependency => isConnection dependency.kind).map some :=
        described.map_dependency?_edges isConnection
    _ = (program.connections.map Connection.dependency).map some := by
        rw [described.dependencyList_eq, List.filter_append, declared, carried, List.nil_append]
    _ = _ := List.map_map

/-- No dependency orders an unordered reaction. -/
theorem not_ordered {reaction : Reaction} (declared : reaction ∈ program.reactions)
    (unordered : reaction.isUnordered) {reactor : Reactor} (inside : reactor ∈ program.reactors) :
    reaction.id ∉ Reaction.orderedIds reactor.reactions := by
  intro member
  obtain ⟨other, isOrdered, same⟩ := List.mem_map.mp member
  obtain ⟨otherDeclared, ordered⟩ := List.mem_filter.mp isOrdered
  have one : other = reaction :=
    List.inj_on_of_nodup_map described.nodup_reactionIds
      (List.mem_flatMap.mpr ⟨reactor, inside, otherDeclared⟩) declared same
  simp [one, unordered] at ordered

theorem unordered_untouched {edge : Edge} (member : edge ∈ index.graph.edges)
    (isOrder : edge.kind = .order) {reaction : Reaction} (declared : reaction ∈ program.reactions)
    (unordered : reaction.isUnordered) :
    index.graph.reactionAt? edge.source ≠ some reaction.id ∧
      index.graph.reactionAt? edge.target ≠ some reaction.id := by
  obtain ⟨dependency, listed, rfl⟩ := List.mem_map.mp (index.edges_graph ▸ member)
  rcases described.mem_dependencyList_iff.mp listed with
    ⟨other, -, touching⟩ | ⟨reactor, inside, first, second, neighbours, rfl⟩ | ⟨connection, -, rfl⟩
  · have none := List.filter_eq_nil_iff.mp other.filter_portDependencies_order dependency touching
    exact absurd isOrder (by simpa [edgeOf] using none)
  · have isFirst := neighbours.subset List.mem_cons_self
    have isSecond := neighbours.subset (List.mem_cons_of_mem _ List.mem_cons_self)
    have untouched := described.not_ordered declared unordered inside
    simp only [edgeOf, described.reactionAt?_position (Program.declares_of_ordered inside isFirst),
      described.reactionAt?_position (Program.declares_of_ordered inside isSecond),
      NodeKind.reaction?, ne_eq, Option.some.injEq]
    exact ⟨fun same => untouched (same ▸ isFirst), fun same => untouched (same ▸ isSecond)⟩
  · cases isOrder

theorem owner_of_node {node : Node} (member : node ∈ index.graph.nodes) :
    ∃ reactor ∈ program.reactors, node.reactor = reactor.id ∧ reactor.Declares node.kind := by
  obtain ⟨kind, mentioned, isNode⟩ := List.mem_filterMap.mp member
  cases kind with
  | reaction id =>
    obtain ⟨reaction, declared, rfl⟩ := List.mem_map.mp (described.mem_nodeKinds_iff.mp mentioned)
    obtain ⟨reactor, inside, declared⟩ := List.mem_flatMap.mp declared
    rw [described.node?_reaction inside declared] at isNode
    cases isNode
    exact ⟨reactor, inside, rfl, List.mem_map_of_mem declared⟩
  | port id =>
    obtain ⟨entry, found, rfl⟩ := Option.map_eq_some_iff.mp isNode
    obtain ⟨listed, rfl⟩ := mem_of_port?_eq_some found
    obtain ⟨owner, ownerListed, declared⟩ := List.mem_flatMap.mp (described.ports ▸ listed)
    obtain ⟨port, own, rfl⟩ := List.mem_map.mp declared
    exact ⟨owner.reactor, described.map_reactors ▸ List.mem_map_of_mem ownerListed, rfl,
      List.mem_map_of_mem own⟩

theorem position?_eq_some_iff {kind : NodeKind} {node : Nat} :
    index.graph.position? kind = some node ↔ (index.graph.nodes[node]?).map Node.kind = some kind := by
  have known : index.graph.position? kind =
      if kind ∈ index.nodeKinds then some (index.position kind) else none := by
    simp only [described.position?_eq, place?, position, described.nodeKinds_eq, mem_distinct]
  rw [known]
  constructor
  · intro found
    split at found
    · next mentioned =>
      cases found
      exact described.kind_at_position (described.mem_nodeKinds_iff.mp mentioned)
    · cases found
  · intro isKind
    obtain rfl := described.eq_position_of_kind isKind
    obtain ⟨found, isNode, rfl⟩ := Option.map_eq_some_iff.mp isKind
    rw [if_pos]
    rw [← described.map_kind_nodes]
    exact List.mem_map_of_mem (List.mem_of_getElem? isNode)

theorem map_reactions_graph : index.graph.reactions.map Prod.snd = program.reactions.map Reaction.id := by
  rw [DependencyGraph.map_snd_reactions_eq_filterMap, described.map_kind_nodes, described.nodeKinds_eq,
    filterMap_distinct described.reactionsOnce, Program.filterMap_reaction?_mentions]

theorem exists_connection {edge : Edge} (member : edge ∈ index.graph.edges) {id : ConnectionId}
    (isConnection : edge.connection? = some id) : ∃ connection ∈ program.connections,
      connection.id = id ∧ (edge.isZeroDelay ↔ ¬ connection.isPhysical ∧ connection.delay = none) := by
  have shown : index.graph.dependency? edge ∈
      program.connections.map fun connection => some connection.dependency := by
    rw [← described.map_connections_graph]
    exact List.mem_map_of_mem (List.mem_filter.mpr ⟨member, by rw [isConnection]; rfl⟩)
  obtain ⟨dependency, listed, rfl⟩ := List.mem_map.mp (index.edges_graph ▸ member)
  rw [described.dependency?_edgeOf listed] at shown
  obtain ⟨connection, declared, same⟩ := List.mem_map.mp shown
  obtain rfl := Option.some.inj same
  refine ⟨connection, declared, Option.some.inj isConnection, ?_⟩
  rw [isZeroDelay_edgeOf_connection, Connection.isZeroDelay_iff]

theorem depicts_graph : index.graph.Depicts program where
  distinct := described.graph_wellFormed.distinct
  declared kind := by rw [described.map_kind_nodes, described.mem_nodeKinds_iff]
  owned _ := described.owner_of_node
  reactions := described.map_reactions_graph
  found _ _ := described.position?_eq_some_iff
  sources := described.map_sources
  effects := described.map_effects
  orders := described.map_orders
  unordered _ member isOrder _ := described.unordered_untouched member isOrder
  connections := described.map_connections_graph
  broken _ member _ isConnection := described.exists_connection member isConnection

end Index.Describes

/-- The builder accepts every accepted program, and it makes the graph that the program asks for and
finds in it what stands for reactions and ports. -/
theorem graph_exact {program : Program} {index : Index} (accepted : Index.build program = .ok index) :
    ∃ builder, GraphBuilder.build index = .ok builder ∧ builder.graph = index.graph ∧
      builder.graph.Depicts program ∧
      (∀ id node, builder.reactionNodes.lookup id = some node ↔
        (builder.graph.nodes[node]?).map Node.kind = some (.reaction id)) ∧
      ∀ id node, builder.portNodes.lookup id = some node ↔
        (builder.graph.nodes[node]?).map Node.kind = some (.port id) := by
  have described := (Index.build_eq_ok_iff program index).mp accepted
  obtain ⟨builder, built, same, reactionNodes, portNodes⟩ := described.exists_build
  rw [← same] at reactionNodes portNodes
  have depicts : builder.graph.Depicts program := same ▸ described.depicts_graph
  refine ⟨builder, built, same, depicts, fun id node => ?_, fun id node => ?_⟩
  · rw [reactionNodes, depicts.found]
  · rw [portNodes, depicts.found]

/-- A reactor hears its own echo from a child, which hears it again later. Of its three reactions the
second is unordered. -/
def Program.echo : Program where
  main :=
    { id := ⟨0⟩, name := "main"
      reactions := [
        { id := ⟨0⟩, index := 0, triggers := [.startup], effects := [.port ⟨0⟩] },
        { id := ⟨1⟩, index := 1, triggers := [.port ⟨1⟩], ordering := .unordered },
        { id := ⟨2⟩, index := 2, triggers := [.port ⟨1⟩], sources := [.port ⟨1⟩] }]
      children := [
        { id := ⟨1⟩, name := "wall", ports := [⟨⟨0⟩, "in", .input⟩, ⟨⟨1⟩, "out", .output⟩]
          reactions := [
            { id := ⟨3⟩, index := 0, triggers := [.port ⟨0⟩], effects := [.port ⟨1⟩] }] }]
      connections := [{ id := ⟨0⟩, source := ⟨1⟩, target := ⟨0⟩, delay := some .zero }] }

theorem graph_exact_echo : ∃ index builder, Index.build Program.echo = .ok index ∧
    GraphBuilder.build index = .ok builder ∧ builder.graph.Depicts Program.echo ∧
    builder.graph.nodes.map Node.kind =
      [.reaction ⟨0⟩, .port ⟨0⟩, .reaction ⟨1⟩, .port ⟨1⟩, .reaction ⟨2⟩, .reaction ⟨3⟩] ∧
    builder.graph.edges = [⟨0, 1, .effect⟩, ⟨3, 2, .source⟩, ⟨3, 4, .source⟩, ⟨0, 4, .order⟩,
      ⟨1, 5, .source⟩, ⟨5, 3, .effect⟩, ⟨3, 1, .connection ⟨0⟩ (some (.delay .zero))⟩] := by
  have accepted : Index.build Program.echo = .ok _ := rfl
  obtain ⟨builder, built, same, depicts, -, -⟩ := graph_exact accepted
  refine ⟨_, builder, accepted, built, depicts, ?_⟩
  rw [same]
  decide

end ReactorCausality
