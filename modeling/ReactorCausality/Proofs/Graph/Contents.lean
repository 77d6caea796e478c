import Mathlib.Data.List.Chain
import Mathlib.Data.List.Infix
import ReactorCausality.Graph.OfIndex
import ReactorCausality.Proofs.Graph.ZeroDelay
import ReactorCausality.Proofs.Index.Contents

/-!
The dependency graph of an accepted program. Every reaction and every port of the program has a
node, at the position where the program mentions it first, and every dependency is an edge between
two different nodes (`graph_wellFormed`).
-/
namespace ReactorCausality

namespace Reaction

def orderedIds (reactions : List Reaction) : List ReactionId :=
  (reactions.filter fun reaction => !reaction.isUnordered).map id

/-- The dependencies of a reactor join its reactions with ports, or two ordered reactions with no
ordered one between them. -/
theorem mem_dependencies_iff {previous : Option ReactionId} {reactions : List Reaction}
    {dependency : Dependency} :
    dependency ∈ dependencies previous reactions ↔
      (∃ reaction ∈ reactions, dependency ∈ reaction.portDependencies) ∨
        ∃ first second, [first, second] <:+: previous.toList ++ orderedIds reactions ∧
          dependency = ⟨.reaction first, .reaction second, .order⟩ := by
  induction reactions generalizing previous with
  | nil => cases previous <;> simp [dependencies, orderedIds, List.infix_cons_iff]
  | cons reaction rest ih =>
    by_cases unordered : reaction.isUnordered
    · simp [dependencies, unordered, ih, orderedIds, or_assoc]
    · cases previous with
      | none => simp [dependencies, unordered, ih, orderedIds, or_assoc]
      | some before =>
        have pairs (first second : ReactionId) (ids : List ReactionId) :
            [first, second] <:+: before :: reaction.id :: ids ↔
              first = before ∧ second = reaction.id ∨ [first, second] <:+: reaction.id :: ids := by
          simp [List.infix_cons_iff, List.cons_prefix_cons]
        simp [dependencies, unordered, ih, orderedIds, pairs, or_and_right, exists_or, or_assoc,
          or_left_comm]

end Reaction

/-- The program has the reaction or port. -/
def Program.Declares (program : Program) : NodeKind → Prop
  | .reaction id => id ∈ program.reactions.map Reaction.id
  | .port id => id ∈ program.ports.map Port.id

theorem Program.declares_of_ordered {program : Program} {reactor : Reactor}
    (inside : reactor ∈ program.reactors) {id : ReactionId}
    (ordered : id ∈ Reaction.orderedIds reactor.reactions) : program.Declares (.reaction id) := by
  obtain ⟨reaction, member, rfl⟩ := List.mem_map.mp ordered
  exact List.mem_map_of_mem
    (List.mem_flatMap.mpr ⟨reactor, inside, List.mem_of_mem_filter member⟩)

/-- One thing of the program comes right before another at the same tag. -/
inductive Program.Precedes (program : Program) : NodeKind → NodeKind → Prop where
  | reads {reaction : Reaction} {port : PortId} (declared : reaction ∈ program.reactions)
      (read : port ∈ reaction.readPorts) : program.Precedes (.port port) (.reaction reaction.id)
  | writes {reaction : Reaction} {port : PortId} (declared : reaction ∈ program.reactions)
      (written : port ∈ reaction.writtenPorts) :
      program.Precedes (.reaction reaction.id) (.port port)
  /-- Both reactions are ordered, and no ordered one is declared between them. -/
  | follows {reactor : Reactor} {first second : ReactionId} (inside : reactor ∈ program.reactors)
      (neighbours : [first, second] <:+: Reaction.orderedIds reactor.reactions) :
      program.Precedes (.reaction first) (.reaction second)
  | carries {connection : Connection} (declared : connection ∈ program.connections)
      (zeroDelay : connection.isZeroDelay) :
      program.Precedes (.port connection.source) (.port connection.target)

/-- Of two ordered reactions of a reactor, the one that is declared first comes before the other,
whatever is declared between them. -/
theorem Program.pairwise_precedes {program : Program} {reactor : Reactor}
    (inside : reactor ∈ program.reactors) : (Reaction.orderedIds reactor.reactions).Pairwise
      fun first second =>
        Relation.TransGen program.Precedes (.reaction first) (.reaction second) := by
  let before (first second : ReactionId) :=
    Relation.TransGen program.Precedes (.reaction first) (.reaction second)
  have : IsTrans ReactionId before := ⟨fun _ _ _ => Relation.TransGen.trans⟩
  have chain : (Reaction.orderedIds reactor.reactions).IsChain before :=
    (List.isChain_isInfix _).imp fun _ _ neighbours => .single (.follows inside neighbours)
  exact chain.pairwise

def NodeKind.port? : NodeKind → Option PortId
  | reaction _ => none
  | port id => some id

def DependencyGraph.portAt? (graph : DependencyGraph) (node : Nat) : Option PortId :=
  (graph.nodes[node]?).bind fun node => node.kind.port?

namespace Index

def position (index : Index) (kind : NodeKind) : Nat :=
  index.nodeKinds.idxOf kind

def edgeOf (index : Index) (dependency : Dependency) : Edge :=
  ⟨index.position dependency.source, index.position dependency.target, dependency.kind⟩

theorem edges_graph (index : Index) : index.graph.edges = index.dependencyList.map index.edgeOf :=
  rfl

variable {index : Index} {program : Program}

theorem isZeroDelay_edgeOf_connection (connection : Connection) :
    (index.edgeOf connection.dependency).isZeroDelay = connection.isZeroDelay := by
  simp only [edgeOf, Connection.dependency, Edge.isZeroDelay, Connection.isZeroDelay]
  cases connection.break? <;> rfl

namespace Describes

variable (described : index.Describes program)
include described

theorem isSome_node?_iff {kind : NodeKind} : (index.node? kind).isSome ↔ program.Declares kind := by
  cases kind with
  | reaction id =>
    rw [node?, Option.isSome_map]
    exact described.isSome_reaction?_iff
  | port id =>
    rw [node?, Option.isSome_map]
    exact described.isSome_port?_iff

theorem declares_touched {reaction : Reaction} (declared : reaction ∈ program.reactions)
    {port : PortId} (touched : port ∈ reaction.readPorts ++ reaction.writtenPorts) :
    program.Declares (.port port) :=
  described.isSome_port?_iff.mp (described.isSome_port?_of_touched declared touched)

theorem mem_nodeKinds_iff {kind : NodeKind} : kind ∈ index.nodeKinds ↔ program.Declares kind := by
  rw [nodeKinds, mem_distinct]
  have reactors : (index.reactors.flatMap fun entry => entry.reactor.mentions) =
      program.reactors.flatMap Reactor.mentions := by
    rw [← described.map_reactors, List.flatMap_map]
  rw [reactors]
  constructor
  · intro mentioned
    obtain ⟨reactor, inside, mentioned⟩ := List.mem_flatMap.mp mentioned
    rcases List.mem_append.mp mentioned with touched | own
    · obtain ⟨reaction, declared, touched⟩ := List.mem_flatMap.mp touched
      have member : reaction ∈ program.reactions := List.mem_flatMap.mpr ⟨reactor, inside, declared⟩
      rcases List.mem_cons.mp touched with rfl | touched
      · exact List.mem_map_of_mem member
      · obtain ⟨port, isTouched, rfl⟩ := List.mem_map.mp touched
        exact described.declares_touched member isTouched
    · obtain ⟨port, declared, rfl⟩ := List.mem_map.mp own
      exact List.mem_map_of_mem (List.mem_flatMap.mpr ⟨reactor, inside, declared⟩)
  · intro declared
    cases kind with
    | reaction id =>
      obtain ⟨reaction, member, rfl⟩ := List.mem_map.mp declared
      obtain ⟨reactor, inside, declared⟩ := List.mem_flatMap.mp member
      refine List.mem_flatMap.mpr ⟨reactor, inside, List.mem_append_left _ ?_⟩
      exact List.mem_flatMap.mpr ⟨reaction, declared, List.mem_cons_self⟩
    | port id =>
      obtain ⟨port, member, rfl⟩ := List.mem_map.mp declared
      obtain ⟨reactor, inside, declared⟩ := List.mem_flatMap.mp member
      exact List.mem_flatMap.mpr
        ⟨reactor, inside, List.mem_append_right _ (List.mem_map.mpr ⟨port, declared, rfl⟩)⟩

/-- The nodes stand for everything that is mentioned, in the same order. -/
theorem map_kind_nodes : index.graph.nodes.map Node.kind = index.nodeKinds := by
  have each : ∀ kind ∈ index.nodeKinds, (index.node? kind).map Node.kind = some kind := by
    intro kind member
    have found := described.isSome_node?_iff.mpr (described.mem_nodeKinds_iff.mp member)
    cases kind <;> simp_all [node?, Option.isSome_iff_exists]
  calc index.graph.nodes.map Node.kind
      = index.nodeKinds.filterMap fun kind => (index.node? kind).map Node.kind := by
        rw [graph, List.map_filterMap]
    _ = index.nodeKinds.filterMap some := List.filterMap_congr each
    _ = index.nodeKinds := List.filterMap_some

theorem length_nodes : index.graph.nodes.length = index.nodeKinds.length := by
  rw [← described.map_kind_nodes, List.length_map]

theorem position_lt {kind : NodeKind} (declared : program.Declares kind) :
    index.position kind < index.graph.nodes.length := by
  rw [described.length_nodes]
  exact List.idxOf_lt_length_of_mem (described.mem_nodeKinds_iff.mpr declared)

theorem kind_at_position {kind : NodeKind} (declared : program.Declares kind) :
    (index.graph.nodes[index.position kind]?).map Node.kind = some kind := by
  rw [← List.getElem?_map, described.map_kind_nodes, position]
  exact List.getElem?_idxOf (described.mem_nodeKinds_iff.mpr declared)

theorem reactionAt?_position {kind : NodeKind} (declared : program.Declares kind) :
    index.graph.reactionAt? (index.position kind) = kind.reaction? := by
  obtain ⟨node, found, rfl⟩ := Option.map_eq_some_iff.mp (described.kind_at_position declared)
  simp [DependencyGraph.reactionAt?, found]

theorem position_injective {first second : NodeKind} (declared : program.Declares first)
    (same : index.position first = index.position second) : first = second :=
  (List.idxOf_inj (described.mem_nodeKinds_iff.mpr declared)).mp same

theorem portAt?_position {kind : NodeKind} (declared : program.Declares kind) :
    index.graph.portAt? (index.position kind) = kind.port? := by
  obtain ⟨node, found, rfl⟩ := Option.map_eq_some_iff.mp (described.kind_at_position declared)
  simp [DependencyGraph.portAt?, found]

theorem eq_position_of_kind {node : Nat} {kind : NodeKind}
    (isKind : (index.graph.nodes[node]?).map Node.kind = some kind) :
    node = index.position kind := by
  rw [← List.getElem?_map, described.map_kind_nodes] at isKind
  obtain ⟨less, same⟩ := List.getElem?_eq_some_iff.mp isKind
  have distinct : index.nodeKinds.Nodup := nodup_distinct _
  rw [position, ← same, distinct.idxOf_getElem]

theorem eq_position {node : Nat} {id : ReactionId}
    (isReaction : index.graph.reactionAt? node = some id) :
    node = index.position (.reaction id) := by
  obtain ⟨found, isNode, kind⟩ := Option.bind_eq_some_iff.mp isReaction
  refine described.eq_position_of_kind ?_
  cases same : found.kind <;> simp_all [NodeKind.reaction?]

theorem eq_position_of_port {node : Nat} {id : PortId}
    (isPort : index.graph.portAt? node = some id) : node = index.position (.port id) := by
  obtain ⟨found, isNode, kind⟩ := Option.bind_eq_some_iff.mp isPort
  refine described.eq_position_of_kind ?_
  cases same : found.kind <;> simp_all [NodeKind.port?]

/-! ### Edges -/

theorem nodup_orderedIds {reactor : Reactor} (inside : reactor ∈ program.reactors) :
    (Reaction.orderedIds reactor.reactions).Nodup := by
  have part : (Reaction.orderedIds reactor.reactions).Sublist (program.reactions.map Reaction.id) := by
    refine (List.filter_sublist.map _).trans (List.Sublist.map _ ?_)
    exact List.sublist_flatten_of_mem (List.mem_map_of_mem inside)
  exact described.nodup_reactionIds.sublist part

/-- A dependency joins a reaction with a port that it touches, two neighbours among the ordered
reactions of a reactor, or the ends of a connection. -/
theorem mem_dependencyList_iff {dependency : Dependency} :
    dependency ∈ index.dependencyList ↔
      (∃ reaction ∈ program.reactions, dependency ∈ reaction.portDependencies) ∨
        (∃ reactor ∈ program.reactors, ∃ first second,
          [first, second] <:+: Reaction.orderedIds reactor.reactions ∧
            dependency = ⟨.reaction first, .reaction second, .order⟩) ∨
          ∃ connection ∈ program.connections, connection.dependency = dependency := by
  have declared : (index.reactors.flatMap fun entry =>
      Reaction.dependencies none entry.reactor.reactions) =
        program.reactors.flatMap fun reactor => Reaction.dependencies none reactor.reactions := by
    rw [← described.map_reactors, List.flatMap_map]
  have carried : (index.connections.map fun entry => entry.connection.dependency) =
      program.connections.map Connection.dependency := by
    rw [← described.map_connections, List.map_map, Function.comp_def]
  rw [Index.dependencyList, declared, carried, List.mem_append, List.mem_flatMap, List.mem_map,
    ← or_assoc]
  refine or_congr_left ?_
  simp only [Reaction.mem_dependencies_iff, Option.toList_none, List.nil_append,
    Program.reactions, List.mem_flatMap, and_or_left, exists_or]
  refine or_congr_left ?_
  constructor
  · rintro ⟨reactor, inside, reaction, declared, member⟩
    exact ⟨reaction, ⟨reactor, inside, declared⟩, member⟩
  · rintro ⟨reaction, ⟨reactor, inside, declared⟩, member⟩
    exact ⟨reactor, inside, reaction, declared, member⟩

theorem dependency_ends {dependency : Dependency} (member : dependency ∈ index.dependencyList) :
    program.Declares dependency.source ∧ program.Declares dependency.target ∧
      dependency.source ≠ dependency.target := by
  rcases described.mem_dependencyList_iff.mp member with
    ⟨reaction, declared, touching⟩ | ⟨reactor, inside, first, second, neighbours, rfl⟩ |
      ⟨connection, declared, rfl⟩
  · rcases List.mem_append.mp touching with read | written
    · obtain ⟨port, isRead, rfl⟩ := List.mem_map.mp read
      have isPort := described.declares_touched declared (List.mem_append_left _ isRead)
      exact ⟨isPort, List.mem_map_of_mem declared, nofun⟩
    · obtain ⟨port, isWritten, rfl⟩ := List.mem_map.mp written
      have isPort := described.declares_touched declared (List.mem_append_right _ isWritten)
      exact ⟨List.mem_map_of_mem declared, isPort, nofun⟩
  · have isFirst := Program.declares_of_ordered inside (neighbours.subset List.mem_cons_self)
    have isSecond := Program.declares_of_ordered inside
      (neighbours.subset (List.mem_cons_of_mem _ List.mem_cons_self))
    refine ⟨isFirst, isSecond, ?_⟩
    simpa using (described.nodup_orderedIds inside).sublist neighbours.sublist
  · obtain ⟨entry, listed, rfl⟩ := List.mem_map.mp (described.map_connections ▸ declared)
    obtain ⟨source, target, differ⟩ := described.connection_ends listed
    refine ⟨described.isSome_port?_iff.mp source, described.isSome_port?_iff.mp target, ?_⟩
    simpa [Connection.dependency] using differ

theorem exists_dependency {edge : Edge} (member : edge ∈ index.graph.edges) {kind : NodeKind}
    (leaves : edge.source = index.position kind) :
    ∃ dependency ∈ index.dependencyList, dependency.source = kind ∧
      index.edgeOf dependency = edge := by
  obtain ⟨dependency, listed, rfl⟩ := List.mem_map.mp (index.edges_graph ▸ member)
  exact ⟨dependency, listed,
    described.position_injective (described.dependency_ends listed).1 leaves, rfl⟩

/-- An edge that leaves a port leads to a reaction that reads it, or it is a connection. -/
theorem edge_of_port {edge : Edge} (member : edge ∈ index.graph.edges) {port : PortId}
    (leaves : edge.source = index.position (.port port)) :
    (∃ reaction ∈ program.reactions, port ∈ reaction.readPorts ∧
      edge = index.edgeOf ⟨.port port, .reaction reaction.id, .source⟩) ∨
    ∃ connection ∈ program.connections, connection.source = port ∧
      edge = index.edgeOf connection.dependency := by
  obtain ⟨dependency, listed, same, rfl⟩ := described.exists_dependency member leaves
  rcases described.mem_dependencyList_iff.mp listed with
    ⟨reaction, declared, touching⟩ | ⟨reactor, -, first, second, -, rfl⟩ |
      ⟨connection, declared, rfl⟩
  · rcases List.mem_append.mp touching with read | written
    · obtain ⟨other, isRead, rfl⟩ := List.mem_map.mp read
      cases same
      exact .inl ⟨reaction, declared, isRead, rfl⟩
    · obtain ⟨other, -, rfl⟩ := List.mem_map.mp written
      cases same
  · cases same
  · cases same
    exact .inr ⟨connection, declared, rfl, rfl⟩

/-- An edge that leaves a reaction leads to a port that it writes, or to the next ordered reaction
of its reactor. -/
theorem edge_of_reaction {edge : Edge} (member : edge ∈ index.graph.edges) {id : ReactionId}
    (leaves : edge.source = index.position (.reaction id)) :
    (∃ reaction ∈ program.reactions, reaction.id = id ∧ ∃ port ∈ reaction.writtenPorts,
      edge = index.edgeOf ⟨.reaction id, .port port, .effect⟩) ∨
    ∃ reactor ∈ program.reactors, ∃ next,
      [id, next] <:+: Reaction.orderedIds reactor.reactions ∧
        edge = index.edgeOf ⟨.reaction id, .reaction next, .order⟩ := by
  obtain ⟨dependency, listed, same, rfl⟩ := described.exists_dependency member leaves
  rcases described.mem_dependencyList_iff.mp listed with
    ⟨reaction, declared, touching⟩ | ⟨reactor, inside, first, second, neighbours, rfl⟩ |
      ⟨connection, -, rfl⟩
  · rcases List.mem_append.mp touching with read | written
    · obtain ⟨other, -, rfl⟩ := List.mem_map.mp read
      cases same
    · obtain ⟨port, isWritten, rfl⟩ := List.mem_map.mp written
      cases same
      exact .inl ⟨reaction, declared, rfl, port, isWritten, rfl⟩
  · cases same
    exact .inr ⟨reactor, inside, second, neighbours, rfl⟩
  · cases same

/-- One thing comes right before another exactly if a zero-delay dependency says so. -/
theorem precedes_iff {first second : NodeKind} :
    program.Precedes first second ↔ ∃ dependency ∈ index.dependencyList,
      (index.edgeOf dependency).isZeroDelay ∧
        dependency.source = first ∧ dependency.target = second := by
  simp only [described.mem_dependencyList_iff]
  constructor
  · intro precedes
    cases precedes with
    | reads declared read =>
      exact ⟨_, .inl ⟨_, declared, List.mem_append_left _ (List.mem_map_of_mem read)⟩,
        rfl, rfl, rfl⟩
    | writes declared written =>
      exact ⟨_, .inl ⟨_, declared, List.mem_append_right _ (List.mem_map_of_mem written)⟩,
        rfl, rfl, rfl⟩
    | follows inside neighbours =>
      exact ⟨_, .inr (.inl ⟨_, inside, _, _, neighbours, rfl⟩), rfl, rfl, rfl⟩
    | carries declared zeroDelay =>
      exact ⟨_, .inr (.inr ⟨_, declared, rfl⟩),
        (isZeroDelay_edgeOf_connection _).trans zeroDelay, rfl, rfl⟩
  · rintro ⟨dependency, ⟨reaction, declared, touching⟩ |
      ⟨reactor, inside, first, second, neighbours, rfl⟩ | ⟨connection, declared, rfl⟩,
      zeroDelay, rfl, rfl⟩
    · rcases List.mem_append.mp touching with read | written
      · obtain ⟨port, isRead, rfl⟩ := List.mem_map.mp read
        exact .reads declared isRead
      · obtain ⟨port, isWritten, rfl⟩ := List.mem_map.mp written
        exact .writes declared isWritten
    · exact .follows inside neighbours
    · exact .carries declared ((isZeroDelay_edgeOf_connection _).symm.trans zeroDelay)

/-- The zero-delay view has an edge exactly where one thing of the program comes right before
another. -/
theorem step_iff {source target : Nat} :
    index.graph.Step source target ↔ ∃ first second, program.Precedes first second ∧
      index.position first = source ∧ index.position second = target := by
  constructor
  · rintro ⟨edge, member, zeroDelay, rfl, rfl⟩
    obtain ⟨dependency, listed, rfl⟩ := List.mem_map.mp (index.edges_graph ▸ member)
    exact ⟨_, _, described.precedes_iff.mpr ⟨dependency, listed, zeroDelay, rfl, rfl⟩, rfl, rfl⟩
  · rintro ⟨first, second, precedes, rfl, rfl⟩
    obtain ⟨dependency, listed, zeroDelay, rfl, rfl⟩ := described.precedes_iff.mp precedes
    exact ⟨index.edgeOf dependency, index.edges_graph ▸ List.mem_map_of_mem listed, zeroDelay,
      rfl, rfl⟩

theorem declares_of_precedes {first second : NodeKind}
    (precedes : Relation.TransGen program.Precedes first second) :
    program.Declares first ∧ program.Declares second := by
  have ends {first second : NodeKind} (precedes : program.Precedes first second) :
      program.Declares first ∧ program.Declares second := by
    obtain ⟨dependency, listed, -, rfl, rfl⟩ := described.precedes_iff.mp precedes
    obtain ⟨source, target, -⟩ := described.dependency_ends listed
    exact ⟨source, target⟩
  obtain ⟨_, leaves, -⟩ := Relation.TransGen.head'_iff.mp precedes
  obtain ⟨_, -, arrives⟩ := Relation.TransGen.tail'_iff.mp precedes
  exact ⟨(ends leaves).1, (ends arrives).2⟩

theorem reaches_of_precedes {first second : NodeKind}
    (precedes : Relation.TransGen program.Precedes first second) :
    index.graph.Reaches (index.position first) (index.position second) :=
  precedes.lift index.position fun first second precedes =>
    described.step_iff.mpr ⟨first, second, precedes, rfl, rfl⟩

theorem graph_wellFormed : index.graph.WellFormed where
  distinct := by
    rw [described.map_kind_nodes]
    exact nodup_distinct _
  source_lt edge member := by
    obtain ⟨dependency, listed, rfl⟩ := List.mem_map.mp (index.edges_graph ▸ member)
    exact described.position_lt (described.dependency_ends listed).1
  target_lt edge member := by
    obtain ⟨dependency, listed, rfl⟩ := List.mem_map.mp (index.edges_graph ▸ member)
    exact described.position_lt (described.dependency_ends listed).2.1
  loopless edge member := by
    obtain ⟨dependency, listed, rfl⟩ := List.mem_map.mp (index.edges_graph ▸ member)
    obtain ⟨source, -, differ⟩ := described.dependency_ends listed
    exact fun same => differ (described.position_injective source same)

theorem perm_reactions :
    (index.graph.reactions.map Prod.snd).Perm (program.reactions.map Reaction.id) := by
  refine (List.perm_ext_iff_of_nodup described.graph_wellFormed.nodup_reactions
    described.nodup_reactionIds).mpr fun id => ?_
  rw [DependencyGraph.map_snd_reactions_eq_filterMap, described.map_kind_nodes, List.mem_filterMap]
  constructor
  · rintro ⟨kind, mentioned, isReaction⟩
    cases kind with
    | reaction other => cases isReaction; exact described.mem_nodeKinds_iff.mp mentioned
    | port _ => cases isReaction
  · exact fun declared => ⟨.reaction id, described.mem_nodeKinds_iff.mpr declared, rfl⟩

end Describes

end Index

end ReactorCausality
