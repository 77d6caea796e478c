import ReactorCausality.Proofs.Graph.Exactness
import ReactorCausality.Proofs.Index.Linking
import ReactorCausality.Proofs.Search.Nearest

/-!
Port walks in the dependency graph. The connections of a program are the edges of its graph that stand
for connections, so a walk from port to port is a path over such edges (`mem_pathLengths_iff`), as long
as the walk. What the index lists is what these paths lead to, the nearest first (`port_walks_exact`).
-/
namespace ReactorCausality

namespace DependencyGraph

/-- An edge that stands for a connection leads from one node to another. A zero-delay walk may follow
only those that are not broken. -/
def Passes (graph : DependencyGraph) (walk : PortWalk) (source target : Nat) : Prop :=
  ∃ edge ∈ graph.edges, edge.connection?.isSome ∧ (walk = .zeroDelay → edge.isZeroDelay) ∧
    edge.source = source ∧ edge.target = target

/-- How many edges the paths have that lead from the node of one port to that of another along
connections, without those of no edge. -/
def pathLengths (graph : DependencyGraph) (walk : PortWalk) (source target : PortId) : Set Nat :=
  { count | ∃ first last, graph.position? (.port source) = some first ∧
    graph.position? (.port target) = some last ∧ LeadsIn (graph.Passes walk) first count last }

end DependencyGraph

theorem PortWalk.allows_iff {walk : PortWalk} {connection : Connection} :
    walk.allows connection ↔ (walk = .zeroDelay → connection.isZeroDelay) := by
  cases walk <;> simp [allows]

namespace Index.Describes

variable {index : Index} {program : Program} (described : index.Describes program)
  {walk : PortWalk}
include described

theorem position?_of_declares {kind : NodeKind} (declared : program.Declares kind) :
    index.graph.position? kind = some (index.position kind) :=
  described.position?_eq_some_iff.mpr (described.kind_at_position declared)

theorem declares_of_position? {kind : NodeKind} {node : Nat}
    (found : index.graph.position? kind = some node) :
    program.Declares kind ∧ node = index.position kind := by
  have isKind := described.position?_eq_some_iff.mp found
  obtain ⟨entry, isNode, rfl⟩ := Option.map_eq_some_iff.mp isKind
  refine ⟨described.mem_nodeKinds_iff.mp ?_, described.eq_position_of_kind isKind⟩
  rw [← described.map_kind_nodes]
  exact List.mem_map_of_mem (List.mem_of_getElem? isNode)

theorem declares_of_feeds {source target : PortId} (feeds : program.Feeds walk source target) :
    program.Declares (.port source) ∧ program.Declares (.port target) := by
  obtain ⟨isSource, isTarget⟩ := described.isSome_port?_of_feeds feeds
  exact ⟨described.isSome_port?_iff.mp isSource, described.isSome_port?_iff.mp isTarget⟩

/-- The edges that a walk may follow are the connections that it may follow. -/
theorem passes_iff {first last : Nat} : index.graph.Passes walk first last ↔
    ∃ source target, program.Feeds walk source target ∧
      index.position (.port source) = first ∧ index.position (.port target) = last := by
  constructor
  · rintro ⟨edge, member, isConnection, allowed, rfl, rfl⟩
    obtain ⟨dependency, listed, rfl⟩ := List.mem_map.mp (index.edges_graph ▸ member)
    rcases described.mem_dependencyList_iff.mp listed with
      ⟨reaction, -, touching⟩ | ⟨reactor, -, first, second, -, rfl⟩ | ⟨connection, declared, rfl⟩
    · rcases List.mem_append.mp touching with read | written
      · obtain ⟨port, -, rfl⟩ := List.mem_map.mp read
        cases isConnection
      · obtain ⟨port, -, rfl⟩ := List.mem_map.mp written
        cases isConnection
    · cases isConnection
    · rw [isZeroDelay_edgeOf_connection] at allowed
      exact ⟨connection.source, connection.target,
        ⟨connection, declared, PortWalk.allows_iff.mpr allowed, rfl, rfl⟩, rfl, rfl⟩
  · rintro ⟨_, _, ⟨connection, declared, allowed, rfl, rfl⟩, rfl, rfl⟩
    have listed := described.mem_dependencyList_iff.mpr (.inr (.inr ⟨connection, declared, rfl⟩))
    refine ⟨index.edgeOf connection.dependency, index.edges_graph ▸ List.mem_map_of_mem listed, rfl,
      ?_, rfl, rfl⟩
    rw [isZeroDelay_edgeOf_connection]
    exact PortWalk.allows_iff.mp allowed

/-- A path along connections that begins at a port goes from port to port. -/
theorem leadsIn_of_path {source : PortId} (declared : program.Declares (.port source)) {count : Nat}
    {node : Nat} (leads : LeadsIn (index.graph.Passes walk) (index.position (.port source)) count node) :
    ∃ target, index.position (.port target) = node ∧
      LeadsIn (program.Feeds walk) source count target := by
  -- the node at which the path has come is that of one port only, so the next connection leaves it
  have goesOn {port : PortId} (isPort : program.Declares (.port port)) {next : Nat}
      (passes : index.graph.Passes walk (index.position (.port port)) next) :
      ∃ target, index.position (.port target) = next ∧ program.Feeds walk port target := by
    obtain ⟨other, target, feeds, same, rfl⟩ := described.passes_iff.mp passes
    obtain rfl := NodeKind.port.inj (described.position_injective isPort same.symm)
    exact ⟨target, rfl, feeds⟩
  induction leads with
  | single step =>
    obtain ⟨target, rfl, feeds⟩ := goesOn declared step
    exact ⟨target, rfl, .single feeds⟩
  | tail _ step ih =>
    obtain ⟨port, rfl, before⟩ := ih
    have isPort : program.Declares (.port port) := by
      cases before with
      | single feeds => exact (described.declares_of_feeds feeds).2
      | tail _ feeds => exact (described.declares_of_feeds feeds).2
    obtain ⟨target, rfl, feeds⟩ := goesOn isPort step
    exact ⟨target, rfl, before.tail feeds⟩

theorem mem_pathLengths_iff {source target : PortId} {count : Nat} :
    count ∈ index.graph.pathLengths walk source target ↔
      LeadsIn (program.Feeds walk) source count target := by
  constructor
  · rintro ⟨first, last, isFirst, isLast, leads⟩
    obtain ⟨sourceDeclared, rfl⟩ := described.declares_of_position? isFirst
    obtain ⟨targetDeclared, rfl⟩ := described.declares_of_position? isLast
    obtain ⟨port, same, walked⟩ := described.leadsIn_of_path sourceDeclared leads
    obtain rfl := NodeKind.port.inj (described.position_injective targetDeclared same.symm)
    exact walked
  · intro leads
    obtain ⟨_, begins, -⟩ := Relation.TransGen.head'_iff.mp (LeadsIn.exists_iff.mp ⟨count, leads⟩)
    obtain ⟨_, -, ends⟩ := Relation.TransGen.tail'_iff.mp (LeadsIn.exists_iff.mp ⟨count, leads⟩)
    have isFirst := described.position?_of_declares (described.declares_of_feeds begins).1
    have isLast := described.position?_of_declares (described.declares_of_feeds ends).2
    refine ⟨_, _, isFirst, isLast, leads.lift (fun port => index.position (.port port)) ?_⟩
    exact fun source target feeds => described.passes_iff.mpr ⟨source, target, feeds, rfl, rfl⟩

theorem listsNearest_dependents (port : PortId) :
    ListsNearest port (index.graph.pathLengths walk port) (index.dependents walk port) := by
  have lengths_eq : index.graph.pathLengths walk port =
      fun target => { count | LeadsIn (program.Feeds walk) port count target } := by
    ext target count
    exact described.mem_pathLengths_iff
  rw [lengths_eq, ← described.leads_directTargets_eq]
  exact BreadthFirst.listsNearest_reachable _ _ port

theorem listsNearest_dependencies (port : PortId) :
    ListsNearest port (fun source => index.graph.pathLengths walk source port)
      (index.dependencies walk port) := by
  have lengths_eq : (fun source => index.graph.pathLengths walk source port) =
      fun source => { count | LeadsIn (Function.swap (program.Feeds walk)) port count source } := by
    ext source count
    exact described.mem_pathLengths_iff.trans LeadsIn.swap_iff.symm
  rw [lengths_eq, ← described.leads_directSources_eq]
  exact BreadthFirst.listsNearest_reachable _ _ port

theorem directTargets_subset (port : PortId) : index.directTargets walk port ⊆ index.portIds := by
  intro target fed
  exact mem_portIds_iff.mpr
    (described.isSome_port?_of_feeds (described.mem_directTargets_iff.mp fed)).2

theorem directSources_subset (port : PortId) : index.directSources walk port ⊆ index.portIds := by
  intro source feeding
  exact mem_portIds_iff.mpr
    (described.isSome_port?_of_feeds (described.mem_directSources_iff.mp feeding)).1

end Index.Describes

/-- In an accepted program, a walk forwards from a port lists the other ports to which a path leads from
it in the graph, over edges that stand for connections, and a walk backwards those from which one leads to
it. Both list no port twice and the ports with the shorter shortest paths first. A port is listed in the
walk forwards from another exactly if that is listed in the walk backwards from it. Searches that follow
the connections of one port after another, and remember the ports that they have seen, list the same and
come to an end after at most one round for every port and one more, whether or not connections lead back to
where they come from. The connections of a port are those under it in the tables of the references. -/
theorem port_walks_exact {program : Program} {index : Index}
    (accepted : Index.build program = .ok index) (walk : PortWalk) (port : PortId) :
    ListsNearest port (index.graph.pathLengths walk port) (index.dependents walk port) ∧
      ListsNearest port (fun source => index.graph.pathLengths walk source port)
        (index.dependencies walk port) ∧
      (∀ other ≠ port, other ∈ index.dependents walk port ↔ port ∈ index.dependencies walk other) ∧
      (∃ rounds ≤ index.ports.length + 1,
        BreadthFirst.Sweep.Finds (index.directTargets walk) port rounds
          (index.dependents walk port)) ∧
      (∃ rounds ≤ index.ports.length + 1,
        BreadthFirst.Sweep.Finds (index.directSources walk) port rounds
          (index.dependencies walk port)) ∧
      (∀ source, index.links.targets index walk source = index.directTargets walk source) ∧
      ∀ target, index.links.sources index walk target = index.directSources walk target := by
  have described := (Index.build_eq_ok_iff program index).mp accepted
  have forwards : ListsNearest port (index.graph.pathLengths walk port)
      (index.dependents walk port) := described.listsNearest_dependents port
  have length_portIds : index.portIds.length = index.ports.length := List.length_map _
  refine ⟨forwards, described.listsNearest_dependencies port, fun other differs => ?_, ?_, ?_,
    described.answers_links.targets walk, described.answers_links.sources walk⟩
  · rw [forwards.exactly, (described.listsNearest_dependencies other).exactly, and_iff_right differs,
      and_iff_right differs.symm]
  · rw [← length_portIds]
    exact BreadthFirst.finds_reachable described.directTargets_subset port
  · rw [← length_portIds]
    exact BreadthFirst.finds_reachable described.directSources_subset port

/-- Two reactors hand on whatever enters them, each to the other. From the second to the first it takes
a microstep. -/
def Program.roundabout : Program where
  main :=
    { id := ⟨0⟩, name := "main"
      children := [
        { id := ⟨1⟩, name := "north", ports := [⟨⟨0⟩, "in", .input⟩, ⟨⟨1⟩, "out", .output⟩]
          connections := [{ id := ⟨0⟩, source := ⟨0⟩, target := ⟨1⟩ }] },
        { id := ⟨2⟩, name := "south", ports := [⟨⟨2⟩, "in", .input⟩, ⟨⟨3⟩, "out", .output⟩]
          connections := [{ id := ⟨1⟩, source := ⟨2⟩, target := ⟨3⟩ }] }]
      connections := [
        { id := ⟨2⟩, source := ⟨1⟩, target := ⟨2⟩ },
        { id := ⟨3⟩, source := ⟨3⟩, target := ⟨0⟩, delay := some .zero }] }

def Index.roundabout : Index :=
  (survey .roundabout).index

/-- From the first reactor everything can be reached without a delay but itself, and with the delay the
start is not listed though the connections lead back to it. -/
theorem port_walks_exact_roundabout : Index.build .roundabout = .ok .roundabout ∧
    ⟨3⟩ ∈ Index.roundabout.dependents .zeroDelay ⟨0⟩ ∧
    ⟨0⟩ ∈ Index.roundabout.dependencies .zeroDelay ⟨3⟩ ∧
    ⟨0⟩ ∈ Index.roundabout.dependents .all ⟨3⟩ ∧ ⟨3⟩ ∉ Index.roundabout.dependents .all ⟨3⟩ ∧
    ∃ rounds ≤ 5, BreadthFirst.Sweep.Finds (Index.roundabout.directTargets .all) ⟨3⟩ rounds
      (Index.roundabout.dependents .all ⟨3⟩) := by
  have accepted : Index.build .roundabout = .ok .roundabout := rfl
  obtain ⟨ahead, -, converse, -, -⟩ := port_walks_exact accepted .zeroDelay ⟨0⟩
  obtain ⟨around, -, -, ends, -⟩ := port_walks_exact accepted .all ⟨3⟩
  have enters : Index.roundabout.graph.Passes .zeroDelay 0 1 :=
    ⟨⟨0, 1, .connection ⟨0⟩ none⟩, by decide, rfl, by decide, rfl, rfl⟩
  have crosses : Index.roundabout.graph.Passes .zeroDelay 1 2 :=
    ⟨⟨1, 2, .connection ⟨2⟩ none⟩, by decide, rfl, by decide, rfl, rfl⟩
  have leaves : Index.roundabout.graph.Passes .zeroDelay 2 3 :=
    ⟨⟨2, 3, .connection ⟨1⟩ none⟩, by decide, rfl, by decide, rfl, rfl⟩
  have returns : Index.roundabout.graph.Passes .all 3 0 :=
    ⟨⟨3, 0, .connection ⟨3⟩ (some (.delay .zero))⟩, by decide, rfl, by decide, rfl, rfl⟩
  have reached : ⟨3⟩ ∈ Index.roundabout.dependents .zeroDelay ⟨0⟩ :=
    (ahead.exactly ⟨3⟩).mpr
      ⟨by decide, 3, 0, 3, rfl, rfl, ((LeadsIn.single enters).tail crosses).tail leaves⟩
  refine ⟨accepted, reached, (converse ⟨3⟩ (by decide)).mp reached, ?_, ?_, ends⟩
  · exact (around.exactly ⟨0⟩).mpr ⟨by decide, 1, 3, 0, rfl, rfl, .single returns⟩
  · exact fun listed => ((around.exactly ⟨3⟩).mp listed).1 rfl

end ReactorCausality
