import ReactorCausality.Proofs.Cycle
import ReactorCausality.Proofs.Graph.Exactness
import ReactorCausality.Proofs.Graph.View
import ReactorCausality.Proofs.Index.Tree
import ReactorCausality.Proofs.Revision

/-!
Retiming programs. A retiming touches only connections that carry nothing at the same tag: some are
dropped, and delays that are declared may become other delays. A retimed program is accepted if the
program is, the nodes of its graph stand where they stood, and its zero-delay view is the same; so are the
cycles and the priorities (`retiming_keeps_causality`).
-/
namespace ReactorCausality

/-- What becomes of the delay of every connection. An accepted program has no two connections with one
id, so each of its connections is treated on its own. -/
structure Retiming where
  /-- The delay of a connection, if the connection stays. -/
  delay : Connection → Option (Option TimeValue)
  keeps : ∀ {connection}, connection.isZeroDelay → (delay connection).isSome
  /-- A connection that stays gets another delay at most, and only if it has one. -/
  changes : ∀ {connection later}, delay connection = some later →
    later.isSome = connection.delay.isSome

/-- A retiming leaves the offsets as they are. -/
def Retiming.revision (τ : Retiming) : Revision where
  delay := τ.delay

variable (τ : Retiming)

def Program.retime (program : Program) : Program :=
  program.revise τ.revision

def Index.retime (index : Index) : Index :=
  index.revise τ.revision

/-! ### What a retiming leaves alone -/

theorem Reaction.revise_revision (reaction : Reaction) : reaction.revise τ.revision = reaction :=
  rfl

theorem Reactor.reactions_retime (reactor : Reactor) :
    (reactor.revise τ.revision).reactions = reactor.reactions := by
  rw [reactions_revise, funext (Reaction.revise_revision τ), List.map_id']

theorem Reactor.mentions_retime (reactor : Reactor) :
    (reactor.revise τ.revision).mentions = reactor.mentions := by
  rw [mentions, mentions, reactions_retime, ports_revise]

namespace Connection

variable {τ} {connection retimed : Connection}

theorem isZeroDelay_retimed (kept : connection.revise? τ.revision = some retimed) :
    retimed.isZeroDelay = connection.isZeroDelay := by
  obtain ⟨delay, stays, rfl⟩ := (revise?_eq_some_iff τ.revision).mp kept
  have none_iff : delay = none ↔ connection.delay = none := by
    rw [← Option.isNone_iff_eq_none, ← Option.isNone_iff_eq_none, ← Option.not_isSome,
      τ.changes stays, Option.not_isSome]
  rw [Bool.eq_iff_iff, isZeroDelay_iff, isZeroDelay_iff, none_iff]

/-- A connection without a delay has none to change. -/
theorem revise?_of_isZeroDelay (zeroDelay : connection.isZeroDelay) :
    connection.revise? τ.revision = some connection := by
  obtain ⟨delay, stays⟩ := Option.isSome_iff_exists.mp (τ.keeps zeroDelay)
  have before := (isZeroDelay_iff.mp zeroDelay).2
  have after : delay = none := by
    rw [← Option.not_isSome_iff_eq_none, τ.changes stays, before]
    exact Bool.false_ne_true
  exact (revise?_eq_some_iff τ.revision).mpr ⟨delay, stays, by rw [after, ← before]⟩

end Connection

/-! ### The graph of a retimed program -/

namespace Index

variable (index : Index)

theorem nodeKinds_retime : (index.retime τ).nodeKinds = index.nodeKinds := by
  simp only [nodeKinds, retime, revise, List.flatMap_map, ReactorEntry.reactor_revise,
    Reactor.mentions_retime]

theorem edgeOf_retime : (index.retime τ).edgeOf = index.edgeOf := by
  funext dependency
  simp only [edgeOf, position, nodeKinds_retime]

theorem node?_retime : (index.retime τ).node? = index.node? := by
  funext kind
  cases kind with
  | reaction id =>
    rw [node?, node?, retime, reaction?_revise, Option.map_map]
    rfl
  | port id => rfl

theorem nodes_graph_retime : (index.retime τ).graph.nodes = index.graph.nodes := by
  rw [graph, graph, nodeKinds_retime, node?_retime]

/-- Of the connections, the zero-delay ones stay as they are, and no other becomes one. -/
theorem zeroDelayConnections_retime :
    ((index.retime τ).connections.map ConnectionEntry.connection).filter Connection.isZeroDelay =
      (index.connections.map ConnectionEntry.connection).filter Connection.isZeroDelay := by
  rw [retime, revise]
  induction index.connections with
  | nil => rfl
  | cons entry rest ih =>
    cases zeroDelay : entry.connection.isZeroDelay with
    | true =>
      simpa [ConnectionEntry.revise?, Connection.revise?_of_isZeroDelay zeroDelay, zeroDelay] using ih
    | false =>
      cases kept : entry.connection.revise? τ.revision with
      | none => simpa [ConnectionEntry.revise?, kept, zeroDelay] using ih
      | some retimed =>
        simpa [ConnectionEntry.revise?, kept, Connection.isZeroDelay_retimed kept, zeroDelay] using ih

theorem zeroDelayEdges_graph : index.graph.zeroDelayEdges =
    ((index.reactors.flatMap fun entry => Reaction.dependencies none entry.reactor.reactions).map
      index.edgeOf).filter Edge.isZeroDelay ++
    ((index.connections.map ConnectionEntry.connection).filter Connection.isZeroDelay).map
      fun connection => index.edgeOf connection.dependency := by
  have carried : (index.connections.map fun entry => entry.connection.dependency).map index.edgeOf =
      (index.connections.map ConnectionEntry.connection).map fun connection =>
        index.edgeOf connection.dependency := by
    rw [List.map_map, List.map_map]
    rfl
  have zeroDelay : (Edge.isZeroDelay ∘ fun connection => index.edgeOf (Connection.dependency connection)) =
      Connection.isZeroDelay :=
    funext isZeroDelay_edgeOf_connection
  rw [DependencyGraph.zeroDelayEdges, edges_graph, dependencyList, List.map_append,
    List.filter_append, carried]
  congr 1
  rw [List.filter_map, zeroDelay]

theorem zeroDelayView_graph_retime :
    (index.retime τ).graph.zeroDelayView = index.graph.zeroDelayView := by
  have reactors : ((index.retime τ).reactors.flatMap fun entry =>
      Reaction.dependencies none entry.reactor.reactions) =
        index.reactors.flatMap fun entry => Reaction.dependencies none entry.reactor.reactions := by
    simp only [retime, revise, List.flatMap_map, ReactorEntry.reactor_revise,
      Reactor.reactions_retime]
  rw [DependencyGraph.zeroDelayView, DependencyGraph.zeroDelayView, zeroDelayEdges_graph,
    zeroDelayEdges_graph, reactors, zeroDelayConnections_retime, edgeOf_retime]
  exact congrArg (DependencyGraph.mk · _) (index.nodes_graph_retime τ)

end Index

/-- Connections that carry nothing at the same tag have no part in causality. An accepted program can do
without any of them, and their delays can be any other: it is still accepted, its graph has the same
cycles, and its reactions get the same priorities or fail to get any for the same reason. -/
theorem retiming_keeps_causality {program : Program} {index : Index}
    (accepted : Index.build program = .ok index) (τ : Retiming) :
    ∃ retimed before after, Index.build (program.retime τ) = .ok retimed ∧
      GraphBuilder.build index = .ok before ∧ GraphBuilder.build retimed = .ok after ∧
      after.graph.cycles = before.graph.cycles ∧ after.graph.priorities = before.graph.priorities := by
  have described := (Index.build_eq_ok_iff program index).mp accepted
  have describedToo : (index.retime τ).Describes (program.retime τ) := described.revise τ.revision
  obtain ⟨before, built, isGraph, -⟩ := described.exists_build
  obtain ⟨after, builtToo, isGraphToo, -⟩ := describedToo.exists_build
  have view : after.graph.zeroDelayView = before.graph.zeroDelayView := by
    rw [isGraph, isGraphToo, index.zeroDelayView_graph_retime τ]
  exact ⟨_, before, after, (Index.build_eq_ok_iff _ _).mpr describedToo, built, builtToo,
    DependencyGraph.cycles_eq_of_view view, DependencyGraph.priorities_eq_of_view view⟩

/-- Physical connections are dropped, and every delay becomes a microstep. -/
def Retiming.hurried : Retiming where
  delay connection :=
    if connection.isPhysical then none else some (connection.delay.map fun _ => .zero)
  keeps zeroDelay := by
    rw [if_neg (Connection.isZeroDelay_iff.mp zeroDelay).1, Option.isSome_some]
  changes kept := by
    split at kept
    · contradiction
    · rw [← Option.some.inj kept, Option.isSome_map]

/-- A controller that answers its plant, later and over a physical line as well. -/
def Program.feedback : Program where
  main :=
    { id := ⟨0⟩, name := "main"
      children := [.relay ⟨1⟩ "controller" ⟨0⟩ ⟨1⟩ ⟨0⟩, .relay ⟨2⟩ "plant" ⟨2⟩ ⟨3⟩ ⟨1⟩]
      connections := [
        { id := ⟨0⟩, source := ⟨1⟩, target := ⟨2⟩, isPhysical := true },
        { id := ⟨1⟩, source := ⟨3⟩, target := ⟨0⟩ },
        { id := ⟨2⟩, source := ⟨1⟩, target := ⟨2⟩, delay := some ⟨5000000⟩ }] }

theorem retiming_keeps_causality_feedback : ∃ index retimed before after,
    Index.build Program.feedback = .ok index ∧
      Index.build (Program.feedback.retime .hurried) = .ok retimed ∧
      GraphBuilder.build index = .ok before ∧ GraphBuilder.build retimed = .ok after ∧
      after.graph.edges ≠ before.graph.edges ∧ after.graph.cycles = ⟨[]⟩ ∧
      after.graph.priorities =
        .ok ⟨[⟨⟨1⟩, ⟨0, 0⟩⟩, ⟨⟨0⟩, ⟨1, 1⟩⟩], [4, 3, 5, 1, 0, 2]⟩ := by
  have accepted : Index.build Program.feedback = .ok (Index.survey .feedback).index := rfl
  have wellFormed := ((Index.build_eq_ok_iff _ _).mp accepted).graph_wellFormed
  obtain ⟨retimed, before, after, acceptedToo, built, builtToo, cycles, priorities⟩ :=
    retiming_keeps_causality accepted .hurried
  cases built
  refine ⟨_, retimed, _, after, accepted, acceptedToo, rfl, builtToo, ?_, ?_, ?_⟩
  · cases acceptedToo
    cases builtToo
    decide
  · have acyclic : (Index.survey .feedback).index.graph.Acyclic :=
      DependencyGraph.acyclic_of_edges_lt [4, 3, 5, 1, 0, 2].idxOf (by decide)
    have none := wellFormed.isAcyclic_cycles_iff.mpr acyclic
    rw [cycles]
    exact congrArg CycleReport.mk (List.isEmpty_iff.mp none)
  · rw [priorities]
    rfl

end ReactorCausality
