import ReactorCausality.Cycle
import ReactorCausality.Proofs.Graph.Contents
import ReactorCausality.Proofs.Search.AllComponents

/-!
The report about cycles is exact. What is reported are the strongly connected components of the
zero-delay view with a cycle inside, each once, and for each of them a shortest cycle through its
smallest node.
-/
namespace ReactorCausality

open Relation

namespace Cycle

def nodes (cycle : Cycle) : List Nat :=
  cycle.members.map CycleMember.node

end Cycle

namespace DependencyGraph

/-- The nodes of a strongly connected component with a cycle inside, in ascending order. -/
structure IsCyclicComponent (graph : DependencyGraph) (members : List Nat) : Prop where
  ascending : members.Pairwise (· < ·)
  exactly : ∀ node ∈ members, ∀ other, other ∈ members ↔ Linked graph.Step node other
  cyclic : ∃ node ∈ members, graph.Reaches node node

variable {graph : DependencyGraph}

/-- A closed zero-delay walk inside the members, as short as any through its start, on which no node
but the start is met twice. -/
structure IsShortestCycle (graph : DependencyGraph) (members : List Nat) (start : Nat)
    (path : List Nat) : Prop where
  closed : ClosedWalk.IsClosed graph.Step start path
  inside : ∀ node ∈ path, node ∈ members
  distinct : path.tail.Nodup
  shortest : ∀ first walk, ClosedWalk.IsClosed graph.Step first walk → start ∈ walk →
    path.length ≤ walk.length

theorem IsCyclicComponent.isClosed_iff {members : List Nat}
    (component : graph.IsCyclicComponent members) {start : Nat} (member : start ∈ members)
    {walk : List Nat} :
    ClosedWalk.IsClosed (BreadthFirst.Leads graph.successors members) start walk ↔
      ClosedWalk.IsClosed graph.Step start walk := by
  constructor
  · rintro ⟨steps, returns⟩
    exact ⟨steps.imp fun _ _ leads => mem_successors_iff.mp leads.1, returns⟩
  · intro closed
    refine ⟨closed.steps.imp_of_mem_imp fun source target _ passes step => ?_, closed.returns⟩
    exact ⟨mem_successors_iff.mpr step,
      (component.exactly start member target).mpr (closed.linked target passes)⟩

theorem IsCyclicComponent.isShortestCycle {members : List Nat}
    (component : graph.IsCyclicComponent members) : ∃ smallest,
      members.head? = some smallest ∧ graph.IsShortestCycle members smallest
        (Cycle.ofComponent graph graph.successors members).path := by
  obtain ⟨node, member, cyclic⟩ := component.cyclic
  obtain ⟨smallest, rest, members_eq⟩ := List.exists_cons_of_ne_nil (List.ne_nil_of_mem member)
  have isFirst : smallest ∈ members := members_eq ▸ List.mem_cons_self
  have path_eq : (Cycle.ofComponent graph graph.successors members).path =
      ClosedWalk.shortest graph.successors members smallest := by
    simp [Cycle.ofComponent, members_eq]
  obtain ⟨there, back⟩ := (component.exactly smallest isFirst node).mp member
  obtain ⟨walk, closed⟩ :=
    ClosedWalk.exists_isClosed (TransGen.trans_right there (cyclic.trans_left back))
  obtain ⟨found, distinct, -⟩ :=
    ClosedWalk.shortest_of_isClosed ((component.isClosed_iff isFirst).mpr closed)
  have isClosed := (component.isClosed_iff isFirst).mp found
  rw [path_eq]
  refine ⟨smallest, by simp [members_eq], isClosed, fun node passes => ?_, distinct, ?_⟩
  · exact (component.exactly smallest isFirst node).mpr (isClosed.linked node passes)
  · intro first walk closed passes
    obtain ⟨other, rotated, length⟩ := closed.rotate passes
    rw [← length]
    exact (ClosedWalk.shortest_of_isClosed ((component.isClosed_iff isFirst).mpr rotated)).2.2

namespace WellFormed

variable (wellFormed : graph.WellFormed)
include wellFormed

theorem leads_eq_step :
    BreadthFirst.Leads graph.successors (List.range graph.nodes.length) = graph.Step := by
  funext source target
  simp only [BreadthFirst.Leads, mem_successors_iff, List.mem_range, eq_iff_iff, and_iff_left_iff_imp]
  exact wellFormed.step_target_lt

theorem isCyclicComponent_iff {members : List Nat} : graph.IsCyclicComponent members ↔
    Component.IsComponent graph.nodes.length graph.successors members ∧
      Component.isCyclic graph.successors members := by
  -- what is linked to a node on a cycle is the target of an edge
  have below {node other : Nat} (cyclic : graph.Reaches node node)
      (linked : Linked graph.Step node other) : other < graph.nodes.length :=
    wellFormed.reaches_target_lt (cyclic.trans_left linked.1)
  constructor
  · rintro ⟨ascending, exactly, node, member, cyclic⟩
    have component : Component.IsComponent graph.nodes.length graph.successors members := by
      refine ⟨ascending, List.ne_nil_of_mem member, fun first isFirst other => ?_⟩
      rw [exactly first isFirst, wellFormed.leads_eq_step]
      refine (and_iff_right_of_imp fun linked => ?_).symm
      exact below cyclic (((exactly node member first).mp isFirst).trans linked)
    refine ⟨component, component.isCyclic_iff.mpr ⟨node, member, ?_⟩⟩
    rwa [wellFormed.leads_eq_step]
  · rintro ⟨component, cyclic⟩
    obtain ⟨node, member, reaches⟩ := component.isCyclic_iff.mp cyclic
    obtain ⟨ascending, -, exactly⟩ := component
    rw [wellFormed.leads_eq_step] at reaches exactly
    refine ⟨ascending, fun first isFirst other => ?_, node, member, reaches⟩
    rw [exactly first isFirst, and_iff_right_iff_imp]
    exact fun linked => below reaches (((exactly node member first).mp isFirst).2.trans linked)

theorem mem_cyclicComponents_iff {members : List Nat} :
    members ∈ graph.cyclicComponents ↔ graph.IsCyclicComponent members := by
  rw [cyclicComponents, List.mem_mergeSort, List.mem_filter, Component.mem_all_iff,
    wellFormed.isCyclicComponent_iff]

/-- They are listed by their smallest nodes, each once, and have no node in common. -/
theorem pairwise_cyclicComponents : graph.cyclicComponents.Pairwise fun left right =>
    left.Disjoint right ∧ left.headD 0 < right.headD 0 := by
  have sorted : graph.cyclicComponents.Pairwise fun left right =>
      decide (left.headD 0 ≤ right.headD 0) = true :=
    List.pairwise_mergeSort (fun _ _ _ => by simpa using Nat.le_trans)
      (fun left right => by simpa using Nat.le_total _ _) _
  have disjoint : graph.cyclicComponents.Pairwise List.Disjoint :=
    ((Component.pairwise_disjoint_all _ _).filter _).perm (List.mergeSort_perm _ _).symm
      fun shared _ left right => shared right left
  refine (sorted.and disjoint).imp_of_mem fun {left right} isLeft isRight ⟨ordered, disjoint⟩ => ?_
  refine ⟨disjoint, Nat.lt_of_le_of_ne (by simpa using ordered) fun same => ?_⟩
  obtain ⟨-, -, _, isMember, -⟩ := wellFormed.mem_cyclicComponents_iff.mp isLeft
  obtain ⟨-, -, _, isMemberToo, -⟩ := wellFormed.mem_cyclicComponents_iff.mp isRight
  obtain ⟨first, rest, rfl⟩ := List.exists_cons_of_ne_nil (List.ne_nil_of_mem isMember)
  obtain ⟨other, others, rfl⟩ := List.exists_cons_of_ne_nil (List.ne_nil_of_mem isMemberToo)
  rw [List.headD_cons, List.headD_cons] at same
  exact disjoint List.mem_cons_self (same ▸ List.mem_cons_self)

theorem nodes_ofComponent {members : List Nat} (component : graph.IsCyclicComponent members) :
    (Cycle.ofComponent graph graph.successors members).nodes = members := by
  have below := ((wellFormed.isCyclicComponent_iff.mp component).1.exactly)
  have each : ∀ node ∈ members, ((graph.nodes[node]?).map fun found =>
      (⟨node, .ofNode found.kind, found.name⟩ : CycleMember)).map CycleMember.node = some node := by
    intro node member
    have less : node < graph.nodes.length := ((below node member node).mp member).1
    simp [less]
  rw [Cycle.nodes, Cycle.ofComponent, List.map_filterMap]
  exact (List.filterMap_congr each).trans List.filterMap_some

theorem map_nodes_cycles :
    graph.cycles.cycles.map Cycle.nodes = graph.cyclicComponents := by
  rw [cycles, List.map_map]
  refine (List.map_congr_left fun members member => ?_).trans (List.map_id _)
  exact wellFormed.nodes_ofComponent (wellFormed.mem_cyclicComponents_iff.mp member)

theorem isAcyclic_cycles_iff : graph.cycles.isAcyclic ↔ graph.Acyclic := by
  have none_iff : graph.cycles.isAcyclic ↔ ∀ members, ¬ graph.IsCyclicComponent members := by
    rw [CycleReport.isAcyclic, cycles, List.isEmpty_iff, List.map_eq_nil_iff,
      List.eq_nil_iff_forall_not_mem]
    exact forall_congr' fun _ => not_congr wellFormed.mem_cyclicComponents_iff
  rw [none_iff]
  constructor
  · intro none node reaches
    have less := wellFormed.reaches_target_lt reaches
    obtain ⟨members, component, member⟩ := Component.exists_isComponent less
    refine none members (wellFormed.isCyclicComponent_iff.mpr ⟨component, ?_⟩)
    exact component.isCyclic_iff.mpr ⟨node, member, wellFormed.leads_eq_step ▸ reaches⟩
  · intro acyclic members component
    obtain ⟨node, -, cyclic⟩ := component.cyclic
    exact acyclic node cyclic

/-- Every reported cycle has at least two nodes, since no edge leads back to where it begins. -/
theorem one_lt_length {members : List Nat} (component : graph.IsCyclicComponent members) :
    1 < members.length := by
  obtain ⟨node, member, cyclic⟩ := component.cyclic
  obtain ⟨other, step, back⟩ := TransGen.head'_iff.mp cyclic
  have differ : node ≠ other := fun same => wellFormed.not_step_self (same ▸ step)
  have isMember : other ∈ members := (component.exactly node member other).mpr ⟨.single step, back⟩
  match members with
  | [only] => exact absurd ((List.mem_singleton.mp member).trans
      (List.mem_singleton.mp isMember).symm) differ
  | _ :: _ :: _ => simp

end WellFormed

end DependencyGraph

/-- A report says everything about the cycles of a graph, and says it once. -/
structure CycleReport.Exact (graph : DependencyGraph) (report : CycleReport) : Prop where
  acyclic : report.isAcyclic ↔ graph.Acyclic
  components : ∀ members, members ∈ report.cycles.map Cycle.nodes ↔ graph.IsCyclicComponent members
  distinct : (report.cycles.map Cycle.nodes).Nodup
  disjoint : (report.cycles.map Cycle.nodes).Pairwise List.Disjoint
  sorted : (report.cycles.map Cycle.nodes).Pairwise fun left right => left.headD 0 < right.headD 0
  several : ∀ cycle ∈ report.cycles, 2 ≤ cycle.members.length
  shortest : ∀ cycle ∈ report.cycles, ∃ smallest, cycle.nodes.head? = some smallest ∧
    graph.IsShortestCycle cycle.nodes smallest cycle.path

/-- The report about the cycles of an accepted program is exact. -/
theorem exact_cycles {program : Program} {index : Index}
    (accepted : Index.build program = .ok index) : index.graph.cycles.Exact index.graph := by
  have wellFormed := ((Index.build_eq_ok_iff program index).mp accepted).graph_wellFormed
  have components (cycle : Cycle) (reported : cycle ∈ index.graph.cycles.cycles) :
      index.graph.IsCyclicComponent cycle.nodes ∧
        cycle = Cycle.ofComponent index.graph index.graph.successors cycle.nodes := by
    obtain ⟨members, member, rfl⟩ := List.mem_map.mp reported
    have component := wellFormed.mem_cyclicComponents_iff.mp member
    rw [wellFormed.nodes_ofComponent component]
    exact ⟨component, rfl⟩
  have pairwise := wellFormed.pairwise_cyclicComponents
  rw [← wellFormed.map_nodes_cycles] at pairwise
  constructor
  · exact wellFormed.isAcyclic_cycles_iff
  · intro members
    rw [wellFormed.map_nodes_cycles, wellFormed.mem_cyclicComponents_iff]
  · refine pairwise.imp ?_
    rintro left _ ⟨-, less⟩ rfl
    exact Nat.lt_irrefl _ less
  · exact pairwise.imp And.left
  · exact pairwise.imp And.right
  · intro cycle reported
    have several := wellFormed.one_lt_length (components cycle reported).1
    rwa [Cycle.nodes, List.length_map] at several
  · intro cycle reported
    obtain ⟨component, cycle_eq⟩ := components cycle reported
    have shortest := component.isShortestCycle
    rwa [← cycle_eq] at shortest

/-- A reactor that hands on from its input to its output what it gets. -/
def Reactor.relay (id : ReactorId) (name : String) (input output : PortId)
    (reaction : ReactionId) : Reactor :=
  { id, name
    ports := [⟨input, "in", .input⟩, ⟨output, "out", .output⟩]
    reactions := [
      { id := reaction, index := 0, triggers := [.port input], effects := [.port output] }] }

/-- Two relays that feed each other. -/
def Program.relayRing : Program where
  main :=
    { id := ⟨0⟩, name := "main"
      children := [.relay ⟨1⟩ "left" ⟨0⟩ ⟨1⟩ ⟨0⟩, .relay ⟨2⟩ "right" ⟨2⟩ ⟨3⟩ ⟨1⟩]
      connections := [
        { id := ⟨0⟩, source := ⟨1⟩, target := ⟨2⟩ }, { id := ⟨1⟩, source := ⟨3⟩, target := ⟨0⟩ }] }

theorem exact_cycles_relayRing : ∃ index, Index.build Program.relayRing = .ok index ∧
    index.graph.cycles.Exact index.graph := by
  have accepted : Index.build Program.relayRing = .ok _ := rfl
  exact ⟨_, accepted, exact_cycles accepted⟩

end ReactorCausality
