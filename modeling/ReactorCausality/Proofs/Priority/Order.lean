import Mathlib.Data.List.Lex
import ReactorCausality.Proofs.Graph.View
import ReactorCausality.Proofs.Priority.Table

/-!
The order of the nodes. Every node is the smallest of those that may stand in its place, so of all
orders in which the zero-delay edges lead forward, none is lexicographically smaller
(`InTurn.le_of_isTopological`). It does not matter how often, with which ids and in which order the
edges are listed: graphs that join the same nodes have the same priorities
(`priorities_eq_of_step_iff`).
-/
namespace ReactorCausality

namespace DependencyGraph

/-- An order of all nodes in which every zero-delay edge leads forward. -/
structure IsTopological (graph : DependencyGraph) (order : List Nat) : Prop where
  placed : order.Perm (List.range graph.nodes.length)
  forward : ∀ source target, graph.Step source target →
    order.idxOf source < order.idxOf target

/-- A node that may be placed when some have been placed. -/
structure IsFree (graph : DependencyGraph) (placed : List Nat) (node : Nat) : Prop where
  less : node < graph.nodes.length
  isNew : node ∉ placed
  closed : ∀ source, graph.Step source node → source ∈ placed

variable {graph : DependencyGraph} {order placed : List Nat} {node : Nat}

theorem mem_available_iff_isFree : node ∈ graph.available placed ↔ graph.IsFree placed node := by
  rw [mem_available_iff]
  constructor
  · rintro ⟨less, isNew, closed⟩
    exact ⟨less, isNew, fun source step => closed source (mem_predecessors_iff.mpr step)⟩
  · rintro ⟨less, isNew, closed⟩
    exact ⟨less, isNew, fun source member => closed source (mem_predecessors_iff.mp member)⟩

theorem pairwise_available (graph : DependencyGraph) (placed : List Nat) :
    (graph.available placed).Pairwise (· < ·) :=
  List.pairwise_lt_range.filter _

/-- The first of the nodes that may be placed is the smallest of them. -/
theorem isFree_of_head?_eq_some (isFirst : (graph.available placed).head? = some node) :
    graph.IsFree placed node ∧ ∀ other, graph.IsFree placed other → node ≤ other := by
  obtain ⟨rest, available_eq⟩ := List.head?_eq_some_iff.mp isFirst
  have ascending := graph.pairwise_available placed
  rw [available_eq] at ascending
  refine ⟨mem_available_iff_isFree.mp (available_eq ▸ List.mem_cons_self), fun other isFree => ?_⟩
  have isOther := mem_available_iff_isFree.mpr isFree
  rw [available_eq] at isOther
  rcases List.mem_cons.mp isOther with rfl | isLater
  · exact Nat.le_refl _
  · exact (List.rel_of_pairwise_cons ascending isLater).le

/-- In an order in which every edge leads forward, no node comes too early. -/
theorem IsTopological.isFree (topological : graph.IsTopological order) {before after : List Nat}
    (order_eq : order = before ++ node :: after) : graph.IsFree before node := by
  have nodup : order.Nodup := topological.placed.nodup_iff.mpr List.nodup_range
  have isNew : node ∉ before := by
    rw [order_eq] at nodup
    exact fun isBefore => (List.nodup_append.mp nodup).2.2 node isBefore node List.mem_cons_self rfl
  refine ⟨?_, isNew, fun source step => ?_⟩
  · exact List.mem_range.mp (topological.placed.mem_iff.mp (by simp [order_eq]))
  · have forward := topological.forward source node step
    rw [order_eq, List.idxOf_append_of_notMem isNew, List.idxOf_cons_self, Nat.add_zero] at forward
    by_contra isAfter
    rw [List.idxOf_append_of_notMem isAfter] at forward
    exact Nat.not_lt_of_le (Nat.le_add_right _ _) forward

/-- Up to where two orders differ the same nodes are placed, and there the one takes the smallest. -/
theorem append_le_append (before : List Nat) {first second : List Nat}
    (least : ∀ done node after, before ++ first = done ++ node :: after →
      (graph.available done).head? = some node)
    (free : ∀ done node after, before ++ second = done ++ node :: after → graph.IsFree done node)
    (same : first.length = second.length) : first ≤ second := by
  induction first generalizing before second with
  | nil => exact (List.length_eq_zero_iff.mp same.symm).symm.le
  | cons node rest ih =>
    cases second with
    | nil => simp at same
    | cons other others =>
      have node_le : node ≤ other :=
        (isFree_of_head?_eq_some (least before node rest rfl)).2 other (free before other others rfl)
      rcases Nat.lt_or_eq_of_le node_le with less | rfl
      · exact le_of_lt (List.Lex.rel less)
      · refine List.cons_le_cons node (ih (before ++ [node]) ?_ ?_ ?_)
        · simpa using least
        · simpa using free
        · simpa using same

theorem InTurn.le_of_isTopological (inTurn : graph.InTurn order)
    (perm : order.Perm (List.range graph.nodes.length)) {other : List Nat}
    (topological : graph.IsTopological other) : order ≤ other :=
  append_le_append [] inTurn (fun _ _ _ other_eq => topological.isFree other_eq)
    (perm.trans topological.placed.symm).length_eq

end DependencyGraph

/-! ### Graphs that join the same nodes -/

open DependencyGraph

section SameSteps

variable {left right : DependencyGraph} (nodes : right.nodes = left.nodes)
  (steps : ∀ source target, right.Step source target ↔ left.Step source target)
include nodes

theorem DependencyGraph.reactionAt?_eq_of_nodes : right.reactionAt? = left.reactionAt? := by
  unfold reactionAt?
  rw [nodes]

theorem DependencyGraph.weight_eq_of_nodes : right.weight = left.weight := by
  unfold weight
  rw [reactionAt?_eq_of_nodes nodes]

include steps

theorem DependencyGraph.available_eq_of_step_iff : right.available = left.available := by
  funext placed
  refine (right.pairwise_available placed).eq_of_mem_iff (left.pairwise_available placed)
    fun node => ?_
  rw [mem_available_iff_isFree, mem_available_iff_isFree]
  constructor
  · rintro ⟨less, isNew, closed⟩
    exact ⟨nodes ▸ less, isNew, fun source step => closed source ((steps source node).mpr step)⟩
  · rintro ⟨less, isNew, closed⟩
    exact ⟨nodes ▸ less, isNew, fun source step => closed source ((steps source node).mp step)⟩

namespace Placement

/-- Two placements that differ at most in how many edges their nodes wait for. -/
structure Alike (left right : Placement) : Prop where
  order : right.order = left.order
  entries : right.entries = left.entries
  ready : right.ready = left.ready
  level : ∀ node, right.level node = left.level node

theorem alike_start (leftFormed : left.WellFormed) (rightFormed : right.WellFormed) :
    Alike (start left) (start right) where
  order := rfl
  entries := rfl
  ready := by
    rw [(invariant_start leftFormed).ready, (invariant_start rightFormed).ready,
      available_eq_of_step_iff nodes steps]
    rfl
  level node := by
    simp only [level, start, nodes]

variable {before after : Placement} (leftFormed : left.WellFormed) (rightFormed : right.WellFormed)
include leftFormed rightFormed

/-- Where the same node is placed, it releases the same nodes at the same level. -/
theorem Alike.place (alike : Alike before after) (inv : Invariant left before)
    (invToo : Invariant right after) {node : Nat} {ready : List Nat}
    (isReady : before.ready = node :: ready) :
    Alike (before.place left node ready) (after.place right node ready) := by
  have isReadyToo : after.ready = node :: ready := alike.ready.trans isReady
  have released := inv.released_place isReady leftFormed
  have releasedToo := invToo.released_place isReadyToo rightFormed
  have order_eq : (after.place right node ready).order = (before.place left node ready).order := by
    rw [inv.order_place isReady leftFormed, invToo.order_place isReadyToo rightFormed, alike.order]
  constructor
  · exact order_eq
  · rw [released.entries, releasedToo.entries, entries_enter, entries_enter, alike.entries,
      alike.level, reactionAt?_eq_of_nodes nodes]
  · rw [inv.ready_place isReady leftFormed, invToo.ready_place isReadyToo rightFormed,
      available_eq_of_step_iff nodes steps, alike.order]
  · intro other
    have follows : other ∈ right.successors node ↔ other ∈ left.successors node := by
      rw [mem_successors_iff, mem_successors_iff, steps]
    have before_eq : (before.enter left node ready).level other = before.level other := rfl
    have after_eq : (after.enter right node ready).level other = after.level other := rfl
    rw [released.level, releasedToo.level, before_eq, after_eq, alike.level, alike.level,
      weight_eq_of_nodes nodes]
    exact if_congr follows rfl rfl

theorem Alike.run (rounds : Nat) (alike : Alike before after) (inv : Invariant left before)
    (invToo : Invariant right after) : Alike (run left rounds before) (run right rounds after) := by
  induction rounds generalizing before after with
  | zero => exact alike
  | succ rounds ih =>
    rw [Placement.run, Placement.run, alike.ready]
    cases isReady : before.ready with
    | nil => exact alike
    | cons node ready =>
      have isReadyToo : after.ready = node :: ready := alike.ready.trans isReady
      exact ih (alike.place nodes steps leftFormed rightFormed inv invToo isReady)
        (inv.advance isReady leftFormed) (invToo.advance isReadyToo rightFormed)

end Placement

namespace DependencyGraph

omit nodes steps in
theorem step_zeroDelayView_iff {graph : DependencyGraph} {source target : Nat} :
    graph.zeroDelayView.Step source target ↔ graph.Step source target := by
  simp [Step, zeroDelayView, zeroDelayEdges, and_assoc]

variable (wellFormed : left.WellFormed)
include wellFormed

/-- What is asked of broken edges does not matter in the zero-delay view. -/
theorem wellFormed_zeroDelayView : right.zeroDelayView.WellFormed := by
  have step {edge : Edge} (member : edge ∈ right.zeroDelayView.edges) :
      left.Step edge.source edge.target := by
    obtain ⟨listed, zeroDelay⟩ := List.mem_filter.mp member
    exact (steps _ _).mp ⟨edge, listed, zeroDelay, rfl, rfl⟩
  constructor
  · exact nodes_zeroDelayView right ▸ nodes ▸ wellFormed.distinct
  · exact fun edge member => nodes ▸ wellFormed.step_source_lt (step member)
  · exact fun edge member => nodes ▸ wellFormed.step_target_lt (step member)
  · exact fun edge member same => wellFormed.not_step_self (same ▸ step member)

theorem priorities_eq_of_step_iff : right.priorities = left.priorities := by
  have rightFormed := wellFormed_zeroDelayView nodes steps wellFormed
  have stepsToo (source target : Nat) :
      right.zeroDelayView.Step source target ↔ left.Step source target :=
    step_zeroDelayView_iff.trans (steps source target)
  have alike : Placement.Alike left.placement right.zeroDelayView.placement := by
    have nodesToo : right.zeroDelayView.nodes = left.nodes := nodes
    have started := Placement.alike_start nodesToo stepsToo wellFormed rightFormed
    rw [placement, placement, nodesToo]
    exact started.run nodesToo stepsToo wellFormed rightFormed _
      (Placement.invariant_start wellFormed) (Placement.invariant_start rightFormed)
  rw [← right.priorities_zeroDelayView, priorities_eq, priorities_eq, alike.order, alike.entries,
    nodes_zeroDelayView, nodes]

end DependencyGraph

end SameSteps

/-- An acyclic graph has priorities; the graphs of programs are all well formed
(`Index.Describes.graph_wellFormed`). Their order of the nodes is the lexicographically smallest in which
all zero-delay edges lead forward, since every node is the smallest of those that are free when the nodes
before it are placed. Any graph that has the same nodes and joins the same of them without a delay has
the same priorities. -/
theorem least_order_of_acyclic {graph : DependencyGraph} (wellFormed : graph.WellFormed)
    (acyclic : graph.Acyclic) : ∃ table, graph.priorities = .ok table ∧
      graph.IsTopological table.nodeOrder ∧
      (∀ before node after, table.nodeOrder = before ++ node :: after →
        graph.IsFree before node ∧ ∀ other, graph.IsFree before other → node ≤ other) ∧
      (∀ order, graph.IsTopological order → table.nodeOrder ≤ order) ∧
      ∀ other : DependencyGraph, other.nodes = graph.nodes →
        (∀ source target, other.Step source target ↔ graph.Step source target) →
          other.priorities = .ok table := by
  obtain ⟨table, assigned⟩ := wellFormed.exists_priorities_iff.mpr acyclic
  have belongs := wellFormed.belongsTo_of_priorities assigned
  refine ⟨table, assigned, ⟨belongs.placed, belongs.forward⟩, ?_, ?_, ?_⟩
  · exact fun before node after order_eq => isFree_of_head?_eq_some
      (belongs.turns before node after order_eq)
  · exact fun order topological => belongs.turns.le_of_isTopological belongs.placed topological
  · exact fun other nodes steps => (priorities_eq_of_step_iff nodes steps wellFormed).trans assigned

namespace DependencyGraph

/-- A reaction writes a port, from which a connection leads to a port that triggers another reaction. -/
def lane : DependencyGraph where
  nodes := [⟨.reaction ⟨0⟩, ⟨1⟩, "sender.reaction_0"⟩, ⟨.port ⟨0⟩, ⟨1⟩, "sender.out"⟩,
    ⟨.reaction ⟨1⟩, ⟨2⟩, "receiver.reaction_0"⟩, ⟨.port ⟨1⟩, ⟨2⟩, "receiver.in"⟩]
  edges := [⟨0, 1, .effect⟩, ⟨3, 2, .source⟩, ⟨1, 3, .connection ⟨0⟩ none⟩]

/-- The same with its edges in another order, with two connections without a delay and with one that is
physical. -/
def doubleLane : DependencyGraph where
  nodes := lane.nodes
  edges := [⟨1, 3, .connection ⟨7⟩ none⟩, ⟨3, 2, .source⟩, ⟨1, 3, .connection ⟨4⟩ (some .physical)⟩,
    ⟨1, 3, .connection ⟨2⟩ none⟩, ⟨0, 1, .effect⟩]

end DependencyGraph

theorem least_order_of_acyclic_lane : lane.WellFormed ∧ lane.Acyclic ∧ ∃ table,
    lane.priorities = .ok table ∧ table.nodeOrder = [0, 1, 3, 2] ∧
      (∀ order, lane.IsTopological order → [0, 1, 3, 2] ≤ order) ∧
      doubleLane.priorities = .ok table := by
  have wellFormed : lane.WellFormed := ⟨by decide, by decide, by decide, by decide⟩
  have acyclic : lane.Acyclic := acyclic_of_edges_lt [0, 1, 3, 2].idxOf (by decide)
  have steps (source target : Nat) : doubleLane.Step source target ↔ lane.Step source target := by
    simp [Step, doubleLane, lane, Edge.isZeroDelay]
    tauto
  obtain ⟨table, assigned, -, -, least, same⟩ := least_order_of_acyclic wellFormed acyclic
  have order_eq : table.nodeOrder = [0, 1, 3, 2] := by
    have computed : lane.priorities = .ok ⟨[⟨⟨0⟩, ⟨0, 0⟩⟩, ⟨⟨1⟩, ⟨1, 1⟩⟩], [0, 1, 3, 2]⟩ := by decide
    rw [computed] at assigned
    exact (Except.ok.inj assigned) ▸ rfl
  exact ⟨wellFormed, acyclic, table, assigned, order_eq, order_eq ▸ least, same doubleLane rfl steps⟩

end ReactorCausality
