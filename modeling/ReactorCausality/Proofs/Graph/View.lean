import ReactorCausality.Cycle
import ReactorCausality.Priority.Table

/-!
The zero-delay view. Cycles and priorities are worked out from the nodes of a graph and from its
zero-delay edges in their order. Which broken edges stand among them does not matter, so two graphs with
one view have the same cycles and the same priorities (`cycles_eq_of_view`, `priorities_eq_of_view`).
-/
namespace ReactorCausality

namespace DependencyGraph

/-- The graph without its broken edges. -/
def zeroDelayView (graph : DependencyGraph) : DependencyGraph :=
  { graph with edges := graph.zeroDelayEdges }

variable (graph : DependencyGraph)

@[simp]
theorem nodes_zeroDelayView : graph.zeroDelayView.nodes = graph.nodes :=
  rfl

@[simp]
theorem reactionAt?_zeroDelayView : graph.zeroDelayView.reactionAt? = graph.reactionAt? :=
  rfl

@[simp]
theorem successors_zeroDelayView : graph.zeroDelayView.successors = graph.successors := by
  funext node
  simp [successors, edgesFrom, zeroDelayView, zeroDelayEdges, List.filter_filter, Bool.and_comm,
    Bool.and_left_comm]

@[simp]
theorem predecessors_zeroDelayView : graph.zeroDelayView.predecessors = graph.predecessors := by
  funext node
  simp [predecessors, edgesTo, zeroDelayView, zeroDelayEdges, List.filter_filter, Bool.and_comm,
    Bool.and_left_comm]

theorem cycles_zeroDelayView : graph.zeroDelayView.cycles = graph.cycles := by
  have reported : Cycle.ofComponent graph.zeroDelayView = Cycle.ofComponent graph := rfl
  rw [cycles, cycles, cyclicComponents, cyclicComponents, nodes_zeroDelayView,
    successors_zeroDelayView, reported]

end DependencyGraph

namespace Placement

variable (graph : DependencyGraph)

theorem start_zeroDelayView : start graph.zeroDelayView = start graph := by
  simp only [start, DependencyGraph.nodes_zeroDelayView, DependencyGraph.predecessors_zeroDelayView]

theorem place_zeroDelayView (placement : Placement) :
    placement.place graph.zeroDelayView = placement.place graph := by
  funext node ready
  simp only [place, DependencyGraph.reactionAt?_zeroDelayView,
    DependencyGraph.successors_zeroDelayView]

theorem run_zeroDelayView (rounds : Nat) (placement : Placement) :
    run graph.zeroDelayView rounds placement = run graph rounds placement := by
  induction rounds generalizing placement with
  | zero => rfl
  | succ rounds ih =>
    rw [run, run]
    cases placement.ready with
    | nil => rfl
    | cons node ready =>
      dsimp only
      rw [place_zeroDelayView, ih]

end Placement

namespace DependencyGraph

theorem priorities_zeroDelayView (graph : DependencyGraph) :
    graph.zeroDelayView.priorities = graph.priorities := by
  simp only [priorities, nodes_zeroDelayView, Placement.start_zeroDelayView,
    Placement.run_zeroDelayView]

variable {left right : DependencyGraph}

theorem cycles_eq_of_view (same : left.zeroDelayView = right.zeroDelayView) :
    left.cycles = right.cycles := by
  rw [← left.cycles_zeroDelayView, same, cycles_zeroDelayView]

theorem priorities_eq_of_view (same : left.zeroDelayView = right.zeroDelayView) :
    left.priorities = right.priorities := by
  rw [← left.priorities_zeroDelayView, same, priorities_zeroDelayView]

end DependencyGraph

end ReactorCausality
