import Mathlib.Data.Fintype.EquivFin
import Mathlib.Data.List.Nodup
import Mathlib.Logic.Relation
import ReactorCausality.Graph.Basic

/-!
The zero-delay view as a relation between nodes. Successors and predecessors are its two sides and
list parallel edges equally often. Then the reactions of a graph, in the order of their nodes.
-/
namespace ReactorCausality

namespace DependencyGraph

/-- A zero-delay edge leads from one node to another. -/
def Step (graph : DependencyGraph) (source target : Nat) : Prop :=
  ∃ edge ∈ graph.edges, edge.isZeroDelay ∧ edge.source = source ∧ edge.target = target

/-- A zero-delay path of at least one edge leads from one node to another. -/
def Reaches (graph : DependencyGraph) : Nat → Nat → Prop :=
  Relation.TransGen graph.Step

/-- No zero-delay path leads from a node back to itself. -/
def Acyclic (graph : DependencyGraph) : Prop :=
  ∀ node, ¬ graph.Reaches node node

/-- No two nodes stand for the same thing, and every edge joins two different nodes. -/
structure WellFormed (graph : DependencyGraph) : Prop where
  distinct : (graph.nodes.map Node.kind).Nodup
  source_lt : ∀ edge ∈ graph.edges, edge.source < graph.nodes.length
  target_lt : ∀ edge ∈ graph.edges, edge.target < graph.nodes.length
  loopless : ∀ edge ∈ graph.edges, edge.source ≠ edge.target

variable {graph : DependencyGraph} {source target : Nat}

theorem mem_successors_iff : target ∈ graph.successors source ↔ graph.Step source target := by
  simp only [successors, edgesFrom, Step, List.mem_map, List.mem_filter, decide_eq_true_eq]
  grind

theorem mem_predecessors_iff : source ∈ graph.predecessors target ↔ graph.Step source target := by
  simp only [predecessors, edgesTo, Step, List.mem_map, List.mem_filter, decide_eq_true_eq]
  grind

theorem count_successors (source target : Nat) :
    (graph.successors source).count target = (graph.predecessors target).count source := by
  simp only [successors, predecessors, edgesFrom, edgesTo, List.count, List.countP_map,
    List.countP_filter]
  congr 1
  funext edge
  simp only [Function.comp_apply]
  grind

namespace WellFormed

variable (wellFormed : graph.WellFormed)
include wellFormed

theorem step_source_lt (step : graph.Step source target) : source < graph.nodes.length := by
  obtain ⟨edge, member, -, rfl, -⟩ := step
  exact wellFormed.source_lt edge member

theorem step_target_lt (step : graph.Step source target) : target < graph.nodes.length := by
  obtain ⟨edge, member, -, -, rfl⟩ := step
  exact wellFormed.target_lt edge member

theorem not_step_self : ¬ graph.Step source source := by
  rintro ⟨edge, member, -, begins, ends⟩
  exact wellFormed.loopless edge member (begins.trans ends.symm)

theorem reaches_target_lt (reaches : graph.Reaches source target) :
    target < graph.nodes.length := by
  cases reaches with
  | single step => exact wellFormed.step_target_lt step
  | tail _ step => exact wellFormed.step_target_lt step

end WellFormed

/-! ### Acyclic graphs -/

theorem acyclic_of_step_lt (number : Nat → Nat)
    (increases : ∀ source target, graph.Step source target → number source < number target) :
    graph.Acyclic := by
  intro node reaches
  have less : Relation.TransGen (fun first second : Nat => first < second) (number node)
      (number node) := reaches.lift number increases
  rw [Relation.transGen_eq_self] at less
  exact Nat.lt_irrefl _ less

theorem acyclic_of_edges_lt (number : Nat → Nat)
    (increases : ∀ edge ∈ graph.zeroDelayEdges, number edge.source < number edge.target) :
    graph.Acyclic := by
  refine acyclic_of_step_lt number ?_
  rintro _ _ ⟨edge, member, zeroDelay, rfl, rfl⟩
  exact increases edge (List.mem_filter.mpr ⟨member, zeroDelay⟩)

/-! ### Nodes behind cycles -/

/-- A node lies on a zero-delay cycle, or a zero-delay path leads to it from one. -/
def BehindCycle (graph : DependencyGraph) (node : Nat) : Prop :=
  ∃ origin, graph.Reaches origin origin ∧ Relation.ReflTransGen graph.Step origin node

theorem Acyclic.not_behindCycle (acyclic : graph.Acyclic) (node : Nat) :
    ¬ graph.BehindCycle node := by
  rintro ⟨origin, cyclic, -⟩
  exact acyclic origin cyclic

theorem BehindCycle.of_reaches (cyclic : graph.Reaches source source) :
    graph.BehindCycle source :=
  ⟨source, cyclic, .refl⟩

theorem BehindCycle.tail (behind : graph.BehindCycle source) (step : graph.Step source target) :
    graph.BehindCycle target := by
  obtain ⟨origin, cyclic, leads⟩ := behind
  exact ⟨origin, cyclic, leads.tail step⟩

namespace WellFormed

variable (wellFormed : graph.WellFormed)
include wellFormed

theorem lt_of_behindCycle {node : Nat} (behind : graph.BehindCycle node) :
    node < graph.nodes.length := by
  obtain ⟨origin, cyclic, leads⟩ := behind
  exact wellFormed.reaches_target_lt (cyclic.trans_left leads)

/-- Something is true of all nodes that are not behind a cycle if it is true of every node whose
predecessors it is true of. -/
theorem induction_of_not_behindCycle {motive : Nat → Prop}
    (step : ∀ node < graph.nodes.length,
      (∀ source ∈ graph.predecessors node, motive source) → motive node) :
    ∀ node < graph.nodes.length, ¬ graph.BehindCycle node → motive node := by
  -- among these nodes, no path leads back to where it begins, so going backwards comes to an end
  let Free := { node : Fin graph.nodes.length // ¬ graph.BehindCycle node }
  let before (first second : Free) := graph.Reaches first.1 second.1
  have : IsTrans Free before := ⟨fun _ _ _ => Relation.TransGen.trans⟩
  have : Std.Irrefl before := ⟨fun node cyclic => node.2 (.of_reaches cyclic)⟩
  have wellFounded : WellFounded before := Finite.wellFounded_of_trans_of_irrefl before
  intro node less free
  refine wellFounded.induction (C := fun node => motive node.1) ⟨⟨node, less⟩, free⟩ ?_
  intro node ih
  refine step node.1 node.1.isLt fun source member => ?_
  have leads := mem_predecessors_iff.mp member
  exact ih ⟨⟨source, wellFormed.step_source_lt leads⟩, fun behind => node.2 (behind.tail leads)⟩
    (.single leads)

end WellFormed

/-! ### Reactions -/

theorem lt_of_reactionAt?_eq_some {node : Nat} {id : ReactionId}
    (isReaction : graph.reactionAt? node = some id) : node < graph.nodes.length := by
  obtain ⟨found, isNode, -⟩ := Option.bind_eq_some_iff.mp isReaction
  exact (List.getElem?_eq_some_iff.mp isNode).1

theorem map_snd_reactions (graph : DependencyGraph) :
    graph.reactions.map Prod.snd = (List.range graph.nodes.length).filterMap graph.reactionAt? := by
  calc graph.reactions.map Prod.snd
      = graph.nodes.zipIdx.filterMap fun pair => pair.1.kind.reaction? := by
        rw [reactions, List.map_filterMap]
        simp [Function.comp_def]
    _ = graph.nodes.zipIdx.filterMap fun pair => graph.reactionAt? pair.2 := by
        refine List.filterMap_congr fun pair member => ?_
        rw [reactionAt?, List.mk_mem_zipIdx_iff_getElem?.mp member, Option.bind_some]
    _ = (List.range graph.nodes.length).filterMap graph.reactionAt? := by
        rw [List.range_eq_range', ← List.zipIdx_map_snd 0 graph.nodes, List.filterMap_map]
        rfl

theorem map_snd_reactions_eq_filterMap (graph : DependencyGraph) :
    graph.reactions.map Prod.snd = (graph.nodes.map Node.kind).filterMap NodeKind.reaction? := by
  rw [reactions, List.map_filterMap, List.filterMap_map, ← List.zipIdx_map_fst 0 graph.nodes]
  simp [List.filterMap_map, Function.comp_def]

theorem WellFormed.nodup_reactions (wellFormed : graph.WellFormed) :
    (graph.reactions.map Prod.snd).Nodup := by
  rw [map_snd_reactions_eq_filterMap]
  refine wellFormed.distinct.filterMap fun first second id left right => ?_
  cases first <;> cases second <;> simp_all [NodeKind.reaction?]

end DependencyGraph

end ReactorCausality
