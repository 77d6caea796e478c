import Mathlib.Data.Set.Card
import ReactorCausality.Proofs.Cycle
import ReactorCausality.Proofs.Priority.Table

/-!
Where no priorities can be assigned. The nodes that are never ready are those on a zero-delay cycle
and those behind one, so placing stalls exactly on the programs whose cycles are reported. However
far it goes, no edge is taken off a count that has none left (`run?_eq`), and no node is placed
twice.
-/
namespace ReactorCausality

open DependencyGraph

namespace Placement

/-- Takes one zero-delay edge to a node off the count, if there is one left. -/
def release? (carried : Nat) (placement : Placement) (node : Nat) : Option Placement :=
  if placement.waits node = 0 then none else some (placement.release carried node)

/-- Places a node, if every edge from it can be taken off the counts. -/
def place? (graph : DependencyGraph) (placement : Placement) (node : Nat) (ready : List Nat) :
    Option Placement :=
  (graph.successors node).foldlM (release? (placement.level node + graph.weight node))
    (placement.enter graph node ready)

/-- Places nodes as long as one is ready, so many at most, and gives up at the first count that would
fall below zero. -/
def run? (graph : DependencyGraph) : Nat → Placement → Option Placement
  | 0, placement => some placement
  | rounds + 1, placement =>
    match placement.ready with
    | [] => some placement
    | node :: ready => (placement.place? graph node ready).bind (run? graph rounds)

/-- Edges that have been counted can be taken off. -/
theorem foldlM_release? (carried : Nat) {nodes : List Nat} {before : Placement}
    (counted : ∀ node, nodes.count node ≤ before.waits node) :
    nodes.foldlM (release? carried) before = some (nodes.foldl (release carried) before) := by
  induction nodes generalizing before with
  | nil => rfl
  | cons first rest ih =>
    have waiting : before.waits first ≠ 0 := by
      have enough := counted first
      rw [List.count_cons_self] at enough
      omega
    have released : before.release? carried first = some (before.release carried first) :=
      if_neg waiting
    rw [List.foldlM_cons, released, List.foldl_cons]
    exact ih (count_le_waits_release carried counted)

variable {graph : DependencyGraph} {placement : Placement}

theorem Invariant.place?_eq (inv : Invariant graph placement) {node : Nat} {ready : List Nat}
    (isReady : placement.ready = node :: ready) :
    placement.place? graph node ready = some (placement.place graph node ready) := by
  rw [place?, place_eq]
  exact foldlM_release? _ (inv.count_successors_le_waits isReady)

/-- No count falls below zero, however many rounds there are. -/
theorem Invariant.run?_eq (inv : Invariant graph placement) (wellFormed : graph.WellFormed)
    (rounds : Nat) : run? graph rounds placement = some (run graph rounds placement) := by
  induction rounds generalizing placement with
  | zero => rfl
  | succ rounds ih =>
    cases isReady : placement.ready with
    | nil => simp [run?, run, isReady]
    | cons node ready =>
      simp only [run?, run, isReady, inv.place?_eq isReady, Option.bind_some]
      exact ih (inv.advance isReady wellFormed)

end Placement

namespace DependencyGraph.WellFormed

variable {graph : DependencyGraph} (wellFormed : graph.WellFormed)
include wellFormed

/-- As many nodes are behind a cycle as are not placed in the end. -/
theorem ncard_behindCycle : {node | graph.BehindCycle node}.ncard =
    graph.nodes.length - graph.placement.order.length := by
  obtain ⟨inv, -⟩ := wellFormed.invariant_placement
  have unplaced : {node | graph.BehindCycle node} =
      ((Finset.range graph.nodes.length \ graph.placement.order.toFinset : Finset Nat) : Set Nat) := by
    ext node
    change graph.BehindCycle node ↔ _
    rw [Finset.mem_coe, Finset.mem_sdiff, Finset.mem_range, List.mem_toFinset,
      wellFormed.mem_order_iff]
    constructor
    · intro behind
      exact ⟨wellFormed.lt_of_behindCycle behind, fun placed => placed.2 behind⟩
    · rintro ⟨less, notPlaced⟩
      by_contra free
      exact notPlaced ⟨less, free⟩
  have inside : graph.placement.order.toFinset ⊆ Finset.range graph.nodes.length := by
    intro node placed
    exact Finset.mem_range.mpr (inv.turns.lt_of_mem (List.mem_toFinset.mp placed))
  rw [unplaced, Set.ncard_coe_finset, Finset.card_sdiff_of_subset inside, Finset.card_range,
    List.toFinset_card_of_nodup inv.distinct]

theorem stuck_eq {fault : Stalled} (stalled : graph.priorities = .error fault) :
    fault.stuck = {node | graph.BehindCycle node}.ncard := by
  rw [wellFormed.ncard_behindCycle]
  rw [priorities_eq] at stalled
  split at stalled
  · contradiction
  · cases stalled
    rfl

end DependencyGraph.WellFormed

/-- The priorities of a program and the report about its cycles agree: there are priorities exactly if
no cycle is reported, and else as many nodes are stuck as are on a cycle or behind one. Nodes are
placed until none is ready; in any number of rounds, no count of edges falls below zero and no node
is placed twice. -/
theorem priorities_stall_behind_cycles {program : Program} {index : Index}
    (accepted : Index.build program = .ok index) :
    ((∃ table, index.graph.priorities = .ok table) ↔ index.graph.cycles.isAcyclic) ∧
      (∀ fault, index.graph.priorities = .error fault →
        fault.stuck = {node | index.graph.BehindCycle node}.ncard) ∧
      (Placement.run index.graph index.graph.nodes.length
        (Placement.start index.graph)).ready = [] ∧
      ∀ rounds, Placement.run? index.graph rounds (Placement.start index.graph) =
          some (Placement.run index.graph rounds (Placement.start index.graph)) ∧
        (Placement.run index.graph rounds (Placement.start index.graph)).order.Nodup := by
  have wellFormed := ((Index.build_eq_ok_iff program index).mp accepted).graph_wellFormed
  have inv := Placement.invariant_start wellFormed
  refine ⟨?_, fun fault stalled => wellFormed.stuck_eq stalled, wellFormed.ready_placement, ?_⟩
  · rw [wellFormed.exists_priorities_iff, wellFormed.isAcyclic_cycles_iff]
  · intro rounds
    exact ⟨inv.run?_eq wellFormed rounds, (Placement.invariant_run wellFormed inv).1.distinct⟩

/-- Two relays that feed each other, a reactor that listens to one of them, and one that has nothing
to do with them. -/
def Program.tappedRing : Program where
  main :=
    { id := ⟨0⟩, name := "main"
      children := [
        { id := ⟨3⟩, name := "tap", ports := [⟨⟨4⟩, "in", .input⟩]
          reactions := [{ id := ⟨2⟩, index := 0, triggers := [.port ⟨4⟩] }] },
        .relay ⟨1⟩ "left" ⟨0⟩ ⟨1⟩ ⟨0⟩, .relay ⟨2⟩ "right" ⟨2⟩ ⟨3⟩ ⟨1⟩,
        { id := ⟨4⟩, name := "apart", ports := [⟨⟨5⟩, "out", .output⟩]
          reactions := [
            { id := ⟨3⟩, index := 0, triggers := [.startup], effects := [.port ⟨5⟩] }] }]
      connections := [
        { id := ⟨0⟩, source := ⟨1⟩, target := ⟨2⟩ }, { id := ⟨1⟩, source := ⟨3⟩, target := ⟨0⟩ },
        { id := ⟨2⟩, source := ⟨3⟩, target := ⟨4⟩ }] }

theorem priorities_stall_behind_cycles_tappedRing : ∃ index,
    Index.build Program.tappedRing = .ok index ∧ index.graph.nodes.length = 10 ∧
      index.graph.priorities = .error ⟨8⟩ ∧ {node | index.graph.BehindCycle node}.ncard = 8 ∧
      ¬ index.graph.cycles.isAcyclic := by
  have accepted : Index.build Program.tappedRing = .ok _ := rfl
  obtain ⟨agree, stuck, -⟩ := priorities_stall_behind_cycles accepted
  have stalled : (Index.survey Program.tappedRing).index.graph.priorities = .error ⟨8⟩ := rfl
  refine ⟨_, accepted, rfl, stalled, (stuck _ stalled).symm, ?_⟩
  intro acyclic
  obtain ⟨table, assigned⟩ := agree.mpr acyclic
  rw [stalled] at assigned
  contradiction

end ReactorCausality
