import Mathlib.Data.List.Chain
import ReactorCausality.Proofs.Cycle
import ReactorCausality.Proofs.Rendering.Faithful

/-!
What is red in a written graph. An arrow is red if its ends follow one another on a reported cycle, whatever
it stands for: for a zero-delay edge this is as it should be, but a delayed or physical connection beside
such an edge is red as well (`red_arrows`).
-/
namespace ReactorCausality

/-- The cycle goes from one node to another. -/
def Cycle.Passes (cycle : Cycle) (source target : Nat) : Prop :=
  [source, target] <:+: cycle.path

theorem Cycle.mem_steps_iff {cycle : Cycle} {source target : Nat} :
    (source, target) ∈ cycle.steps ↔ cycle.Passes source target := by
  unfold steps Passes
  generalize cycle.path = path
  induction path with
  | nil => simp
  | cons first rest ih =>
    cases rest with
    | nil => simp [List.infix_cons_iff]
    | cons second rest =>
      rw [List.tail_cons, List.zip_cons_cons, List.mem_cons, List.infix_cons_iff, Prod.mk.injEq]
      rw [List.tail_cons] at ih
      simp [ih]

namespace DependencyGraph

variable {graph : DependencyGraph}

/-- A reported cycle goes from one node to another. -/
def ReportsStep (graph : DependencyGraph) (source target : Nat) : Prop :=
  ∃ cycle ∈ graph.cycles.cycles, cycle.Passes source target

theorem mem_steps_iff {source target : Nat} :
    (source, target) ∈ graph.cycles.steps ↔ graph.ReportsStep source target := by
  simp only [CycleReport.steps, List.mem_flatMap, Cycle.mem_steps_iff, ReportsStep]

/-- Along a reported cycle zero-delay edges lead from node to node. -/
theorem WellFormed.step_of_reportsStep (wellFormed : graph.WellFormed) {source target : Nat}
    (reports : graph.ReportsStep source target) : graph.Step source target := by
  obtain ⟨cycle, reported, passes⟩ := reports
  obtain ⟨members, member, rfl⟩ := List.mem_map.mp reported
  obtain ⟨_, -, shortest⟩ := (wellFormed.mem_cyclicComponents_iff.mp member).isShortestCycle
  simpa using shortest.closed.steps.infix passes

end DependencyGraph

namespace Dot

def Arrow.IsRed (arrow : Arrow) : Prop :=
  ∃ pairs, arrow.attributes = some pairs ∧ ("color", .word "red") ∈ pairs

/-- An arrow stands for an edge, and is red as far as the edge or one beside it is on a reported cycle. -/
structure Arrow.Marks (arrow : Arrow) (graph : DependencyGraph) (edge : Edge) : Prop where
  source : arrow.source = nodeText edge.source
  target : arrow.target = nodeText edge.target
  zeroDelay : edge.isZeroDelay → (arrow.IsRed ↔ graph.ReportsStep edge.source edge.target)
  /-- What carries nothing at the same tag is red because of something else between the same nodes. -/
  broken : ¬ edge.isZeroDelay → (arrow.IsRed ↔ ∃ other ∈ graph.edges, other.isZeroDelay ∧
    other.source = edge.source ∧ other.target = edge.target ∧
      graph.ReportsStep other.source other.target)

theorem isRed_arrowOf_iff {steps : List (Nat × Nat)} {edge : Edge} :
    (arrowOf steps edge).IsRed ↔ (edge.source, edge.target) ∈ steps := by
  have uncolored : ("color", .word "red") ∉ style edge.kind := by
    cases edge.kind with
    | connection id broken => rcases broken with _ | (_ | time) <;> simp [style]
    | _ => simp [style]
  have colored : ("color", .word "red") ∈ highlight steps edge ↔ isRed steps edge := by
    unfold highlight
    split <;> simp [*]
  simp [Arrow.IsRed, arrowOf, arrowAttributes, uncolored, colored, isRed]

theorem marks_arrowOf {graph : DependencyGraph} (wellFormed : graph.WellFormed) (edge : Edge) :
    (arrowOf graph.cycles.steps edge).Marks graph edge := by
  have isRed_iff : (arrowOf graph.cycles.steps edge).IsRed ↔
      graph.ReportsStep edge.source edge.target :=
    isRed_arrowOf_iff.trans DependencyGraph.mem_steps_iff
  refine ⟨rfl, rfl, fun _ => isRed_iff, fun _ => isRed_iff.trans ⟨fun reports => ?_, ?_⟩⟩
  · obtain ⟨other, member, isZeroDelay, source, target⟩ := wellFormed.step_of_reportsStep reports
    exact ⟨other, member, isZeroDelay, source, target, source ▸ target ▸ reports⟩
  · rintro ⟨other, -, -, source, target, reports⟩
    exact source ▸ target ▸ reports

end Dot

open Dot

/-- In the written graph of an accepted program and its cycles, the arrow of a zero-delay edge is red exactly
if a reported cycle goes along it, and any other arrow exactly if it is beside such a red one. -/
theorem red_arrows {program : Program} {index : Index} (accepted : Index.build program = .ok index) :
    ∃ body, read? (index.graph.dot index (some index.graph.cycles)) =
        some [.block [.word "digraph", .word "reactors"] body] ∧
      List.Forall₂ (fun edge arrow => Arrow.Marks arrow index.graph edge) index.graph.edges
        (arrows body) := by
  have described := (Index.build_eq_ok_iff program index).mp accepted
  refine ⟨_, read?_dot index.graph index _, ?_⟩
  rw [(described.shows_drawing _).arrows, List.forall₂_map_right_iff, List.forall₂_same]
  exact fun edge _ => marks_arrowOf described.graph_wellFormed edge

/-- Two relays that feed each other, and one of them feeds the other twice more, but later. -/
def Program.bypassedRing : Program where
  main :=
    { id := ⟨0⟩, name := "main"
      children := [.relay ⟨1⟩ "left" ⟨0⟩ ⟨1⟩ ⟨0⟩, .relay ⟨2⟩ "right" ⟨2⟩ ⟨3⟩ ⟨1⟩]
      connections := [
        { id := ⟨0⟩, source := ⟨1⟩, target := ⟨2⟩ }, { id := ⟨1⟩, source := ⟨3⟩, target := ⟨0⟩ },
        { id := ⟨2⟩, source := ⟨1⟩, target := ⟨2⟩, delay := some ⟨5000000⟩ },
        { id := ⟨3⟩, source := ⟨1⟩, target := ⟨2⟩, isPhysical := true }] }

theorem red_arrows_bypassedRing : ∃ index, Index.build .bypassedRing = .ok index ∧
    ∃ body, read? (index.graph.dot index (some index.graph.cycles)) =
        some [.block [.word "digraph", .word "reactors"] body] ∧
      List.Forall₂ (fun edge arrow => Arrow.Marks arrow index.graph edge) index.graph.edges
        (arrows body) := by
  have accepted : Index.build .bypassedRing = .ok _ := rfl
  exact ⟨_, accepted, red_arrows accepted⟩

/-- Where the zero-delay edges of the ring lead. -/
def afterInRing : Nat → List Nat
  | 0 => [2]
  | 1 => [0]
  | 2 => [4]
  | 3 => [5]
  | 4 => [3]
  | 5 => [1]
  | _ => []

theorem DependencyGraph.reportsStep_bypassedRing :
    (Index.survey .bypassedRing).index.graph.ReportsStep 2 4 := by
  have successors : (Index.survey .bypassedRing).index.graph.successors = afterInRing := by
    funext node
    match node with
    | 0 | 1 | 2 | 3 | 4 | 5 | _ + 6 => rfl
  have components : (Index.survey .bypassedRing).index.graph.cyclicComponents =
      [[0, 1, 2, 3, 4, 5]] := by
    -- the search recurses on a pair of counts, so `decide` does not evaluate it
    rw [cyclicComponents, successors]
    change (List.filter _ (Component.all 6 _)).mergeSort _ = _
    cbv
  have path : ClosedWalk.shortest afterInRing [0, 1, 2, 3, 4, 5] 0 = [0, 2, 4, 3, 5, 1, 0] := by
    decide +kernel
  refine ⟨_, List.mem_map_of_mem (components ▸ List.mem_cons_self), ?_⟩
  rw [successors, Cycle.Passes]
  change _ <:+: ClosedWalk.shortest afterInRing [0, 1, 2, 3, 4, 5] 0
  rw [path]
  decide

/-- The delayed and the physical connection are on no zero-delay cycle, but their arrows are red. -/
theorem red_beside_cycle_bypassedRing : ∃ index, Index.build .bypassedRing = .ok index ∧
    ∃ body, read? (index.graph.dot index (some index.graph.cycles)) =
        some [.block [.word "digraph", .word "reactors"] body] ∧
      (∃ edge arrow, index.graph.edges[6]? = some edge ∧ (arrows body)[6]? = some arrow ∧
        edge.kind = .connection ⟨2⟩ (some (.delay ⟨5000000⟩)) ∧ ¬ edge.isZeroDelay ∧ arrow.IsRed) ∧
      ∃ edge arrow, index.graph.edges[7]? = some edge ∧ (arrows body)[7]? = some arrow ∧
        edge.kind = .connection ⟨3⟩ (some .physical) ∧ ¬ edge.isZeroDelay ∧ arrow.IsRed := by
  have accepted : Index.build .bypassedRing = .ok (Index.survey .bypassedRing).index := rfl
  have described := (Index.build_eq_ok_iff _ _).mp accepted
  have delayed : (Index.survey .bypassedRing).index.graph.edges[6]? =
      some ⟨2, 4, .connection ⟨2⟩ (some (.delay ⟨5000000⟩))⟩ := by decide
  have physical : (Index.survey .bypassedRing).index.graph.edges[7]? =
      some ⟨2, 4, .connection ⟨3⟩ (some .physical)⟩ := by decide
  have isStep := DependencyGraph.mem_steps_iff.mpr DependencyGraph.reportsStep_bypassedRing
  refine ⟨_, accepted, _, read?_dot _ _ _, ?_⟩
  rw [(described.shows_drawing _).arrows, List.getElem?_map, List.getElem?_map, delayed, physical]
  exact ⟨⟨_, _, rfl, rfl, rfl, by decide, isRed_arrowOf_iff.mpr isStep⟩,
    ⟨_, _, rfl, rfl, rfl, by decide, isRed_arrowOf_iff.mpr isStep⟩⟩

end ReactorCausality
