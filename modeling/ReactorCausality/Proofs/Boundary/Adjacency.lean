import ReactorCausality.Proofs.Boundary.Circles
import ReactorCausality.Proofs.Boundary.Placing
import ReactorCausality.Proofs.Federation.Calls

/-!
Federates as places of an array. Every boundary edge has a sender and a receiver that are in use in the
partition, so an array with a row for every name of the partition has a place for whatever is looked up in it
(`receiverRows?_eq`), whatever calls made the partition (`federate_numbers_stay_valid`).
-/
namespace ReactorCausality

namespace BoundarySetting

/-- Puts the receiver of an edge into the row of its sender, if there is one. -/
def addReceiver? (rows : Array (List Nat)) (edge : BoundaryEdge) : Option (Array (List Nat)) :=
  if edge.sender.number < rows.size then
    some (rows.modify edge.sender.number fun row => row ++ [edge.receiver.number])
  else none

/-- Where the zero-delay edges lead, in a row for each of so many federates. There is no answer if an edge
leaves a federate without a row. -/
def receiverRows? (count : Nat) (edges : List BoundaryEdge) : Option (Array (List Nat)) :=
  (edges.filter BoundaryEdge.isZeroDelay).foldlM addReceiver? (Array.replicate count [])

theorem receivers_append (edges more : List BoundaryEdge) (federate : Nat) :
    receivers (edges ++ more) federate = receivers edges federate ++ receivers more federate := by
  simp only [receivers, List.filter_append, List.map_append]

theorem addReceiver?_eq {count : Nat} {edges : List BoundaryEdge} {edge : BoundaryEdge}
    (zeroDelay : edge.isZeroDelay) (less : edge.sender.number < count) :
    addReceiver? ((Array.range count).map (receivers edges)) edge =
      some ((Array.range count).map (receivers (edges ++ [edge]))) := by
  rw [addReceiver?, if_pos (by simpa using less), Option.some.injEq]
  refine Array.ext (by simp) fun federate _ _ => ?_
  rw [Array.getElem_modify, Array.getElem_map, Array.getElem_map, Array.getElem_range, receivers_append]
  split
  · next isSender => simp [receivers, zeroDelay, isSender]
  · next isOther => simp [receivers, isOther]

/-- Where every sender has a row, every row is filled with the receivers of its federate. -/
theorem receiverRows?_eq {count : Nat} {edges : List BoundaryEdge}
    (named : ∀ edge ∈ edges, edge.sender.number < count) :
    receiverRows? count edges = some ((Array.range count).map (receivers edges)) := by
  induction edges using List.reverseRecOn with
  | nil =>
    refine congrArg some (Array.ext (by simp) fun federate _ _ => ?_)
    simp [receivers]
  | append_singleton edges edge ih =>
    obtain ⟨before, last⟩ := List.forall_mem_append.mp named
    have filled := ih before
    rw [receiverRows?] at filled ⊢
    rw [List.filter_append, List.foldlM_append, filled]
    by_cases zeroDelay : edge.isZeroDelay
    · rw [List.filter_cons_of_pos zeroDelay]
      simpa using addReceiver?_eq zeroDelay (last edge (List.mem_singleton_self edge))
    · have same : receivers (edges ++ [edge]) = receivers edges := by
        funext federate
        simp [receivers, zeroDelay]
      rw [List.filter_cons_of_neg zeroDelay, same]
      rfl

end BoundarySetting

/-- Whatever calls make a partition, the numbers of its federates stay those of their names, and they are places
of the array that the circles of federates are looked for in. -/
theorem federate_numbers_stay_valid (calls : List Partition.Call) :
    (Partition.afterCalls calls).Sound calls ∧
    ∀ (index : Index) (graph : DependencyGraph) (priorities : PriorityTable) (policy : Policy),
      let setting : BoundarySetting := ⟨index, graph, priorities, .afterCalls calls, policy⟩
      let count := setting.partition.names.length
      (∀ edge ∈ setting.edges, edge.sender.number < count ∧ edge.receiver.number < count) ∧
      BoundarySetting.receiverRows? count setting.edges =
        some ((Array.range count).map (BoundarySetting.receivers setting.edges)) := by
  refine ⟨Partition.sound_afterCalls calls, fun index graph priorities policy => ?_⟩
  intro setting count
  have named (edge : BoundaryEdge) (member : edge ∈ setting.edges) :=
    BoundarySetting.ends_lt_of_mem_edges (Partition.built_afterCalls calls).inBounds member
  exact ⟨named, BoundarySetting.receiverRows?_eq fun edge member => (named edge member).1⟩

/-- The sides of the exchange are made by two calls, and each sends to the other. -/
theorem federate_numbers_stay_valid_exchange :
    let calls : List Partition.Call :=
      [.assign (.reactor ⟨1⟩ "left"), .assign (.path "main.right" "right")]
    let setting := BoundarySetting.exchange {}
    setting.partition = .afterCalls calls ∧ setting.partition.Numbers ⟨1⟩ "left" ∧
      setting.partition.Stores (.inr "main.right") ⟨2⟩ ∧ setting.partition.Numbers ⟨2⟩ "right" ∧
      (∃ edge ∈ setting.edges, edge.isZeroDelay ∧ edge.sender.number < 3 ∧ edge.receiver.number < 3) ∧
      BoundarySetting.receiverRows? 3 setting.edges = some #[[], [2], [1]] := by
  intro calls setting
  obtain ⟨sound, inUse⟩ := federate_numbers_stay_valid calls
  obtain ⟨named, rows⟩ := inUse setting.index setting.graph setting.priorities setting.policy
  obtain ⟨edge, member, zeroDelay, -⟩ := BoundarySetting.exists_edge_exchange
  refine ⟨rfl, sound.returned [] _ _ rfl, List.mem_singleton_self _,
    sound.returned [_] _ [] rfl, ⟨edge, member, zeroDelay, named edge member⟩, rows.trans ?_⟩
  decide +kernel

end ReactorCausality
