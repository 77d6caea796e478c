import ReactorCausality.Priority.Certificate
import ReactorCausality.Proofs.Priority.DataFlow

/-!
The certificate of the priorities of a program holds throughout: nothing that it checks can fail for
a table that belongs to the graph.
-/
namespace ReactorCausality

namespace PriorityTable

theorem strictlyAscending_iff {list : List (Option Nat)} : strictlyAscending list ↔
    ∃ numbers : List Nat, list = numbers.map some ∧ numbers.IsChain (· < ·) := by
  constructor
  · intro ascending
    induction list with
    | nil => exact ⟨[], rfl, .nil⟩
    | cons first rest ih =>
      match first, rest with
      | some first, [] => exact ⟨[first], rfl, .singleton first⟩
      | some first, some second :: rest =>
        simp only [strictlyAscending, Bool.and_eq_true, decide_eq_true_eq] at ascending
        obtain ⟨numbers, same, chain⟩ := ih ascending.2
        obtain ⟨next, numbers, rfl⟩ : ∃ next more, numbers = next :: more := by
          cases numbers with
          | nil => simp at same
          | cons next more => exact ⟨next, more, rfl⟩
        obtain ⟨rfl, rfl⟩ : second = next ∧ rest = numbers.map some := by simpa using same
        exact ⟨first :: second :: numbers, rfl, .cons_cons ascending.1 chain⟩
      | some first, none :: rest => simp [strictlyAscending] at ascending
      | none, [] => simp [strictlyAscending] at ascending
      | none, _ :: _ => simp [strictlyAscending] at ascending
  · rintro ⟨numbers, rfl, chain⟩
    induction chain with
    | nil => rfl
    | singleton => rfl
    | cons_cons less _ ih => simpa [strictlyAscending, less] using ih

/-! ### What each obligation says -/

section Obligations

variable {table : PriorityTable} {graph : DependencyGraph}

/-- Ranks are dense exactly if they are the positions of the entries. -/
theorem ranksEvery_iff : table.ranksEvery graph ↔ table.size = graph.reactions.length ∧
    (∀ reaction ∈ graph.reactions.map Prod.snd, (table.get? reaction).isSome) ∧
      table.entries.map (fun entry => entry.priority.rank) = List.range table.size := by
  have dense : (∀ pair ∈ table.entries.zipIdx, pair.1.priority.rank = pair.2) ↔
      table.entries.map (fun entry => entry.priority.rank) = List.range table.size := by
    have ranks : table.entries.map (fun entry => entry.priority.rank) =
        table.entries.zipIdx.map fun pair => pair.1.priority.rank := by
      rw [← List.zipIdx_map_fst 0 table.entries, List.map_map, List.zipIdx_map_fst]
      rfl
    rw [ranks, size, List.range_eq_range', ← List.zipIdx_map_snd 0 table.entries]
    exact List.map_inj_left.symm
  simp only [ranksEvery, Bool.and_eq_true, beq_iff_eq, List.all_eq_true, List.length_map,
    and_assoc, ← dense]

theorem followsPaths_iff : table.followsPaths graph ↔
    table.nodeOrder.length = graph.nodes.length ∧
    (∀ source target, graph.Step source target →
      table.nodeOrder.idxOf source < table.nodeOrder.idxOf target) ∧
    (∀ pair ∈ (table.nodeOrder.filterMap graph.reactionAt?).zip
      (table.entries.map PriorityEntry.reaction), pair.1 = pair.2) ∧
    ∀ source target first second, graph.Step source target →
      graph.reactionAt? source = some first → graph.reactionAt? target = some second →
        levelBelow (table.level? first) (table.level? second) := by
  have steps (edge : Edge) : edge ∈ graph.zeroDelayEdges → graph.Step edge.source edge.target := by
    intro member
    obtain ⟨listed, zeroDelay⟩ := List.mem_filter.mp member
    exact ⟨edge, listed, zeroDelay, rfl, rfl⟩
  simp only [followsPaths, Bool.and_eq_true, beq_iff_eq, List.all_eq_true, decide_eq_true_eq,
    and_assoc]
  refine and_congr_right fun _ => and_congr ?_ (and_congr_right fun _ => ?_)
  · constructor
    · rintro each _ _ ⟨edge, listed, zeroDelay, rfl, rfl⟩
      exact each edge (List.mem_filter.mpr ⟨listed, zeroDelay⟩)
    · exact fun each edge member => each _ _ (steps edge member)
  · constructor
    · rintro each _ _ first second ⟨edge, listed, zeroDelay, rfl, rfl⟩ isFirst isSecond
      have rises := each edge (List.mem_filter.mpr ⟨listed, zeroDelay⟩)
      simpa only [isFirst, isSecond] using rises
    · intro each edge member
      split
      · next isFirst isSecond => exact each _ _ _ _ (steps edge member) isFirst isSecond
      · rfl

/-- The ordered reactions of every reactor have ranks that ascend as the reactions are declared. -/
theorem keepsDeclarationOrder_iff {index : Index} : table.keepsDeclarationOrder index ↔
    ∀ entry ∈ index.reactors, ∃ ranks : List Nat,
      (Reaction.orderedIds entry.reactor.reactions).map table.rank? = ranks.map some ∧
        ranks.Pairwise (· < ·) := by
  simp only [keepsDeclarationOrder, List.all_eq_true, strictlyAscending_iff,
    List.isChain_iff_pairwise, Reaction.orderedIds, List.map_map, Function.comp_def]

theorem allHold_certificate_iff {index : Index} : (table.certificate graph index).allHold ↔
    table.ranksEvery graph ∧ table.followsPaths graph ∧ table.keepsDeclarationOrder index := by
  simp [PriorityCertificate.allHold, PriorityCertificate.obligations, certificate]

end Obligations

namespace BelongsTo

variable {table : PriorityTable} {graph : DependencyGraph} (belongs : table.BelongsTo graph)
  (wellFormed : graph.WellFormed)
include belongs wellFormed

theorem ranksEvery : table.ranksEvery graph := by
  have size : table.size = graph.reactions.length := by
    simpa [PriorityTable.size] using belongs.perm_reactions.length_eq
  exact ranksEvery_iff.mpr ⟨size, fun _ => belongs.isSome_get? wellFormed, belongs.ranks⟩

theorem followsPaths : table.followsPaths graph := by
  have length : table.nodeOrder.length = graph.nodes.length := by
    simpa using belongs.placed.length_eq
  refine followsPaths_iff.mpr ⟨length, belongs.forward, ?_, ?_⟩
  · rw [belongs.reactions]
    intro pair member
    rw [List.zip_eq_zipWith, List.zipWith_self] at member
    obtain ⟨reaction, -, rfl⟩ := List.mem_map.mp member
    rfl
  · intro source target first second step isFirst isSecond
    obtain ⟨low, high, levelled, levelledToo, less⟩ :=
      belongs.level_lt wellFormed (.single step) isFirst isSecond
    rw [levelled, levelledToo]
    simpa [levelBelow] using less

end BelongsTo

end PriorityTable

namespace Index.Describes

variable {program : Program} {index : Index} (described : index.Describes program)
include described

theorem keepsDeclarationOrder {table : PriorityTable} (belongs : table.BelongsTo index.graph) :
    table.keepsDeclarationOrder index := by
  refine PriorityTable.keepsDeclarationOrder_iff.mpr fun entry listed => ?_
  have inside : entry.reactor ∈ program.reactors :=
    described.map_reactors ▸ List.mem_map_of_mem listed
  have present : ∀ id ∈ Reaction.orderedIds entry.reactor.reactions,
      table.rank? id = some ((table.rank? id).getD 0) := by
    intro id member
    obtain ⟨reaction, ordered, rfl⟩ := List.mem_map.mp member
    have declared : reaction ∈ program.reactions :=
      List.mem_flatMap.mpr ⟨entry.reactor, inside, List.mem_of_mem_filter ordered⟩
    have found := belongs.isSome_get? described.graph_wellFormed
      (described.perm_reactions.mem_iff.mpr (List.mem_map_of_mem declared))
    obtain ⟨priority, found⟩ := Option.isSome_iff_exists.mp found
    simp [PriorityTable.rank?, found]
  refine ⟨(Reaction.orderedIds entry.reactor.reactions).map fun id => (table.rank? id).getD 0,
    ?_, ?_⟩
  · rw [List.map_map, Function.comp_def]
    exact List.map_congr_left present
  · refine List.pairwise_map.mpr ((program.pairwise_precedes inside).imp fun before => ?_)
    obtain ⟨low, high, isLow, isHigh, less, -⟩ := described.runsBefore_of_precedes belongs before
    simpa [PriorityTable.rank?, isLow, isHigh] using less

theorem allHold_certificate {table : PriorityTable} (belongs : table.BelongsTo index.graph) :
    (table.certificate index.graph index).allHold := by
  have wellFormed := described.graph_wellFormed
  exact PriorityTable.allHold_certificate_iff.mpr ⟨belongs.ranksEvery wellFormed,
    belongs.followsPaths wellFormed, described.keepsDeclarationOrder belongs⟩

end Index.Describes

end ReactorCausality
