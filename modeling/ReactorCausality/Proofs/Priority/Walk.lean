import ReactorCausality.Proofs.Graph.Walk
import ReactorCausality.Proofs.Priority.DataFlow

/-!
Ranks along zero-delay walks. The reactions on a walk run in the order in which they are met, so no
reaction on it runs before the first one (`noLater_of_head?`) or after the last one
(`noLater_of_getLast?`).
-/
namespace ReactorCausality

namespace PriorityTable

/-- One reaction has no larger rank than another. -/
def NoLater (table : PriorityTable) (first second : ReactionId) : Prop :=
  ∃ low high, table.rank? first = some low ∧ table.rank? second = some high ∧ low ≤ high

variable {table : PriorityTable} {first second third : ReactionId}

theorem NoLater.trans (before : table.NoLater first second) (after : table.NoLater second third) :
    table.NoLater first third := by
  obtain ⟨low, middle, lowest, ranked, le⟩ := before
  obtain ⟨middleToo, high, rankedToo, highest, leToo⟩ := after
  obtain rfl : middle = middleToo := Option.some.inj (ranked.symm.trans rankedToo)
  exact ⟨low, high, lowest, highest, Nat.le_trans le leToo⟩

theorem RunsBefore.noLater (before : table.RunsBefore first second) : table.NoLater first second := by
  obtain ⟨low, high, isLow, isHigh, less, -⟩ := before
  exact ⟨low.rank, high.rank, by rw [rank?, isLow, Option.map_some],
    by rw [rank?, isHigh, Option.map_some], Nat.le_of_lt less⟩

namespace BelongsTo

variable {graph : DependencyGraph} (belongs : table.BelongsTo graph) (wellFormed : graph.WellFormed)
include belongs wellFormed

theorem exists_rank? {node : Nat} (isReaction : graph.reactionAt? node = some first) :
    ∃ rank, table.rank? first = some rank := by
  have member : first ∈ table.nodeOrder.filterMap graph.reactionAt? := by
    have placed :=
      belongs.mem_nodeOrder_iff.mpr (DependencyGraph.lt_of_reactionAt?_eq_some isReaction)
    exact List.mem_filterMap.mpr ⟨node, placed, isReaction⟩
  obtain ⟨rank, found⟩ := List.mem_iff_getElem?.mp member
  exact ⟨rank, (belongs.rank?_eq_some_iff wellFormed).mpr found⟩

variable {walk : List Nat}

theorem noLater_self (member : first ∈ graph.reactionsOn walk) : table.NoLater first first := by
  obtain ⟨node, -, isReaction⟩ := List.mem_filterMap.mp member
  obtain ⟨rank, ranked⟩ := belongs.exists_rank? wellFormed isReaction
  exact ⟨rank, rank, ranked, ranked, Nat.le_refl rank⟩

variable {source target : Nat} (isWalk : graph.IsWalk source target walk)
include isWalk

/-- Of two reactions on a walk, the one that is met first runs before the other. -/
theorem pairwise_runsBefore : (graph.reactionsOn walk).Pairwise table.RunsBefore := by
  refine List.pairwise_filterMap.mpr ((DependencyGraph.pairwise_reaches isWalk.steps).imp ?_)
  intro node other reaches first isFirst second isSecond
  exact belongs.runsBefore wellFormed reaches isFirst isSecond

theorem noLater_of_head? (isFirst : (graph.reactionsOn walk).head? = some first)
    (member : second ∈ graph.reactionsOn walk) : table.NoLater first second := by
  have ordered := belongs.pairwise_runsBefore wellFormed isWalk
  obtain ⟨rest, met⟩ := List.head?_eq_some_iff.mp isFirst
  rw [met] at ordered
  rcases List.mem_cons.mp (met ▸ member) with rfl | later
  · exact belongs.noLater_self wellFormed member
  · exact (List.rel_of_pairwise_cons ordered later).noLater

theorem noLater_of_getLast? (isLast : (graph.reactionsOn walk).getLast? = some second)
    (member : first ∈ graph.reactionsOn walk) : table.NoLater first second := by
  have ordered := belongs.pairwise_runsBefore wellFormed isWalk
  obtain ⟨before, met⟩ := List.getLast?_eq_some_iff.mp isLast
  rw [met] at ordered
  rcases List.mem_append.mp (met ▸ member) with earlier | same
  · obtain ⟨-, -, joined⟩ := List.pairwise_append.mp ordered
    exact (joined first earlier second (List.mem_singleton_self second)).noLater
  · obtain rfl := List.mem_singleton.mp same
    exact belongs.noLater_self wellFormed member

end BelongsTo

end PriorityTable

end ReactorCausality
