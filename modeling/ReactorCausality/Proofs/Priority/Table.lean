import ReactorCausality.Proofs.Index.Contents
import ReactorCausality.Proofs.Priority.Placement

/-!
What a table of priorities says. There is one exactly if the zero-delay view has no cycle, and then
it places every node in its turn, ranks the reactions as their nodes are placed, and follows every
zero-delay path with ranks and levels.
-/
namespace ReactorCausality

open DependencyGraph Placement

/-- A table ranks the reactions of a graph by an order of its nodes in which every zero-delay edge
leads forward. -/
structure PriorityTable.Follows (table : PriorityTable) (graph : DependencyGraph) : Prop where
  placed : table.nodeOrder.Perm (List.range graph.nodes.length)
  forward : ∀ source target, graph.Step source target →
    table.nodeOrder.idxOf source < table.nodeOrder.idxOf target
  reactions : table.entries.map PriorityEntry.reaction =
    table.nodeOrder.filterMap graph.reactionAt?
  ranks : table.entries.map (fun entry => entry.priority.rank) = List.range table.size

/-- A table of priorities belongs to a graph. -/
structure PriorityTable.BelongsTo (table : PriorityTable) (graph : DependencyGraph) : Prop
    extends table.Follows graph where
  turns : graph.InTurn table.nodeOrder
  levels : ∃ level : Nat → Nat, (∀ node, IsLevel graph table.nodeOrder level node) ∧
    ∀ node ∈ table.nodeOrder, ∀ reaction ∈ graph.reactionAt? node,
      ∃ entry ∈ table.entries, entry.reaction = reaction ∧ entry.priority.level = level node

/-- One reaction has a smaller rank than another. -/
def PriorityTable.RanksBelow (table : PriorityTable) (first second : ReactionId) : Prop :=
  ∃ low high, table.rank? first = some low ∧ table.rank? second = some high ∧ low < high

/-- One reaction has a lower level than another. -/
def PriorityTable.LevelsBelow (table : PriorityTable) (first second : ReactionId) : Prop :=
  ∃ low high, table.level? first = some low ∧ table.level? second = some high ∧ low < high

/-- One reaction comes before another, both by rank and by level. -/
def PriorityTable.RunsBefore (table : PriorityTable) (first second : ReactionId) : Prop :=
  ∃ low high, table.get? first = some low ∧ table.get? second = some high ∧
    low.rank < high.rank ∧ low.level < high.level

variable {graph : DependencyGraph}

namespace DependencyGraph

def placement (graph : DependencyGraph) : Placement :=
  Placement.run graph graph.nodes.length (Placement.start graph)

theorem priorities_eq (graph : DependencyGraph) : graph.priorities =
    if graph.nodes.length ≤ graph.placement.order.length then
      .ok ⟨graph.placement.entries, graph.placement.order⟩
    else .error ⟨graph.nodes.length - graph.placement.order.length⟩ := by
  simp only [← Nat.not_lt, ite_not]
  rfl

namespace WellFormed

variable (wellFormed : graph.WellFormed)
include wellFormed

theorem invariant_placement : Placement.Invariant graph graph.placement ∧
    (graph.placement.ready = [] ∨ graph.placement.order.length = graph.nodes.length) := by
  obtain ⟨inv, ended⟩ : Placement.Invariant graph graph.placement ∧ _ :=
    invariant_run wellFormed (invariant_start wellFormed)
  exact ⟨inv, ended.imp_right fun length => length.trans (Nat.zero_add _)⟩

theorem perm_order_iff : graph.placement.order.Perm (List.range graph.nodes.length) ↔
    graph.nodes.length ≤ graph.placement.order.length := by
  obtain ⟨inv, -⟩ := wellFormed.invariant_placement
  constructor
  · intro perm
    rw [perm.length_eq, List.length_range]
  · intro all
    refine (inv.distinct.subperm fun node placed => ?_).perm_of_length_le (by simpa using all)
    exact List.mem_range.mpr (inv.turns.lt_of_mem placed)

theorem ready_placement : graph.placement.ready = [] := by
  obtain ⟨inv, none | all⟩ := wellFormed.invariant_placement
  · exact none
  · have perm := wellFormed.perm_order_iff.mpr (Nat.le_of_eq all.symm)
    rw [inv.ready, List.eq_nil_iff_forall_not_mem]
    intro node isReady
    obtain ⟨less, notPlaced, -⟩ := mem_available_iff.mp isReady
    exact notPlaced (perm.mem_iff.mpr (List.mem_range.mpr less))

/-- The nodes that are placed in the end are those that are not behind a cycle. -/
theorem mem_order_iff {node : Nat} : node ∈ graph.placement.order ↔
    node < graph.nodes.length ∧ ¬ graph.BehindCycle node := by
  obtain ⟨inv, -⟩ := wellFormed.invariant_placement
  constructor
  · intro placed
    exact ⟨inv.turns.lt_of_mem placed, inv.turns.not_behindCycle placed⟩
  · rintro ⟨less, free⟩
    refine wellFormed.induction_of_not_behindCycle (fun node less closed => ?_) node less free
    -- a node whose predecessors are all placed would be ready
    by_contra notPlaced
    have isReady := mem_available_iff.mpr ⟨less, notPlaced, closed⟩
    rw [← inv.ready, wellFormed.ready_placement] at isReady
    exact List.not_mem_nil isReady

/-- Every node is placed exactly if there is no cycle. -/
theorem length_le_iff_acyclic :
    graph.nodes.length ≤ graph.placement.order.length ↔ graph.Acyclic := by
  obtain ⟨inv, -⟩ := wellFormed.invariant_placement
  rw [← wellFormed.perm_order_iff]
  constructor
  · intro perm node cyclic
    have less := wellFormed.reaches_target_lt cyclic
    have placed := perm.mem_iff.mpr (List.mem_range.mpr less)
    exact (wellFormed.mem_order_iff.mp placed).2 (.of_reaches cyclic)
  · intro acyclic
    refine (List.perm_ext_iff_of_nodup inv.distinct List.nodup_range).mpr fun node => ?_
    rw [wellFormed.mem_order_iff, List.mem_range]
    exact and_iff_left (acyclic.not_behindCycle node)

theorem exists_priorities_iff : (∃ table, graph.priorities = .ok table) ↔ graph.Acyclic := by
  rw [← wellFormed.length_le_iff_acyclic, priorities_eq]
  split <;> simp [*]

theorem belongsTo_of_priorities {table : PriorityTable} (assigned : graph.priorities = .ok table) :
    table.BelongsTo graph := by
  obtain ⟨inv, -⟩ := wellFormed.invariant_placement
  rw [priorities_eq] at assigned
  split at assigned
  · next all =>
    cases assigned
    have placed := wellFormed.perm_order_iff.mpr all
    exact
      { placed
        forward := fun source target step => inv.turns.idxOf_lt step
          (placed.mem_iff.mpr (List.mem_range.mpr (wellFormed.step_target_lt step)))
        turns := inv.turns
        reactions := inv.reactions
        ranks := inv.ranks
        levels := ⟨graph.placement.level, inv.levels, inv.entries⟩ }
  · contradiction

end WellFormed

end DependencyGraph

namespace PriorityTable.Follows

variable {table : PriorityTable} (follows : table.Follows graph) (wellFormed : graph.WellFormed)
  {source target : Nat} (reaches : graph.Reaches source target)
include follows

theorem mem_nodeOrder_iff {node : Nat} : node ∈ table.nodeOrder ↔ node < graph.nodes.length := by
  rw [follows.placed.mem_iff, List.mem_range]

theorem perm_reactions :
    (table.entries.map PriorityEntry.reaction).Perm (graph.reactions.map Prod.snd) := by
  rw [follows.reactions, map_snd_reactions]
  exact follows.placed.filterMap _

theorem rank_eq_of_getElem? {entry : PriorityEntry} {position : Nat}
    (found : table.entries[position]? = some entry) : entry.priority.rank = position := by
  have less : position < table.size := (List.getElem?_eq_some_iff.mp found).1
  have ranked : (table.entries.map fun entry => entry.priority.rank)[position]? =
      (List.range table.size)[position]? := by rw [follows.ranks]
  rw [List.getElem?_map, found, List.getElem?_range less] at ranked
  exact Option.some.inj ranked

include reaches in
theorem idxOf_lt : table.nodeOrder.idxOf source < table.nodeOrder.idxOf target := by
  have less : Relation.TransGen (fun first second : Nat => first < second)
      (table.nodeOrder.idxOf source) (table.nodeOrder.idxOf target) :=
    reaches.lift _ follows.forward
  rwa [Relation.transGen_eq_self] at less

include wellFormed

theorem nodup_reactions : (table.entries.map PriorityEntry.reaction).Nodup :=
  follows.perm_reactions.nodup_iff.mpr wellFormed.nodup_reactions

theorem get?_of_mem {entry : PriorityEntry} (member : entry ∈ table.entries) :
    table.get? entry.reaction = some entry.priority := by
  rw [get?, Index.find?_of_mem (follows.nodup_reactions wellFormed) member, Option.map_some]

theorem isSome_get? {reaction : ReactionId} (member : reaction ∈ graph.reactions.map Prod.snd) :
    (table.get? reaction).isSome := by
  obtain ⟨entry, listed, rfl⟩ := List.mem_map.mp (follows.perm_reactions.mem_iff.mpr member)
  rw [follows.get?_of_mem wellFormed listed, Option.isSome_some]

/-- Every rank below the number of entries is given out once. -/
theorem perm_ranks : ((graph.reactions.map Prod.snd).map table.rank?).Perm
    ((List.range table.size).map some) := by
  have ranks : (table.entries.map PriorityEntry.reaction).map table.rank? =
      (List.range table.size).map some := by
    rw [← follows.ranks, List.map_map, List.map_map]
    refine List.map_congr_left fun entry member => ?_
    simp [rank?, follows.get?_of_mem wellFormed member]
  rw [← ranks]
  exact follows.perm_reactions.symm.map _

/-- The rank of a reaction is its place among the reactions as their nodes are placed. -/
theorem rank?_eq_some_iff {reaction : ReactionId} {rank : Nat} :
    table.rank? reaction = some rank ↔
      (table.nodeOrder.filterMap graph.reactionAt?)[rank]? = some reaction := by
  rw [← follows.reactions, List.getElem?_map, Option.map_eq_some_iff]
  constructor
  · intro ranked
    obtain ⟨priority, hasPriority, rfl⟩ := Option.map_eq_some_iff.mp ranked
    obtain ⟨entry, isFirst, rfl⟩ := Option.map_eq_some_iff.mp hasPriority
    obtain ⟨position, found⟩ := List.mem_iff_getElem?.mp (List.mem_of_find?_eq_some isFirst)
    rw [follows.rank_eq_of_getElem? found]
    exact ⟨entry, found, by simpa using List.find?_some isFirst⟩
  · rintro ⟨entry, found, rfl⟩
    rw [rank?, follows.get?_of_mem wellFormed (List.mem_of_getElem? found), Option.map_some,
      follows.rank_eq_of_getElem? found]

include reaches in
theorem rank_lt {first second : ReactionId} (isFirst : graph.reactionAt? source = some first)
    (isSecond : graph.reactionAt? target = some second) : table.RanksBelow first second := by
  have less := follows.idxOf_lt reaches
  have placed : target ∈ table.nodeOrder :=
    follows.mem_nodeOrder_iff.mpr (wellFormed.reaches_target_lt reaches)
  obtain ⟨before, after, order_eq, isNew⟩ := List.eq_append_cons_of_mem placed
  have isBefore : source ∈ before := by
    by_contra isAfter
    rw [order_eq, List.idxOf_append_of_notMem isNew, List.idxOf_append_of_notMem isAfter,
      List.idxOf_cons_self] at less
    exact Nat.not_lt_zero _ (Nat.lt_of_add_lt_add_left less)
  have member : first ∈ before.filterMap graph.reactionAt? :=
    List.mem_filterMap.mpr ⟨source, isBefore, isFirst⟩
  obtain ⟨low, found⟩ := List.mem_iff_getElem?.mp member
  have low_lt : low < (before.filterMap graph.reactionAt?).length :=
    (List.getElem?_eq_some_iff.mp found).1
  refine ⟨low, (before.filterMap graph.reactionAt?).length, ?_, ?_, low_lt⟩
  · rw [follows.rank?_eq_some_iff wellFormed, order_eq, List.filterMap_append,
      List.getElem?_append_left low_lt, found]
  · rw [follows.rank?_eq_some_iff wellFormed, order_eq, List.filterMap_append,
      List.getElem?_append_right (Nat.le_refl _), List.filterMap_cons, isSecond]
    simp

end PriorityTable.Follows

namespace PriorityTable.BelongsTo

variable {table : PriorityTable} (belongs : table.BelongsTo graph) (wellFormed : graph.WellFormed)
include belongs wellFormed

/-- The level of a reaction is that of its node. -/
theorem exists_level : ∃ level : Nat → Nat,
    (∀ source target, graph.Step source target →
      level source + graph.weight source ≤ level target) ∧
    (∀ node, level node = 0 ∨ ∃ source, graph.Step source node ∧
      level node = level source + graph.weight source) ∧
    ∀ node reaction, graph.reactionAt? node = some reaction →
      table.level? reaction = some (level node) := by
  obtain ⟨level, isLevel, entries⟩ := belongs.levels
  refine ⟨level, fun source target step => ?_, fun node => ?_, fun node reaction found => ?_⟩
  · exact (isLevel target).bound source (mem_predecessors_iff.mpr step)
      (belongs.mem_nodeOrder_iff.mpr (wellFormed.step_source_lt step))
  · refine (isLevel node).attained.imp_right ?_
    rintro ⟨source, member, -, level_eq⟩
    exact ⟨source, mem_predecessors_iff.mp member, level_eq⟩
  · have placed := belongs.mem_nodeOrder_iff.mpr (lt_of_reactionAt?_eq_some found)
    obtain ⟨entry, member, rfl, level_eq⟩ := entries node placed reaction found
    rw [level?, belongs.get?_of_mem wellFormed member, Option.map_some, level_eq]

variable {source target : Nat} (reaches : graph.Reaches source target)
include reaches

theorem level_lt {first second : ReactionId} (isFirst : graph.reactionAt? source = some first)
    (isSecond : graph.reactionAt? target = some second) : table.LevelsBelow first second := by
  obtain ⟨level, rises, -, level?_eq⟩ := belongs.exists_level wellFormed
  have carried : level source + graph.weight source ≤ level target := by
    clear isFirst
    induction reaches using Relation.TransGen.head_induction_on with
    | single step => exact rises _ _ step
    | head step _ ih => exact Nat.le_trans (rises _ _ step) (Nat.le_of_add_right_le ih)
  have isReaction : graph.weight source = 1 := by simp [weight, isFirst]
  rw [isReaction] at carried
  exact ⟨level source, level target, level?_eq source first isFirst,
    level?_eq target second isSecond, carried⟩

/-- What has a zero-delay path to something else runs before it. -/
theorem runsBefore {first second : ReactionId} (isFirst : graph.reactionAt? source = some first)
    (isSecond : graph.reactionAt? target = some second) : table.RunsBefore first second := by
  obtain ⟨lowRank, highRank, ranked, rankedToo, rank_lt⟩ :=
    belongs.rank_lt wellFormed reaches isFirst isSecond
  obtain ⟨lowLevel, highLevel, levelled, levelledToo, level_lt⟩ :=
    belongs.level_lt wellFormed reaches isFirst isSecond
  obtain ⟨low, hasLow, rfl⟩ := Option.map_eq_some_iff.mp ranked
  obtain ⟨high, hasHigh, rfl⟩ := Option.map_eq_some_iff.mp rankedToo
  rw [PriorityTable.level?, hasLow] at levelled
  rw [PriorityTable.level?, hasHigh] at levelledToo
  cases levelled
  cases levelledToo
  exact ⟨low, high, hasLow, hasHigh, rank_lt, level_lt⟩

end PriorityTable.BelongsTo

end ReactorCausality
