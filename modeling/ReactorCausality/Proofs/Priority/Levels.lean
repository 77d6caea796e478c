import ReactorCausality.Proofs.Priority.Soundness

/-!
What a certificate proves of levels. They are compared along the edges between two reactions, so they
rise along every zero-delay path that meets no port (`levelsBelow_of_certificate`). Nothing is
compared across a port: a table that was assigned to another graph can pass and have no higher level
behind a port than in front of it.
-/
namespace ReactorCausality

open DependencyGraph Relation

/-- A zero-delay edge leads from one reaction to another. -/
def DependencyGraph.OrderStep (graph : DependencyGraph) (source target : Nat) : Prop :=
  graph.Step source target ∧ (graph.reactionAt? source).isSome ∧ (graph.reactionAt? target).isSome

namespace PriorityTable

variable {table : PriorityTable}

theorem LevelsBelow.trans {first second third : ReactionId}
    (before : table.LevelsBelow first second) (after : table.LevelsBelow second third) :
    table.LevelsBelow first third := by
  obtain ⟨low, middle, lowest, levelled, less⟩ := before
  obtain ⟨middleToo, high, levelledToo, highest, lessToo⟩ := after
  obtain rfl : middle = middleToo := Option.some.inj (levelled.symm.trans levelledToo)
  exact ⟨low, high, lowest, highest, Nat.lt_trans less lessToo⟩

variable {graph : DependencyGraph} (wellFormed : graph.WellFormed)
  (ranked : table.ranksEvery graph)
include ranked

theorem exists_level? {node : Nat} {id : ReactionId} (less : node < graph.nodes.length)
    (isReaction : graph.reactionAt? node = some id) : ∃ level, table.level? id = some level := by
  obtain ⟨-, present, -⟩ := ranksEvery_iff.mp ranked
  have listed : id ∈ graph.reactions.map Prod.snd := by
    rw [map_snd_reactions]
    exact List.mem_filterMap.mpr ⟨node, List.mem_range.mpr less, isReaction⟩
  obtain ⟨priority, found⟩ := Option.isSome_iff_exists.mp (present id listed)
  exact ⟨priority.level, by rw [level?, found, Option.map_some]⟩

variable (followed : table.followsPaths graph) {source target : Nat}
include wellFormed followed

theorem levelsBelow_of_step {first second : ReactionId} (step : graph.Step source target)
    (isFirst : graph.reactionAt? source = some first)
    (isSecond : graph.reactionAt? target = some second) : table.LevelsBelow first second := by
  obtain ⟨-, -, -, rises⟩ := followsPaths_iff.mp followed
  obtain ⟨low, isLow⟩ := exists_level? ranked (wellFormed.step_source_lt step) isFirst
  obtain ⟨high, isHigh⟩ := exists_level? ranked (wellFormed.step_target_lt step) isSecond
  have less := rises source target first second step isFirst isSecond
  rw [isLow, isHigh] at less
  exact ⟨low, high, isLow, isHigh, by simpa [levelBelow] using less⟩

theorem levelsBelow_of_certificate (passes : TransGen graph.OrderStep source target)
    {first second : ReactionId} (isFirst : graph.reactionAt? source = some first)
    (isSecond : graph.reactionAt? target = some second) : table.LevelsBelow first second := by
  induction passes generalizing second with
  | single step => exact levelsBelow_of_step wellFormed ranked followed step.1 isFirst isSecond
  | tail _ step ih =>
    obtain ⟨middle, isMiddle⟩ := Option.isSome_iff_exists.mp step.2.1
    exact (ih isMiddle).trans
      (levelsBelow_of_step wellFormed ranked followed step.1 isMiddle isSecond)

end PriorityTable

/-- If a certificate holds throughout, levels rise along every zero-delay path of the graph that meets
no port, and along one that meets ports if the graph to which the table was assigned has a path
between the same reactions too. -/
theorem certified_levels_rise {tabled : DependencyGraph} {table : PriorityTable}
    {program : Program} {index : Index} (tabledWellFormed : tabled.WellFormed)
    (assigned : tabled.priorities = .ok table) (accepted : Index.build program = .ok index)
    (holds : (table.certificate index.graph index).allHold) {source target : Nat}
    {first second : ReactionId} (isFirst : index.graph.reactionAt? source = some first)
    (isSecond : index.graph.reactionAt? target = some second)
    (passes : TransGen index.graph.OrderStep source target ∨
      ∃ before after, tabled.reactionAt? before = some first ∧
        tabled.reactionAt? after = some second ∧ tabled.Reaches before after) :
    table.LevelsBelow first second := by
  have wellFormed := ((Index.build_eq_ok_iff program index).mp accepted).graph_wellFormed
  obtain ⟨ranked, followed, -⟩ := PriorityTable.allHold_certificate_iff.mp holds
  rcases passes with passes | ⟨before, after, isBefore, isAfter, reaches⟩
  · exact PriorityTable.levelsBelow_of_certificate wellFormed ranked followed passes isFirst isSecond
  · exact (tabledWellFormed.belongsTo_of_priorities assigned).level_lt tabledWellFormed reaches
      isBefore isAfter

theorem PriorityTable.allHold_lateHandover :
    (lateHandover.certificate Index.handover.graph Index.handover).allHold := by
  decide +kernel

theorem certified_levels_rise_handover : Index.lateHandover.graph.WellFormed ∧
    Index.lateHandover.graph.priorities = .ok .lateHandover ∧
    Index.build (.handover none) = .ok .handover ∧
    (PriorityTable.lateHandover.certificate Index.handover.graph Index.handover).allHold ∧
    TransGen Index.handover.graph.OrderStep 2 4 ∧
    PriorityTable.lateHandover.LevelsBelow ⟨1⟩ ⟨2⟩ := by
  have step : Index.handover.graph.OrderStep 2 4 :=
    ⟨mem_successors_iff.mp (by decide), rfl, rfl⟩
  exact ⟨Index.wellFormed_lateHandover, Index.priorities_lateHandover, Index.build_handover,
    PriorityTable.allHold_lateHandover, .single step,
    certified_levels_rise Index.wellFormed_lateHandover Index.priorities_lateHandover
      Index.build_handover PriorityTable.allHold_lateHandover rfl rfl (.inl (.single step))⟩

/-- The priorities of a program with a delayed connection have a certificate that holds throughout for
the program without the delay. What receives is at the level of what sends, though a zero-delay path
leads from the one to the other. -/
theorem level_not_certified_handover : ∃ (tabled : Index) (index : Index) (table : PriorityTable)
    (source target : Nat) (first second : ReactionId),
    Index.build (.handover (some ⟨1000000⟩)) = .ok tabled ∧ tabled.graph.cycles.isAcyclic ∧
      tabled.graph.priorities = .ok table ∧ Index.build (.handover none) = .ok index ∧
      (table.certificate index.graph index).allHold ∧
      index.graph.reactionAt? source = some first ∧
      index.graph.reactionAt? target = some second ∧ index.graph.Reaches source target ∧
      table.level? first = some 0 ∧ table.level? second = some 0 ∧
      ¬ table.LevelsBelow first second := by
  have wellFormed := Index.wellFormed_lateHandover
  have acyclic := wellFormed.isAcyclic_cycles_iff.mpr
    (wellFormed.exists_priorities_iff.mp ⟨_, Index.priorities_lateHandover⟩)
  have notBelow : ¬ PriorityTable.lateHandover.LevelsBelow ⟨0⟩ ⟨1⟩ := by
    rintro ⟨low, high, isLow, isHigh, less⟩
    cases isLow
    cases isHigh
    exact Nat.lt_irrefl 0 less
  exact ⟨_, _, _, 0, 2, ⟨0⟩, ⟨1⟩, Index.build_lateHandover, acyclic, Index.priorities_lateHandover,
    Index.build_handover, PriorityTable.allHold_lateHandover, rfl, rfl, Index.reaches_handover, rfl,
    rfl, notBelow⟩

end ReactorCausality
