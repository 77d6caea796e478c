import Mathlib.Order.Bounds.Basic
import ReactorCausality.Proofs.Graph.Walk
import ReactorCausality.Proofs.Priority.Table

/-!
Levels as lengths of chains. The level of a reaction is the number of reactions on a longest zero-delay
path in front of its node: no path carries more (`length_le_level`), and one carries as many
(`exists_chain_of_level`). Going back along that path, every lower level is met (`exists_level_before`).
-/
namespace ReactorCausality

open Relation

namespace DependencyGraph

/-- How many reactions can be met on a zero-delay path before the node in which it ends. -/
def chainLengths (graph : DependencyGraph) (node : Nat) : Set Nat :=
  { count | ∃ before : List Nat,
    (before ++ [node]).IsChain graph.Step ∧ (graph.reactionsOn before).length = count }

variable {graph : DependencyGraph} {source node : Nat} {before : List Nat}

theorem length_reactionsOn_concat : (graph.reactionsOn (before ++ [node])).length =
    (graph.reactionsOn before).length + graph.weight node := by
  simp only [reactionsOn, weight, List.filterMap_append, List.length_append,
    Nat.add_left_cancel_iff]
  cases found : graph.reactionAt? node <;> simp [found]

theorem isChain_concat (steps : (before ++ [source]).IsChain graph.Step)
    (step : graph.Step source node) : (before ++ [source] ++ [node]).IsChain graph.Step := by
  refine List.isChain_append.mpr ⟨steps, List.isChain_singleton node, ?_⟩
  intro last isLast first isFirst
  obtain rfl : source = last := by simpa using isLast
  obtain rfl : node = first := by simpa using isFirst
  exact step

theorem weight_eq_zero_or_one (graph : DependencyGraph) (node : Nat) :
    graph.weight node = 0 ∨ ∃ id, graph.reactionAt? node = some id ∧ graph.weight node = 1 := by
  rw [weight]
  cases graph.reactionAt? node with
  | none => exact .inl rfl
  | some id => exact .inr ⟨id, rfl, rfl⟩

section Levels

variable {level : Nat → Nat}

/-- No path carries more reactions than the level of its end. -/
theorem length_le_level
    (rises : ∀ source target, graph.Step source target →
      level source + graph.weight source ≤ level target)
    (steps : (before ++ [node]).IsChain graph.Step) :
    (graph.reactionsOn before).length ≤ level node := by
  induction before using List.reverseRecOn generalizing node with
  | nil => exact Nat.zero_le _
  | append_singleton before source ih =>
    obtain ⟨earlier, -, joined⟩ := List.isChain_append.mp steps
    have step : graph.Step source node := joined source (by simp) node rfl
    calc (graph.reactionsOn (before ++ [source])).length
        = (graph.reactionsOn before).length + graph.weight source := length_reactionsOn_concat
      _ ≤ level source + graph.weight source := Nat.add_le_add_right (ih earlier) _
      _ ≤ level node := rises source node step

variable (wellFormed : graph.WellFormed) (acyclic : graph.Acyclic)
  (attained : ∀ node, level node = 0 ∨ ∃ source, graph.Step source node ∧
    level node = level source + graph.weight source)
include wellFormed acyclic attained

theorem exists_chain_of_level (less : node < graph.nodes.length) : ∃ before : List Nat,
    (before ++ [node]).IsChain graph.Step ∧ (graph.reactionsOn before).length = level node := by
  refine wellFormed.induction_of_not_behindCycle (motive := fun node => ∃ before : List Nat,
    (before ++ [node]).IsChain graph.Step ∧ (graph.reactionsOn before).length = level node)
    (fun node _ ih => ?_) node less (acyclic.not_behindCycle node)
  rcases attained node with none | ⟨source, step, level_eq⟩
  · exact ⟨[], List.isChain_singleton node, none.symm⟩
  · obtain ⟨before, steps, length_eq⟩ := ih source (mem_predecessors_iff.mpr step)
    refine ⟨before ++ [source], isChain_concat steps step, ?_⟩
    rw [length_reactionsOn_concat, length_eq, level_eq]

/-- The level was carried over ports from a reaction one level below. -/
theorem exists_level_before {count : Nat} (less : node < graph.nodes.length)
    (level_eq : level node = count + 1) : ∃ source previous, graph.Reaches source node ∧
      graph.reactionAt? source = some previous ∧ level source = count := by
  refine wellFormed.induction_of_not_behindCycle (motive := fun node => level node = count + 1 →
    ∃ source previous, graph.Reaches source node ∧ graph.reactionAt? source = some previous ∧
      level source = count)
    (fun node _ ih level_eq => ?_) node less (acyclic.not_behindCycle node) level_eq
  rcases attained node with none | ⟨source, step, carried⟩
  · exact absurd (none.symm.trans level_eq) (Nat.zero_ne_add_one count)
  · rcases graph.weight_eq_zero_or_one source with isPort | ⟨previous, isReaction, one⟩
    · have level_source : level source = count + 1 := by omega
      obtain ⟨first, previous, reaches, found⟩ :=
        ih source (mem_predecessors_iff.mpr step) level_source
      exact ⟨first, previous, reaches.tail step, found⟩
    · exact ⟨source, previous, .single step, isReaction, by omega⟩

end Levels

end DependencyGraph

namespace PriorityTable

open DependencyGraph

/-- A reaction of the graph is at a level. -/
def Inhabits (table : PriorityTable) (graph : DependencyGraph) (level : Nat) : Prop :=
  ∃ node id, graph.reactionAt? node = some id ∧ table.level? id = some level

/-- The levels in a table measure the zero-delay paths of a graph. -/
structure MeasuresChains (table : PriorityTable) (graph : DependencyGraph) : Prop where
  longest : ∀ node id, graph.reactionAt? node = some id →
    ∃ level, table.level? id = some level ∧ IsGreatest (graph.chainLengths node) level
  apart : ∀ source target first second, graph.reactionAt? source = some first →
    graph.reactionAt? target = some second → table.level? first = table.level? second →
      ¬ graph.Reaches source target
  preceded : ∀ node id level, graph.reactionAt? node = some id →
    table.level? id = some (level + 1) → ∃ source previous, graph.Reaches source node ∧
      graph.reactionAt? source = some previous ∧ table.level? previous = some level
  inhabited : ∀ level, table.Inhabits graph level ↔
    ∃ highest, table.maxLevel? = some highest ∧ level ≤ highest

variable {table : PriorityTable} {graph : DependencyGraph}

theorem LevelsBelow.level?_ne {first second : ReactionId} (below : table.LevelsBelow first second) :
    table.level? first ≠ table.level? second := by
  obtain ⟨low, high, isLow, isHigh, less⟩ := below
  rw [isLow, isHigh]
  exact fun same => Nat.ne_of_lt less (Option.some.inj same)

theorem maxLevel?_eq_some_iff {highest : Nat} : table.maxLevel? = some highest ↔
    (∃ entry ∈ table.entries, entry.priority.level = highest) ∧
      ∀ entry ∈ table.entries, entry.priority.level ≤ highest := by
  simp [maxLevel?, List.max?_eq_some_iff]

namespace BelongsTo

variable (belongs : table.BelongsTo graph) (wellFormed : graph.WellFormed)
include belongs wellFormed

theorem inhabits_iff {level : Nat} : table.Inhabits graph level ↔
    ∃ entry ∈ table.entries, entry.priority.level = level := by
  constructor
  · rintro ⟨-, id, -, isLevel⟩
    obtain ⟨priority, found, rfl⟩ := Option.map_eq_some_iff.mp isLevel
    obtain ⟨entry, isFirst, rfl⟩ := Option.map_eq_some_iff.mp found
    exact ⟨entry, List.mem_of_find?_eq_some isFirst, rfl⟩
  · rintro ⟨entry, member, rfl⟩
    have listed := List.mem_map_of_mem (f := PriorityEntry.reaction) member
    rw [belongs.reactions] at listed
    obtain ⟨node, -, isReaction⟩ := List.mem_filterMap.mp listed
    refine ⟨node, entry.reaction, isReaction, ?_⟩
    rw [level?, belongs.get?_of_mem wellFormed member, Option.map_some]

theorem inhabited_iff
    (preceded : ∀ level, table.Inhabits graph (level + 1) → table.Inhabits graph level)
    (level : Nat) : table.Inhabits graph level ↔
      ∃ highest, table.maxLevel? = some highest ∧ level ≤ highest := by
  constructor
  · intro inhabited
    obtain ⟨entry, member, rfl⟩ := (belongs.inhabits_iff wellFormed).mp inhabited
    cases found : table.maxLevel? with
    | none => simp_all [maxLevel?, List.max?_eq_none_iff]
    | some highest => exact ⟨highest, rfl, (maxLevel?_eq_some_iff.mp found).2 entry member⟩
  · rintro ⟨highest, isHighest, le⟩
    have attained := (belongs.inhabits_iff wellFormed).mpr (maxLevel?_eq_some_iff.mp isHighest).1
    exact Nat.decreasingInduction (fun level _ above => preceded level above) attained le

theorem measuresChains (acyclic : graph.Acyclic) : table.MeasuresChains graph := by
  obtain ⟨level, rises, attained, level?_eq⟩ := belongs.exists_level wellFormed
  have preceded (node : Nat) (id : ReactionId) (count : Nat)
      (isReaction : graph.reactionAt? node = some id)
      (isLevel : table.level? id = some (count + 1)) : ∃ source previous,
        graph.Reaches source node ∧ graph.reactionAt? source = some previous ∧
          table.level? previous = some count := by
    have level_eq := Option.some.inj ((level?_eq node id isReaction).symm.trans isLevel)
    obtain ⟨source, previous, reaches, isPrevious, rfl⟩ := exists_level_before wellFormed acyclic
      attained (lt_of_reactionAt?_eq_some isReaction) level_eq
    exact ⟨source, previous, reaches, isPrevious, level?_eq source previous isPrevious⟩
  constructor
  case longest =>
    intro node id isReaction
    refine ⟨level node, level?_eq node id isReaction, ?_, ?_⟩
    · exact exists_chain_of_level wellFormed acyclic attained
        (lt_of_reactionAt?_eq_some isReaction)
    · rintro _ ⟨before, steps, rfl⟩
      exact length_le_level rises steps
  case apart =>
    intro source target first second isFirst isSecond same reaches
    exact (belongs.level_lt wellFormed reaches isFirst isSecond).level?_ne same
  case preceded => exact preceded
  case inhabited =>
    refine belongs.inhabited_iff wellFormed fun count => ?_
    rintro ⟨node, id, isReaction, isLevel⟩
    obtain ⟨source, previous, -, found⟩ := preceded node id count isReaction isLevel
    exact ⟨source, previous, found⟩

end BelongsTo

end PriorityTable

/-- An acyclic graph has priorities; the graphs of programs are all well formed
(`Index.Describes.graph_wellFormed`). The level of a reaction is the largest number of reactions that are
met before it on a zero-delay path to its node. So no path joins two reactions at one level, a reaction
above the lowest level has one right below it on a path to it, and the levels of the reactions are those
up to the highest. -/
theorem levels_measure_chains {graph : DependencyGraph} (wellFormed : graph.WellFormed)
    (acyclic : graph.Acyclic) :
    ∃ table, graph.priorities = .ok table ∧ table.MeasuresChains graph := by
  obtain ⟨table, assigned⟩ := wellFormed.exists_priorities_iff.mpr acyclic
  exact ⟨table, assigned,
    (wellFormed.belongsTo_of_priorities assigned).measuresChains wellFormed acyclic⟩

/-- A reaction writes a port that triggers two others, and these are ordered too. -/
def DependencyGraph.shortcut : DependencyGraph where
  nodes := [⟨.reaction ⟨0⟩, ⟨1⟩, "sender.reaction_0"⟩, ⟨.port ⟨0⟩, ⟨1⟩, "sender.out"⟩,
    ⟨.reaction ⟨1⟩, ⟨2⟩, "receiver.reaction_0"⟩, ⟨.reaction ⟨2⟩, ⟨2⟩, "receiver.reaction_1"⟩]
  edges := [⟨0, 1, .effect⟩, ⟨1, 2, .source⟩, ⟨1, 3, .source⟩, ⟨2, 3, .order⟩]

theorem levels_measure_chains_shortcut : DependencyGraph.shortcut.WellFormed ∧
    DependencyGraph.shortcut.Acyclic ∧ ∃ table,
      DependencyGraph.shortcut.priorities = .ok table ∧ table.level? ⟨2⟩ = some 2 ∧
        IsGreatest (DependencyGraph.shortcut.chainLengths 3) 2 ∧ table.maxLevel? = some 2 ∧
        table.Inhabits .shortcut 1 := by
  have wellFormed : DependencyGraph.shortcut.WellFormed :=
    ⟨by decide, by decide, by decide, by decide⟩
  have acyclic : DependencyGraph.shortcut.Acyclic :=
    DependencyGraph.acyclic_of_edges_lt id (by decide)
  obtain ⟨table, assigned, measures⟩ := levels_measure_chains wellFormed acyclic
  have computed : DependencyGraph.shortcut.priorities = .ok
      ⟨[⟨⟨0⟩, ⟨0, 0⟩⟩, ⟨⟨1⟩, ⟨1, 1⟩⟩, ⟨⟨2⟩, ⟨2, 2⟩⟩], [0, 1, 2, 3]⟩ := by decide
  obtain rfl := Except.ok.inj (computed.symm.trans assigned)
  obtain ⟨level, isLevel, isGreatest⟩ := measures.longest 3 ⟨2⟩ rfl
  obtain rfl : 2 = level := Option.some.inj isLevel
  exact ⟨wellFormed, acyclic, _, assigned, rfl, isGreatest, rfl,
    (measures.inhabited 1).mpr ⟨2, rfl, by decide⟩⟩

end ReactorCausality
