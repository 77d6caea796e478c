import ReactorCausality.Proofs.Cycle
import ReactorCausality.Proofs.Priority.Table

/-!
Priorities respect the flow of data as the program states it: a reaction that writes what another
one reads at the same tag runs before it, however many reactors the value passes through, and the
ordered reactions of a reactor run in the order of their declarations.
-/
namespace ReactorCausality

open Relation

namespace Program

/-- A connection that is neither physical nor delayed leads from one port to another. -/
def Carries (program : Program) (source target : PortId) : Prop :=
  ∃ connection ∈ program.connections, connection.isPhysical = false ∧ connection.delay = none ∧
    connection.source = source ∧ connection.target = target

/-- The program says that one reaction runs before another at the same tag. -/
inductive RunsBefore (program : Program) : Reaction → Reaction → Prop where
  | dataFlow {writer reader : Reaction} {source target : PortId}
      (isWriter : writer ∈ program.reactions) (isReader : reader ∈ program.reactions)
      (written : source ∈ writer.writtenPorts) (read : target ∈ reader.readPorts)
      (carried : ReflTransGen program.Carries source target) : program.RunsBefore writer reader
  /-- Both are ordered reactions of a reactor, and the one is declared first. -/
  | declared {reactor : Reactor} {first second : Reaction} {earlier later : Nat}
      (inside : reactor ∈ program.reactors) (isFirst : reactor.reactions[earlier]? = some first)
      (isSecond : reactor.reactions[later]? = some second) (less : earlier < later)
      (ordered : first.isUnordered = false) (orderedToo : second.isUnordered = false) :
      program.RunsBefore first second

variable {program : Program}

theorem precedes_of_carries {source target : PortId} (carries : program.Carries source target) :
    program.Precedes (.port source) (.port target) := by
  obtain ⟨connection, declared, logical, immediate, rfl, rfl⟩ := carries
  exact .carries declared (by simp [Connection.isZeroDelay, Connection.break?, logical, immediate])

/-- What runs before something else also comes before it among everything that the program
orders. -/
theorem precedes_of_runsBefore {first second : Reaction} (before : program.RunsBefore first second) :
    TransGen program.Precedes (.reaction first.id) (.reaction second.id) := by
  cases before with
  | dataFlow isWriter isReader written read carried =>
    have passes : ReflTransGen program.Precedes (.port _) (.port _) :=
      carried.lift NodeKind.port fun _ _ => precedes_of_carries
    exact (TransGen.head' (.writes isWriter written) passes).tail (.reads isReader read)
  | @declared reactor _ _ earlier later inside isFirst isSecond less ordered orderedToo =>
    have pairwise := program.pairwise_precedes inside
    rw [Reaction.orderedIds, List.pairwise_map, List.pairwise_filter] at pairwise
    obtain ⟨earlierLess, rfl⟩ := List.getElem?_eq_some_iff.mp isFirst
    obtain ⟨laterLess, rfl⟩ := List.getElem?_eq_some_iff.mp isSecond
    exact List.pairwise_iff_getElem.mp pairwise earlier later earlierLess laterLess less
      (by simp [ordered]) (by simp [orderedToo])

end Program

variable {program : Program} {index : Index}

namespace Index.Describes

variable (described : index.Describes program)
include described

/-- In the priorities of a program, every rank below the number of reactions is given out once. -/
theorem perm_ranks {table : PriorityTable} (belongs : table.BelongsTo index.graph) :
    (program.reactions.map fun reaction => table.rank? reaction.id).Perm
      ((List.range program.reactions.length).map some) := by
  have ranks := belongs.perm_ranks described.graph_wellFormed
  have size : table.size = program.reactions.length := by
    simpa using ranks.length_eq.symm.trans (described.perm_reactions.map table.rank?).length_eq
  rw [size] at ranks
  rw [← Function.comp_def table.rank?, ← List.map_map]
  exact (described.perm_reactions.symm.map table.rank?).trans ranks

theorem runsBefore_of_precedes {table : PriorityTable} (belongs : table.BelongsTo index.graph)
    {first second : ReactionId}
    (precedes : TransGen program.Precedes (.reaction first) (.reaction second)) :
    table.RunsBefore first second := by
  obtain ⟨declared, declaredToo⟩ := described.declares_of_precedes precedes
  exact belongs.runsBefore described.graph_wellFormed (described.reaches_of_precedes precedes)
    (described.reactionAt?_position declared) (described.reactionAt?_position declaredToo)

end Index.Describes

/-- A program without a zero-delay cycle gets priorities. Every reaction gets a rank of its own below
their number, and whatever the program says about the order of its reactions, step by step, holds
for ranks and levels. -/
theorem priorities_respect_dataFlow (accepted : Index.build program = .ok index)
    (acyclic : index.graph.cycles.isAcyclic) : ∃ table, index.graph.priorities = .ok table ∧
      (program.reactions.map fun reaction => table.rank? reaction.id).Perm
        ((List.range program.reactions.length).map some) ∧
      ∀ first second, TransGen program.RunsBefore first second →
        table.RunsBefore first.id second.id := by
  have described := (Index.build_eq_ok_iff program index).mp accepted
  have wellFormed := described.graph_wellFormed
  obtain ⟨table, assigned⟩ :=
    wellFormed.exists_priorities_iff.mpr (wellFormed.isAcyclic_cycles_iff.mp acyclic)
  have belongs := wellFormed.belongsTo_of_priorities assigned
  refine ⟨table, assigned, described.perm_ranks belongs, fun first second before => ?_⟩
  refine described.runsBefore_of_precedes belongs ?_
  induction before with
  | single before => exact Program.precedes_of_runsBefore before
  | tail _ before ih => exact ih.trans (Program.precedes_of_runsBefore before)

/-- A value goes from a source through the input of a composite reactor to a relay inside it. -/
def Program.nestedRelay : Program where
  main :=
    { id := ⟨0⟩, name := "main"
      children := [
        { id := ⟨1⟩, name := "source", ports := [⟨⟨0⟩, "out", .output⟩]
          reactions := [
            { id := ⟨0⟩, index := 0, triggers := [.startup], effects := [.port ⟨0⟩] }] },
        { id := ⟨2⟩, name := "outer", ports := [⟨⟨1⟩, "in", .input⟩]
          children := [.relay ⟨3⟩ "inner" ⟨2⟩ ⟨3⟩ ⟨1⟩]
          connections := [{ id := ⟨1⟩, source := ⟨1⟩, target := ⟨2⟩ }] }]
      connections := [{ id := ⟨0⟩, source := ⟨0⟩, target := ⟨1⟩ }] }

theorem priorities_respect_dataFlow_nestedRelay : ∃ index,
    Index.build Program.nestedRelay = .ok index ∧ index.graph.cycles.isAcyclic ∧
      ∃ table, index.graph.priorities = .ok table ∧ table.RunsBefore ⟨0⟩ ⟨1⟩ := by
  have accepted : Index.build Program.nestedRelay = .ok _ := rfl
  have wellFormed := ((Index.build_eq_ok_iff _ _).mp accepted).graph_wellFormed
  have acyclic := wellFormed.isAcyclic_cycles_iff.mpr
    (DependencyGraph.acyclic_of_edges_lt [0, 1, 2, 4, 3, 5].idxOf (by decide))
  obtain ⟨table, assigned, -, ordered⟩ := priorities_respect_dataFlow accepted acyclic
  have enters : Program.nestedRelay.Carries ⟨0⟩ ⟨1⟩ :=
    ⟨{ id := ⟨0⟩, source := ⟨0⟩, target := ⟨1⟩ }, by decide, rfl, rfl, rfl, rfl⟩
  have descends : Program.nestedRelay.Carries ⟨1⟩ ⟨2⟩ :=
    ⟨{ id := ⟨1⟩, source := ⟨1⟩, target := ⟨2⟩ }, by decide, rfl, rfl, rfl, rfl⟩
  have before : Program.nestedRelay.RunsBefore
      { id := ⟨0⟩, index := 0, triggers := [.startup], effects := [.port ⟨0⟩] }
      { id := ⟨1⟩, index := 0, triggers := [.port ⟨2⟩], effects := [.port ⟨3⟩] } :=
    .dataFlow (by decide) (by decide) (by decide) (by decide) (.head enters (.single descends))
  exact ⟨_, accepted, acyclic, table, assigned, ordered _ _ (.single before)⟩

end ReactorCausality
