import ReactorCausality.Proofs.Index.Tree

/-!
Which programs are accepted. The survey checks ids while it lays the tree out, without what it has
refused, and references against what it has laid out. Since a program with a repeated id is refused
anyway, the references count only where everything is laid out, and there the index finds exactly
what the tree contains.
-/
namespace ReactorCausality

/-- The reactor has a port with this direction and this id. -/
def Reactor.HasPort (reactor : Reactor) (direction : Direction) (id : PortId) : Prop :=
  ∃ port ∈ reactor.ports, port.id = id ∧ port.direction = direction

/-- No id is used twice for entities of one kind, reactions are numbered by their positions, and
what is referred to is declared within reach. -/
@[mk_iff]
structure Program.WellFormed (program : Program) : Prop where
  reactorIds : (program.reactors.map Reactor.id).Nodup
  portIds : (program.ports.map Port.id).Nodup
  reactionIds : (program.reactions.map Reaction.id).Nodup
  connectionIds : (program.connections.map Connection.id).Nodup
  indexes : ∀ reactor ∈ program.reactors, ∀ (position : Nat) (reaction : Reaction),
    reactor.reactions[position]? = some reaction → reaction.index.toNat = position
  reactorModes : ∀ reactor ∈ program.reactors, ∀ child ∈ reactor.children, ∀ mode,
    child.mode = some mode → reactor.DeclaresMode mode
  reactionModes : ∀ reactor ∈ program.reactors, ∀ reaction ∈ reactor.reactions, ∀ mode,
    reaction.mode = some mode → reactor.DeclaresMode mode
  /-- What a reaction reads or writes is somewhere in the program. -/
  touchedPorts : ∀ reaction ∈ program.reactions, ∀ id,
    .port id ∈ reaction.triggers ++ reaction.sources ++ reaction.effects →
      ∃ port ∈ program.ports, port.id = id
  /-- A connection begins at an input of its reactor or an output of a child. -/
  sources : ∀ reactor ∈ program.reactors, ∀ connection ∈ reactor.connections,
    reactor.HasPort .input connection.source ∨
      ∃ child ∈ reactor.children, child.HasPort .output connection.source
  /-- A connection ends at an output of its reactor or an input of a child. -/
  targets : ∀ reactor ∈ program.reactors, ∀ connection ∈ reactor.connections,
    reactor.HasPort .output connection.target ∨
      ∃ child ∈ reactor.children, child.HasPort .input connection.target

namespace Index

variable {index : Index} {program : Program}

/-! ### The ends of connections -/

theorem DistinctIds.port?_eq_some_iff (distinct : index.DistinctIds) {id : PortId}
    {entry : PortEntry} :
    index.port? id = some entry ↔ entry ∈ index.ports ∧ entry.port.id = id :=
  find?_eq_some_iff_of_nodup distinct.ports

namespace LaysOut

variable (laidOut : index.LaysOut program)
include laidOut

theorem mem_ports_iff {entry : PortEntry} : entry ∈ index.ports ↔
    ∃ owner ∈ index.reactors, ∃ port ∈ owner.reactor.ports,
      entry = ⟨port, owner.reactor.id, s!"{owner.name}.{port.name}"⟩ := by
  simp only [laidOut.ports, ReactorEntry.ports, List.mem_flatMap, List.mem_map, eq_comm]

theorem mem_connections_iff {entry : ConnectionEntry} : entry ∈ index.connections ↔
    ∃ container ∈ index.reactors, ∃ connection ∈ container.reactor.connections,
      entry = ⟨connection, container.reactor.id⟩ := by
  simp only [laidOut.connections, ReactorEntry.connections, List.mem_flatMap, List.mem_map, eq_comm]

theorem exists_port?_iff_hasPort (distinct : index.DistinctIds) {owner : ReactorEntry}
    (listed : owner ∈ index.reactors) {direction : Direction} {id : PortId} :
    (∃ entry, index.port? id = some entry ∧ entry.owner = owner.reactor.id ∧
      entry.port.direction = direction) ↔ owner.reactor.HasPort direction id := by
  constructor
  · rintro ⟨entry, found, owned, facing⟩
    obtain ⟨inIndex, isPort⟩ := distinct.port?_eq_some_iff.mp found
    obtain ⟨other, otherListed, port, declared, rfl⟩ := laidOut.mem_ports_iff.mp inIndex
    rw [← distinct.entry_injective otherListed listed owned]
    exact ⟨port, declared, isPort, facing⟩
  · rintro ⟨port, declared, isPort, facing⟩
    have inIndex := laidOut.mem_ports_iff.mpr ⟨owner, listed, port, declared, rfl⟩
    exact ⟨_, distinct.port?_eq_some_iff.mpr ⟨inIndex, isPort⟩, rfl, facing⟩

/-- An end of a connection is right if its port faces the way that it has to on the reactor that
declares the connection, or the other way on a child. -/
theorem endProblem?_eq_none_iff (distinct : index.DistinctIds) {container : ReactorEntry}
    (listed : container ∈ index.reactors) (connection : Connection)
    (connectionEnd : ConnectionEnd) :
    let entry : ConnectionEntry := ⟨connection, container.reactor.id⟩
    entry.endProblem? index connectionEnd = none ↔
      container.reactor.HasPort (ConnectionEntry.requiredDirection true connectionEnd)
          (entry.endPort connectionEnd) ∨
        ∃ child ∈ container.reactor.children,
          child.HasPort (ConnectionEntry.requiredDirection false connectionEnd)
            (entry.endPort connectionEnd) := by
  intro entry
  rw [entry.endProblem?_eq_none_iff]
  constructor
  · rintro ⟨port, found, visible, facing⟩
    by_cases own : port.owner = container.reactor.id
    · rw [decide_eq_true own] at facing
      exact .inl ((laidOut.exists_port?_iff_hasPort distinct listed).mp ⟨port, found, own, facing⟩)
    · rw [decide_eq_false own] at facing
      obtain ⟨owner, ownerListed, declared, -, rfl⟩ :=
        laidOut.mem_ports_iff.mp (mem_of_port?_eq_some found).1
      obtain ⟨child, isChild, rfl⟩ := (laidOut.parent?_eq_some_iff distinct listed ownerListed).mp
        (visible.resolve_left own)
      exact .inr ⟨child, isChild,
        (laidOut.exists_port?_iff_hasPort distinct ownerListed).mp ⟨_, found, rfl, facing⟩⟩
  · rintro (own | ⟨child, isChild, has⟩)
    · obtain ⟨port, found, owned, facing⟩ :=
        (laidOut.exists_port?_iff_hasPort distinct listed).mpr own
      exact ⟨port, found, .inl owned, by rw [decide_eq_true owned, facing]⟩
    · have contains : container.Contains (container.ofChild child) := ⟨child, isChild, rfl⟩
      have childListed := laidOut.mem_reactors_of_contains listed contains
      obtain ⟨port, found, owned, facing⟩ :=
        (laidOut.exists_port?_iff_hasPort distinct childListed).mpr has
      have foreign : port.owner ≠ container.reactor.id :=
        owned ▸ laidOut.id_ne_of_contains distinct listed contains
      refine ⟨port, found, .inr ?_, by rw [decide_eq_false foreign, facing]⟩
      rw [owned]
      exact (laidOut.parent?_eq_some_iff distinct listed childListed).mpr contains

/-! ### Positions and references -/

theorem wellPlaced_iff : (∀ entry ∈ index.reactors, entry.WellPlaced) ↔
    ∀ reactor ∈ program.reactors, ∀ (position : Nat) (reaction : Reaction),
      reactor.reactions[position]? = some reaction → reaction.index.toNat = position := by
  rw [← laidOut.map_reactors, List.forall_mem_map]
  refine forall₂_congr fun entry _ => ?_
  simp only [ReactorEntry.WellPlaced, List.mem_zipIdx_iff_getElem?, Prod.forall]
  exact forall_comm

theorem reactor_problems_eq_nil_iff : (∀ entry ∈ index.reactors, entry.problems index = []) ↔
    (∀ reactor ∈ program.reactors, ∀ child ∈ reactor.children, ∀ mode,
      child.mode = some mode → reactor.DeclaresMode mode) ∧
    (∀ reactor ∈ program.reactors, ∀ reaction ∈ reactor.reactions, ∀ mode,
      reaction.mode = some mode → reactor.DeclaresMode mode) ∧
    ∀ reaction ∈ program.reactions, ∀ id,
      .port id ∈ reaction.triggers ++ reaction.sources ++ reaction.effects →
        ∃ port ∈ program.ports, port.id = id := by
  simp only [Program.reactions, List.forall_mem_flatMap, ← laidOut.map_reactors,
    List.forall_mem_map]
  simp only [ReactorEntry.problems, List.append_eq_nil_iff, List.flatMap_eq_nil_iff,
    ReactorEntry.childProblems_eq_nil_iff, ReactorEntry.reactionProblems_eq_nil_iff,
    Reaction.mem_touched_iff, laidOut.isSome_port?_iff, List.mem_map, forall_and]

theorem connection_problems_eq_nil_iff (distinct : index.DistinctIds) :
    (∀ entry ∈ index.connections, entry.problems index = []) ↔
      (∀ reactor ∈ program.reactors, ∀ connection ∈ reactor.connections,
        reactor.HasPort .input connection.source ∨
          ∃ child ∈ reactor.children, child.HasPort .output connection.source) ∧
      ∀ reactor ∈ program.reactors, ∀ connection ∈ reactor.connections,
        reactor.HasPort .output connection.target ∨
          ∃ child ∈ reactor.children, child.HasPort .input connection.target := by
  have problems {container : ReactorEntry} (listed : container ∈ index.reactors)
      (connection : Connection) :=
    ConnectionEntry.problems_eq_nil_iff.trans
      (and_congr (laidOut.endProblem?_eq_none_iff distinct listed connection .source)
        (laidOut.endProblem?_eq_none_iff distinct listed connection .target))
  simp only [← forall_and, ← laidOut.map_reactors, List.forall_mem_map]
  constructor
  · intro none container listed connection declared
    exact (problems listed connection).mp
      (none _ (laidOut.mem_connections_iff.mpr ⟨container, listed, connection, declared, rfl⟩))
  · intro inReach entry member
    obtain ⟨container, listed, connection, declared, rfl⟩ := laidOut.mem_connections_iff.mp member
    exact (problems listed connection).mpr (inReach container listed connection declared)

end LaysOut

end Index

/-- The survey of a program finds no problem exactly if the program is well-formed. -/
theorem accepted_iff_wellFormed (program : Program) :
    (∃ index, Index.build program = .ok index) ↔ program.WellFormed := by
  have laidOut := (Index.laysOut_iff (.ofProgram program) program).mpr rfl
  calc (∃ index, Index.build program = .ok index)
      ↔ (Index.ofProgram program).DistinctIds ∧
          (∀ entry ∈ (Index.ofProgram program).reactors, entry.WellPlaced) ∧
          (Index.ofProgram program).referenceProblems = [] := by
        simp only [Index.build_eq_ok_iff, Index.describes_iff, exists_eq_left, laidOut.reactors]
    _ ↔ (Index.ofProgram program).DistinctIds ∧
          (∀ entry ∈ (Index.ofProgram program).reactors, entry.WellPlaced) ∧
          (∀ entry ∈ (Index.ofProgram program).reactors,
            entry.problems (.ofProgram program) = []) ∧
          ∀ entry ∈ (Index.ofProgram program).connections,
            entry.problems (.ofProgram program) = [] := by
        simp only [Index.referenceProblems, List.append_eq_nil_iff, List.flatMap_eq_nil_iff]
    _ ↔ program.WellFormed := by
        rw [program.wellFormed_iff, laidOut.wellPlaced_iff, laidOut.reactor_problems_eq_nil_iff]
        -- a port is looked up by its id, so repeated ids have to be out of the way
        rw [and_congr_right fun distinct => and_congr_right fun _ => and_congr_right fun _ =>
          laidOut.connection_problems_eq_nil_iff distinct]
        rw [laidOut.distinctIds_iff]
        simp only [and_assoc]

end ReactorCausality
