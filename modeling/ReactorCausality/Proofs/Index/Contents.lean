import ReactorCausality.Proofs.Index.Layout

/-!
What an accepted program contains, and how its index finds it: every entry by its id, every port
that a reaction reads or writes, and both ends of every connection, facing different ways.
-/
namespace ReactorCausality

namespace Program

def ports (program : Program) : List Port :=
  program.reactors.flatMap Reactor.ports

def reactions (program : Program) : List Reaction :=
  program.reactors.flatMap Reactor.reactions

def connections (program : Program) : List Connection :=
  program.reactors.flatMap Reactor.connections

def Writes (program : Program) (id : ReactionId) (port : PortId) : Prop :=
  ∃ reaction ∈ program.reactions, reaction.id = id ∧ port ∈ reaction.writtenPorts

def Reads (program : Program) (id : ReactionId) (port : PortId) : Prop :=
  ∃ reaction ∈ program.reactions, reaction.id = id ∧ port ∈ reaction.readPorts

end Program

theorem Trigger.exists_port?_eq_some_iff {triggers : List Trigger} {id : PortId} :
    (∃ trigger ∈ triggers, trigger.port? = some id) ↔ .port id ∈ triggers := by
  have port (trigger : Trigger) : trigger.port? = some id ↔ trigger = .port id := by
    cases trigger <;> simp [port?]
  simp [port]

namespace Reaction

theorem mem_readPorts_iff {reaction : Reaction} {port : PortId} :
    port ∈ reaction.readPorts ↔ .port port ∈ reaction.triggers ++ reaction.sources := by
  rw [readPorts, mem_distinct, List.mem_filterMap]
  exact Trigger.exists_port?_eq_some_iff

theorem mem_writtenPorts_iff {reaction : Reaction} {port : PortId} :
    port ∈ reaction.writtenPorts ↔ .port port ∈ reaction.effects := by
  rw [writtenPorts, mem_distinct, List.mem_filterMap]
  exact Trigger.exists_port?_eq_some_iff

theorem mem_touched_iff {reaction : Reaction} {port : PortId} :
    port ∈ reaction.readPorts ++ reaction.writtenPorts ↔
      .port port ∈ reaction.triggers ++ reaction.sources ++ reaction.effects := by
  rw [List.mem_append, mem_readPorts_iff, mem_writtenPorts_iff, ← List.mem_append]

end Reaction

/-- A mode with this id is declared by the reactor. -/
def Reactor.DeclaresMode (reactor : Reactor) (id : ModeId) : Prop :=
  ∃ mode ∈ reactor.modes, mode.id = id

namespace ReactorEntry

theorem declares_iff {entry : ReactorEntry} {mode : ModeId} :
    entry.declares mode ↔ entry.reactor.DeclaresMode mode := by
  simp [declares, Reactor.DeclaresMode]

theorem childProblems_eq_nil_iff {entry : ReactorEntry} :
    entry.childProblems = [] ↔ ∀ child ∈ entry.reactor.children, ∀ mode, child.mode = some mode →
      entry.reactor.DeclaresMode mode := by
  rw [childProblems, List.filterMap_eq_nil_iff]
  refine forall₂_congr fun child _ => ?_
  cases child.mode with
  | none => simp
  | some mode => simp [← declares_iff]

theorem reactionProblems_eq_nil_iff {entry : ReactorEntry} {index : Index} {reaction : Reaction} :
    entry.reactionProblems index reaction = [] ↔
      (∀ mode, reaction.mode = some mode → entry.reactor.DeclaresMode mode) ∧
      ∀ port ∈ reaction.readPorts ++ reaction.writtenPorts, (index.port? port).isSome := by
  have known (port : PortId) : ¬(index.port? port).isNone ↔ (index.port? port).isSome := by
    simp [Option.isSome_iff_ne_none]
  simp only [reactionProblems, List.append_eq_nil_iff, List.map_eq_nil_iff,
    List.filter_eq_nil_iff, known, List.mem_append, or_imp, forall_and, and_assoc]
  refine and_congr_left fun _ => ?_
  cases reaction.mode with
  | none => simp
  | some mode => simp [← declares_iff]

end ReactorEntry

namespace ConnectionEntry

def endPort (entry : ConnectionEntry) : ConnectionEnd → PortId
  | .source => entry.connection.source
  | .target => entry.connection.target

theorem requiredDirection_ne (isOnContainer : Bool) :
    requiredDirection isOnContainer .source ≠ requiredDirection isOnContainer .target := by
  cases isOnContainer <;> simp [requiredDirection]

theorem problems_eq_nil_iff {entry : ConnectionEntry} {index : Index} :
    entry.problems index = [] ↔
      entry.endProblem? index .source = none ∧ entry.endProblem? index .target = none := by
  simp [problems]

/-- There is nothing wrong with an end if its port is in the index, belongs to the container or
one of its children, and faces the right way. -/
theorem endProblem?_eq_none_iff {index : Index} (entry : ConnectionEntry)
    {connectionEnd : ConnectionEnd} :
    entry.endProblem? index connectionEnd = none ↔
      ∃ port, index.port? (entry.endPort connectionEnd) = some port ∧
        (port.owner = entry.container ∨ index.parent? port.owner = some entry.container) ∧
        port.port.direction =
          requiredDirection (port.owner = entry.container) connectionEnd := by
  cases found : index.port? (entry.endPort connectionEnd) with
  | none =>
    have unknown : entry.endProblem? index connectionEnd =
        some (.unknownEnd entry.connection.id (index.reactorName entry.container)
          (entry.endPort connectionEnd)) := by
      cases connectionEnd <;> simp only [endPort] at found <;> simp [endProblem?, endPort, found]
    simp [unknown]
  | some port =>
    have known : entry.endProblem? index connectionEnd =
        if !decide (port.owner = entry.container)
            && !decide (index.parent? port.owner = some entry.container) then
          some (.invisibleEnd entry.connection.id (index.reactorName entry.container) port.name)
        else if port.port.direction =
            requiredDirection (port.owner = entry.container) connectionEnd then none
        else some (.wrongEnd entry.connection.id (index.reactorName entry.container) port.name
          connectionEnd port.port.direction) := by
      cases connectionEnd <;> simp only [endPort] at found <;> simp only [endProblem?, found]
    rw [known]
    by_cases visible :
        port.owner = entry.container ∨ index.parent? port.owner = some entry.container
    · have : (!decide (port.owner = entry.container)
          && !decide (index.parent? port.owner = some entry.container)) = false := by
        rcases visible with own | child <;> simp [*]
      simp [this, visible]
    · obtain ⟨foreign, noChild⟩ := not_or.mp visible
      simp [foreign, noChild]

end ConnectionEntry

namespace Index

theorem find?_of_mem {α β : Type} [DecidableEq β] {key : α → β} {items : List α}
    (distinct : (items.map key).Nodup) {item : α} (member : item ∈ items) :
    items.find? (fun other => key other = key item) = some item := by
  cases found : items.find? fun other => key other = key item with
  | none => simpa using List.find?_eq_none.mp found item member
  | some other =>
    have same : key other = key item := by simpa using List.find?_some found
    rw [List.inj_on_of_nodup_map distinct (List.mem_of_find?_eq_some found) member same]

theorem find?_eq_some_iff_of_nodup {α β : Type} [DecidableEq β] {key : α → β} {items : List α}
    (distinct : (items.map key).Nodup) {value : β} {item : α} :
    items.find? (fun other => key other = value) = some item ↔ item ∈ items ∧ key item = value := by
  constructor
  · intro found
    exact ⟨List.mem_of_find?_eq_some found, by simpa using List.find?_some found⟩
  · rintro ⟨member, rfl⟩
    exact find?_of_mem distinct member

variable {index : Index} {program : Program}

section Lookup

variable (distinct : index.DistinctIds)
include distinct

theorem DistinctIds.reactor?_of_mem {entry : ReactorEntry} (member : entry ∈ index.reactors) :
    index.reactor? entry.reactor.id = some entry :=
  find?_of_mem distinct.reactors member

theorem DistinctIds.reaction?_of_mem {entry : ReactionEntry} (member : entry ∈ index.reactions) :
    index.reaction? entry.reaction.id = some entry :=
  find?_of_mem distinct.reactions member

theorem DistinctIds.connection?_of_mem {entry : ConnectionEntry}
    (member : entry ∈ index.connections) : index.connection? entry.connection.id = some entry :=
  find?_of_mem distinct.connections member

end Lookup

theorem mem_of_port?_eq_some {id : PortId} {entry : PortEntry} (found : index.port? id = some entry) :
    entry ∈ index.ports ∧ entry.port.id = id :=
  ⟨List.mem_of_find?_eq_some found, by simpa using List.find?_some found⟩

/-! ### The parts of the program -/

namespace LaysOut

variable (laidOut : index.LaysOut program)
include laidOut

theorem map_reactors : index.reactors.map ReactorEntry.reactor = program.reactors := by
  rw [laidOut.reactors, Reactor.map_reactor_entries]
  rfl

theorem map_ports : index.ports.map PortEntry.port = program.ports := by
  rw [Program.ports, ← laidOut.map_reactors, laidOut.ports, List.map_flatMap, List.flatMap_map]
  simp [ReactorEntry.ports, Function.comp_def]

theorem map_reactions : index.reactions.map ReactionEntry.reaction = program.reactions := by
  rw [Program.reactions, ← laidOut.map_reactors, laidOut.reactions, List.map_flatMap,
    List.flatMap_map]
  simp [ReactorEntry.reactions, Function.comp_def]

theorem map_connections :
    index.connections.map ConnectionEntry.connection = program.connections := by
  rw [Program.connections, ← laidOut.map_reactors, laidOut.connections, List.map_flatMap,
    List.flatMap_map]
  simp [ReactorEntry.connections, Function.comp_def]

theorem isSome_port?_iff {id : PortId} :
    (index.port? id).isSome ↔ id ∈ program.ports.map Port.id := by
  rw [← laidOut.map_ports]
  simp [port?]

theorem isSome_reaction?_iff {id : ReactionId} :
    (index.reaction? id).isSome ↔ id ∈ program.reactions.map Reaction.id := by
  rw [← laidOut.map_reactions]
  simp [reaction?]

theorem distinctIds_iff : index.DistinctIds ↔
    (program.reactors.map Reactor.id).Nodup ∧ (program.ports.map Port.id).Nodup ∧
      (program.reactions.map Reaction.id).Nodup ∧ (program.connections.map Connection.id).Nodup := by
  simp [Index.distinctIds_iff, ← laidOut.map_reactors, ← laidOut.map_ports, ← laidOut.map_reactions,
    ← laidOut.map_connections, Function.comp_def]

end LaysOut

namespace Describes

variable (described : index.Describes program)
include described

theorem nodup_reactionIds : (program.reactions.map Reaction.id).Nodup :=
  (described.distinctIds_iff.mp described.distinct).2.2.1

theorem connection_injective {first second : Connection} (left : first ∈ program.connections)
    (right : second ∈ program.connections) (same : first.id = second.id) : first = second := by
  have distinct : (program.connections.map Connection.id).Nodup :=
    (described.distinctIds_iff.mp described.distinct).2.2.2
  exact List.inj_on_of_nodup_map distinct left right same

theorem reactionOwner?_eq {reactor : Reactor} (inside : reactor ∈ program.reactors)
    {reaction : Reaction} (declared : reaction ∈ reactor.reactions) :
    index.reactionOwner? reaction.id = some reactor.id := by
  obtain ⟨entry, listed, rfl⟩ := List.mem_map.mp (described.map_reactors ▸ inside)
  have member : ⟨reaction, entry.reactor.id,
      s!"{entry.name}.reaction_{reaction.index.toNat + 1}"⟩ ∈ index.reactions := by
    rw [described.reactions]
    exact List.mem_flatMap.mpr ⟨entry, listed, List.mem_map_of_mem declared⟩
  have found := described.distinct.reaction?_of_mem member
  rw [reactionOwner?, found, Option.map_some]

/-! ### References -/

theorem reactionProblems_eq_nil {reactor : Reactor} (inside : reactor ∈ program.reactors)
    {reaction : Reaction} (declared : reaction ∈ reactor.reactions) :
    ∃ entry ∈ index.reactors, entry.reactor = reactor ∧
      entry.reactionProblems index reaction = [] := by
  rw [← described.map_reactors] at inside
  obtain ⟨entry, listed, rfl⟩ := List.mem_map.mp inside
  have none := (List.append_eq_nil_iff.mp described.references).1
  have none := (List.append_eq_nil_iff.mp (List.flatMap_eq_nil_iff.mp none entry listed)).2
  exact ⟨entry, listed, rfl, List.flatMap_eq_nil_iff.mp none reaction declared⟩

theorem isSome_port?_of_touched {reaction : Reaction} (member : reaction ∈ program.reactions)
    {port : PortId} (touched : port ∈ reaction.readPorts ++ reaction.writtenPorts) :
    (index.port? port).isSome := by
  obtain ⟨reactor, inside, declared⟩ := List.mem_flatMap.mp member
  obtain ⟨entry, -, -, none⟩ := described.reactionProblems_eq_nil inside declared
  exact (ReactorEntry.reactionProblems_eq_nil_iff.mp none).2 port touched

theorem endProblem?_eq_none {entry : ConnectionEntry} (member : entry ∈ index.connections)
    (connectionEnd : ConnectionEnd) : entry.endProblem? index connectionEnd = none := by
  have none := (List.append_eq_nil_iff.mp described.references).2
  obtain ⟨source, target⟩ :=
    ConnectionEntry.problems_eq_nil_iff.mp (List.flatMap_eq_nil_iff.mp none entry member)
  cases connectionEnd with
  | source => exact source
  | target => exact target

/-- Both ends of a connection are in the index, and the source is not the target: what faces the
right way as the one faces the wrong way as the other. -/
theorem connection_ends {entry : ConnectionEntry} (member : entry ∈ index.connections) :
    (index.port? entry.connection.source).isSome ∧ (index.port? entry.connection.target).isSome ∧
      entry.connection.source ≠ entry.connection.target := by
  obtain ⟨source, foundSource, -, facing⟩ := entry.endProblem?_eq_none_iff.mp
    (described.endProblem?_eq_none member .source)
  obtain ⟨target, foundTarget, -, facingToo⟩ := entry.endProblem?_eq_none_iff.mp
    (described.endProblem?_eq_none member .target)
  simp only [ConnectionEntry.endPort] at foundSource foundTarget
  refine ⟨by simp [foundSource], by simp [foundTarget], ?_⟩
  intro same
  have : source = target := by simpa [same, foundTarget] using foundSource.symm
  subst this
  exact ConnectionEntry.requiredDirection_ne _ (facing.symm.trans facingToo)

end Describes

end Index

end ReactorCausality
