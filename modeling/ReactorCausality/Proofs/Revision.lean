import ReactorCausality.Federation.Partition
import ReactorCausality.Proofs.Index.Contents

/-!
Revising the times in a program. A revision gives every reaction another safe-to-process offset and every
connection another delay, or drops the connection. Nothing else changes, so a program that is accepted is
still accepted when it has been revised (`Index.Describes.revise`), and its reactors belong to the
federates to which they belonged.
-/
namespace ReactorCausality

/-- What becomes of the times in a program. Unless something else is said, they stay as they are. -/
structure Revision where
  offset : Reaction → Option TimeValue := Reaction.safeToProcess
  /-- The delay of a connection, if the connection stays. -/
  delay : Connection → Option (Option TimeValue) := fun connection => some connection.delay

namespace Revision

/-- No connection is dropped. -/
def keeping (offset : Reaction → Option TimeValue) (delay : Connection → Option TimeValue) :
    Revision where
  offset
  delay connection := some (delay connection)

/-- Only the offsets change. -/
def offsets (offset : Reaction → Option TimeValue) : Revision :=
  .keeping offset Connection.delay

/-- The connection with the id gets a delay. -/
def delaying (id : ConnectionId) (delay : TimeValue) : Revision :=
  .keeping Reaction.safeToProcess fun connection =>
    if connection.id = id then some delay else connection.delay

end Revision

variable (ρ : Revision)

def Reaction.revise (reaction : Reaction) : Reaction :=
  { reaction with safeToProcess := ρ.offset reaction }

def Connection.revise? (connection : Connection) : Option Connection :=
  (ρ.delay connection).map fun delay => { connection with delay }

theorem Connection.revise?_eq_some_iff {connection revised : Connection} :
    connection.revise? ρ = some revised ↔
      ∃ delay, ρ.delay connection = some delay ∧ { connection with delay } = revised :=
  Option.map_eq_some_iff

/-! ### Revising the tree -/

namespace Reactor

mutual

def revise : Reactor → Reactor
  | ⟨id, name, ports, reactions, connections, children, modes, mode⟩ =>
    ⟨id, name, ports, reactions.map (Reaction.revise ρ), connections.filterMap (Connection.revise? ρ),
      reviseAll children, modes, mode⟩

def reviseAll : List Reactor → List Reactor
  | [] => []
  | child :: rest => revise child :: reviseAll rest

end

theorem reviseAll_eq_map (reactors : List Reactor) :
    reviseAll ρ reactors = reactors.map (revise ρ) := by
  induction reactors with
  | nil => simp [reviseAll]
  | cons child rest ih => simp [reviseAll, ih]

/-- A revised reactor differs in its reactions, its connections and inside its children. -/
theorem revise_eq (reactor : Reactor) : reactor.revise ρ =
    { reactor with
      reactions := reactor.reactions.map (Reaction.revise ρ)
      connections := reactor.connections.filterMap (Connection.revise? ρ)
      children := reactor.children.map (revise ρ) } := by
  cases reactor
  rw [revise, reviseAll_eq_map]

variable (reactor : Reactor)

@[simp]
theorem id_revise : (reactor.revise ρ).id = reactor.id := by
  rw [revise_eq]

@[simp]
theorem name_revise : (reactor.revise ρ).name = reactor.name := by
  rw [revise_eq]

@[simp]
theorem ports_revise : (reactor.revise ρ).ports = reactor.ports := by
  rw [revise_eq]

@[simp]
theorem reactions_revise :
    (reactor.revise ρ).reactions = reactor.reactions.map (Reaction.revise ρ) := by
  rw [revise_eq]

@[simp]
theorem connections_revise :
    (reactor.revise ρ).connections = reactor.connections.filterMap (Connection.revise? ρ) := by
  rw [revise_eq]

@[simp]
theorem children_revise : (reactor.revise ρ).children = reactor.children.map (revise ρ) := by
  rw [revise_eq]

@[simp]
theorem modes_revise : (reactor.revise ρ).modes = reactor.modes := by
  rw [revise_eq]

@[simp]
theorem mode_revise : (reactor.revise ρ).mode = reactor.mode := by
  rw [revise_eq]

end Reactor

def Program.revise (program : Program) : Program :=
  ⟨program.main.revise ρ⟩

/-! ### Revising an index -/

def ReactorEntry.revise (entry : ReactorEntry) : ReactorEntry :=
  { entry with reactor := entry.reactor.revise ρ }

def ReactionEntry.revise (entry : ReactionEntry) : ReactionEntry :=
  { entry with reaction := entry.reaction.revise ρ }

def ConnectionEntry.revise? (entry : ConnectionEntry) : Option ConnectionEntry :=
  (entry.connection.revise? ρ).map fun connection => ⟨connection, entry.container⟩

/-- Ports stay as they are. -/
def Index.revise (index : Index) : Index :=
  { index with
    main := index.main.revise ρ
    reactors := index.reactors.map (ReactorEntry.revise ρ)
    reactions := index.reactions.map (ReactionEntry.revise ρ)
    connections := index.connections.filterMap (ConnectionEntry.revise? ρ) }

namespace ReactorEntry

variable (entry : ReactorEntry)

@[simp]
theorem reactor_revise : (entry.revise ρ).reactor = entry.reactor.revise ρ :=
  rfl

theorem ports_revise : (entry.revise ρ).ports = entry.ports := by
  simp [ports, revise]

theorem reactions_revise :
    (entry.revise ρ).reactions = entry.reactions.map (ReactionEntry.revise ρ) := by
  simp [reactions, revise, ReactionEntry.revise, Reaction.revise]

theorem connections_revise :
    (entry.revise ρ).connections = entry.connections.filterMap (ConnectionEntry.revise? ρ) := by
  rw [connections, connections, List.filterMap_map, reactor_revise, Reactor.connections_revise,
    Reactor.id_revise, List.map_filterMap]
  rfl

theorem wellPlaced_revise_iff : (entry.revise ρ).WellPlaced ↔ entry.WellPlaced := by
  simp only [WellPlaced, reactor_revise, Reactor.reactions_revise, List.zipIdx_map,
    List.forall_mem_map]
  rfl

end ReactorEntry

namespace Reactor

mutual

theorem entries_revise (parent : Option ReactorId) (depth : Nat) (path : String) :
    (reactor : Reactor) → (reactor.revise ρ).entries parent depth path =
      (reactor.entries parent depth path).map (ReactorEntry.revise ρ)
  | ⟨id, name, ports, reactions, connections, children, modes, mode⟩ => by
    rw [entries, List.map_cons, ← entriesAll_revise id (depth + 1) path children, revise, entries,
      ReactorEntry.revise, revise]

theorem entriesAll_revise (parent : ReactorId) (depth : Nat) (path : String) :
    (reactors : List Reactor) → entriesAll parent depth path (reviseAll ρ reactors) =
      (entriesAll parent depth path reactors).map (ReactorEntry.revise ρ)
  | [] => by rw [reviseAll, entriesAll, List.map_nil]
  | child :: rest => by
    rw [reviseAll, entriesAll, entriesAll, List.map_append, name_revise,
      entries_revise (some parent) depth _ child, entriesAll_revise parent depth path rest]

end

end Reactor

namespace Index

variable (index : Index)

theorem port?_revise : (index.revise ρ).port? = index.port? :=
  rfl

theorem portOwner?_revise : (index.revise ρ).portOwner? = index.portOwner? :=
  rfl

@[simp]
theorem reactor?_revise (id : ReactorId) :
    (index.revise ρ).reactor? id = (index.reactor? id).map (ReactorEntry.revise ρ) := by
  have sameId : (fun entry : ReactorEntry => decide (entry.reactor.id = id)) ∘ ReactorEntry.revise ρ =
      fun entry => decide (entry.reactor.id = id) := by
    funext entry
    rw [Function.comp_apply, ReactorEntry.reactor_revise, Reactor.id_revise]
  rw [reactor?, revise, List.find?_map, sameId, reactor?]

@[simp]
theorem reaction?_revise (id : ReactionId) :
    (index.revise ρ).reaction? id = (index.reaction? id).map (ReactionEntry.revise ρ) := by
  rw [reaction?, revise, List.find?_map]
  rfl

theorem reactorName_revise : (index.revise ρ).reactorName = index.reactorName := by
  funext id
  simp [reactorName, Function.comp_def, ReactorEntry.revise]

theorem reactionName_revise : (index.revise ρ).reactionName = index.reactionName := by
  funext id
  simp [reactionName, Function.comp_def, ReactionEntry.revise]

theorem reactionOwner?_revise : (index.revise ρ).reactionOwner? = index.reactionOwner? := by
  funext id
  simp [reactionOwner?, Function.comp_def, ReactionEntry.revise]

theorem parent?_revise : (index.revise ρ).parent? = index.parent? := by
  funext id
  cases found : index.reactor? id <;> simp [parent?, found, ReactorEntry.revise]

theorem depth_revise : (index.revise ρ).depth = index.depth := by
  funext id
  simp [depth, Function.comp_def, ReactorEntry.revise]

theorem climb_revise (steps : Nat) : (index.revise ρ).climb steps = index.climb steps := by
  induction steps with
  | zero => rfl
  | succ steps ih =>
    funext id
    rw [climb, climb, parent?_revise, ih]

theorem ancestorsOrSelf_revise : (index.revise ρ).ancestorsOrSelf = index.ancestorsOrSelf := by
  funext id
  rw [ancestorsOrSelf, ancestorsOrSelf, depth_revise, climb_revise]

end Index

/-! ### Federates of a revised program -/

namespace Partition

variable (partition : Partition) (index : Index)

theorem federateOf_revise :
    partition.federateOf (index.revise ρ) = partition.federateOf index := by
  have assigned : partition.assigned? (index.revise ρ) = partition.assigned? index := by
    funext reactor
    rw [assigned?, assigned?, Index.reactorName_revise]
  funext reactor
  rw [federateOf, federateOf, Index.ancestorsOrSelf_revise, assigned]

theorem problems_revise : partition.problems (index.revise ρ) = partition.problems index := by
  have named (path : String) : ((index.revise ρ).reactors.any fun entry => entry.name = path) =
      index.reactors.any fun entry => entry.name = path := by
    rw [Index.revise, List.any_map]
    rfl
  simp only [problems, Index.reactor?_revise, Option.isNone_map, named]

end Partition

/-! ### Problems of a revised program -/

namespace ReactorEntry

theorem childProblems_revise (entry : ReactorEntry) :
    (entry.revise ρ).childProblems = entry.childProblems := by
  simp only [childProblems, declares, reactor_revise, Reactor.children_revise, List.filterMap_map,
    Reactor.modes_revise, Function.comp_def, Reactor.mode_revise, Reactor.name_revise]
  rfl

theorem problems_revise (entry : ReactorEntry) (index : Index) :
    (entry.revise ρ).problems (index.revise ρ) = entry.problems index := by
  have reactions (reaction : Reaction) :
      (entry.revise ρ).reactionProblems (index.revise ρ) (reaction.revise ρ) =
        entry.reactionProblems index reaction := by
    simp only [reactionProblems, declares, reactor_revise, Reactor.modes_revise,
      Index.port?_revise, Index.reactionName_revise]
    rfl
  rw [problems, problems, childProblems_revise, reactor_revise, Reactor.reactions_revise,
    List.flatMap_map]
  simp only [reactions]

end ReactorEntry

/-- Both ends of a connection stay where they are. -/
theorem ConnectionEntry.endProblem?_revise {entry revised : ConnectionEntry}
    (kept : entry.revise? ρ = some revised) (index : Index) (connectionEnd : ConnectionEnd) :
    revised.endProblem? (index.revise ρ) connectionEnd = entry.endProblem? index connectionEnd := by
  obtain ⟨_, staying, rfl⟩ := Option.map_eq_some_iff.mp kept
  obtain ⟨delay, -, rfl⟩ := (Connection.revise?_eq_some_iff ρ).mp staying
  cases connectionEnd <;>
    simp only [endProblem?, Index.port?_revise, Index.reactorName_revise, Index.parent?_revise]

namespace Index

variable {index : Index} {program : Program}

theorem DistinctIds.revise (distinct : index.DistinctIds) : (index.revise ρ).DistinctIds where
  reactors := by
    simpa [Index.revise, Function.comp_def] using distinct.reactors
  ports := distinct.ports
  reactions := by
    simpa [Index.revise, Function.comp_def, ReactionEntry.revise, Reaction.revise] using
      distinct.reactions
  connections := by
    have before := List.pairwise_map.mp distinct.connections
    refine List.pairwise_map.mpr (List.pairwise_filterMap.mpr (before.imp ?_))
    intro first second differ revised isFirst other isSecond
    obtain ⟨_, keptFirst, rfl⟩ := Option.map_eq_some_iff.mp isFirst
    obtain ⟨_, keptSecond, rfl⟩ := Option.map_eq_some_iff.mp isSecond
    obtain ⟨_, -, rfl⟩ := (Connection.revise?_eq_some_iff ρ).mp keptFirst
    obtain ⟨_, -, rfl⟩ := (Connection.revise?_eq_some_iff ρ).mp keptSecond
    exact differ

theorem LaysOut.revise (laidOut : index.LaysOut program) :
    (index.revise ρ).LaysOut (program.revise ρ) where
  main := by
    rw [Index.revise, laidOut.main, Program.revise]
  reactors := by
    rw [Index.revise, laidOut.reactors, Program.revise, Reactor.name_revise,
      Reactor.entries_revise]
  ports := by
    simp only [Index.revise, laidOut.ports, List.flatMap_map, ReactorEntry.ports_revise]
  reactions := by
    simp only [Index.revise, laidOut.reactions, List.flatMap_map, ReactorEntry.reactions_revise,
      List.map_flatMap]
  connections := by
    simp only [Index.revise, laidOut.connections, List.flatMap_map,
      ReactorEntry.connections_revise, List.filterMap_flatMap]

theorem Describes.revise (described : index.Describes program) :
    (index.revise ρ).Describes (program.revise ρ) where
  toLaysOut := described.toLaysOut.revise ρ
  distinct := described.distinct.revise ρ
  placed := by
    simpa [Index.revise, ReactorEntry.wellPlaced_revise_iff] using described.placed
  references := by
    obtain ⟨reactors, -⟩ := List.append_eq_nil_iff.mp described.references
    refine List.append_eq_nil_iff.mpr ⟨?_, List.flatMap_eq_nil_iff.mpr ?_⟩
    · simp only [List.flatMap_eq_nil_iff, Index.revise, List.forall_mem_map] at reactors ⊢
      exact fun entry listed => (entry.problems_revise ρ index).trans (reactors entry listed)
    · intro revised member
      obtain ⟨entry, listed, kept⟩ := List.mem_filterMap.mp member
      simp only [ConnectionEntry.problems_eq_nil_iff, ConnectionEntry.endProblem?_revise ρ kept]
      exact ⟨described.endProblem?_eq_none listed .source,
        described.endProblem?_eq_none listed .target⟩

variable (laidOut : index.LaysOut program)
include laidOut

theorem LaysOut.program_reactions_revise :
    (program.revise ρ).reactions = program.reactions.map (Reaction.revise ρ) := by
  rw [← laidOut.map_reactions, ← (laidOut.revise ρ).map_reactions, Index.revise, List.map_map,
    List.map_map]
  rfl

theorem LaysOut.program_connections_revise :
    (program.revise ρ).connections = program.connections.filterMap (Connection.revise? ρ) := by
  rw [← laidOut.map_connections, ← (laidOut.revise ρ).map_connections, Index.revise,
    List.map_filterMap, List.filterMap_map]
  refine List.filterMap_congr fun entry _ => ?_
  simp [ConnectionEntry.revise?, Function.comp_def]

theorem LaysOut.program_connections_keeping (offset : Reaction → Option TimeValue)
    (delay : Connection → Option TimeValue) :
    (program.revise (.keeping offset delay)).connections =
      program.connections.map fun connection => { connection with delay := delay connection } := by
  rw [laidOut.program_connections_revise, ← List.filterMap_eq_map]
  rfl

theorem LaysOut.reads_revise_iff {id : ReactionId} {port : PortId} :
    (program.revise ρ).Reads id port ↔ program.Reads id port := by
  rw [Program.Reads, laidOut.program_reactions_revise]
  simp only [List.mem_map, exists_exists_and_eq_and]
  rfl

end Index

end ReactorCausality
