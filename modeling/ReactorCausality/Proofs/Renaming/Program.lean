import ReactorCausality.Program.Basic
import ReactorCausality.Proofs.Renaming.Injective

/-!
Renaming programs. A renaming gives every id a new one and never gives one to two ids of a kind. It is
applied to a program wherever an id stands, be it that of a declaration or a reference to one. What a
program says beyond its ids stays as it is.
-/
namespace ReactorCausality

/-- A new id for every id of every kind, different ones for different ids. -/
structure Renaming where
  apply : (kind : Entity) → EntityId kind → EntityId kind
  injective : ∀ kind, Function.Injective (apply kind)

variable (ρ : Renaming)

/-! ### Renaming the parts of a program -/

namespace EntityId

variable {kind : Entity}

def rename (id : EntityId kind) : EntityId kind :=
  ρ.apply kind id

theorem rename_injective : Function.Injective (rename ρ : EntityId kind → EntityId kind) :=
  ρ.injective kind

@[simp]
theorem rename_inj {left right : EntityId kind} :
    left.rename ρ = right.rename ρ ↔ left = right :=
  (rename_injective ρ).eq_iff

end EntityId

def Port.rename (port : Port) : Port :=
  { port with id := port.id.rename ρ }

@[simp]
theorem Port.id_rename (port : Port) : (port.rename ρ).id = port.id.rename ρ :=
  rfl

def Trigger.rename : Trigger → Trigger
  | port id => port (id.rename ρ)
  | timer name => timer name
  | action name => action name
  | startup => startup
  | shutdown => shutdown

def Reaction.rename (reaction : Reaction) : Reaction :=
  { reaction with
    id := reaction.id.rename ρ
    triggers := reaction.triggers.map (Trigger.rename ρ)
    sources := reaction.sources.map (Trigger.rename ρ)
    effects := reaction.effects.map (Trigger.rename ρ)
    mode := reaction.mode.map (EntityId.rename ρ) }

@[simp]
theorem Reaction.id_rename (reaction : Reaction) :
    (reaction.rename ρ).id = reaction.id.rename ρ :=
  rfl

@[simp]
theorem Reaction.index_rename (reaction : Reaction) : (reaction.rename ρ).index = reaction.index :=
  rfl

@[simp]
theorem Reaction.mode_rename (reaction : Reaction) :
    (reaction.rename ρ).mode = reaction.mode.map (EntityId.rename ρ) :=
  rfl

def Connection.rename (connection : Connection) : Connection :=
  { connection with
    id := connection.id.rename ρ
    source := connection.source.rename ρ
    target := connection.target.rename ρ }

@[simp]
theorem Connection.id_rename (connection : Connection) :
    (connection.rename ρ).id = connection.id.rename ρ :=
  rfl

@[simp]
theorem Connection.source_rename (connection : Connection) :
    (connection.rename ρ).source = connection.source.rename ρ :=
  rfl

@[simp]
theorem Connection.target_rename (connection : Connection) :
    (connection.rename ρ).target = connection.target.rename ρ :=
  rfl

def Mode.rename (mode : Mode) : Mode :=
  { mode with id := mode.id.rename ρ }

namespace Reactor

mutual

def rename : Reactor → Reactor
  | ⟨id, name, ports, reactions, connections, children, modes, mode⟩ =>
    ⟨id.rename ρ, name, ports.map (Port.rename ρ),
      reactions.map (Reaction.rename ρ), connections.map (Connection.rename ρ),
      renameAll children, modes.map (Mode.rename ρ), mode.map (EntityId.rename ρ)⟩

def renameAll : List Reactor → List Reactor
  | [] => []
  | child :: rest => rename child :: renameAll rest

end

theorem renameAll_eq_map (reactors : List Reactor) :
    renameAll ρ reactors = reactors.map (rename ρ) := by
  induction reactors with
  | nil => simp [renameAll]
  | cons child rest ih => simp [renameAll, ih]

variable (reactor : Reactor)

@[simp]
theorem id_rename : (reactor.rename ρ).id = reactor.id.rename ρ := by
  cases reactor
  rw [rename]

@[simp]
theorem name_rename : (reactor.rename ρ).name = reactor.name := by
  cases reactor
  rw [rename]

@[simp]
theorem ports_rename :
    (reactor.rename ρ).ports = reactor.ports.map (Port.rename ρ) := by
  cases reactor
  rw [rename]

@[simp]
theorem reactions_rename :
    (reactor.rename ρ).reactions = reactor.reactions.map (Reaction.rename ρ) := by
  cases reactor
  rw [rename]

@[simp]
theorem connections_rename :
    (reactor.rename ρ).connections =
      reactor.connections.map (Connection.rename ρ) := by
  cases reactor
  rw [rename]

@[simp]
theorem children_rename :
    (reactor.rename ρ).children = reactor.children.map (rename ρ) := by
  cases reactor
  rw [rename, renameAll_eq_map]

@[simp]
theorem modes_rename :
    (reactor.rename ρ).modes = reactor.modes.map (Mode.rename ρ) := by
  cases reactor
  rw [rename]

@[simp]
theorem mode_rename :
    (reactor.rename ρ).mode = reactor.mode.map (EntityId.rename ρ) := by
  cases reactor
  rw [rename]

end Reactor

def Program.rename (program : Program) : Program :=
  ⟨program.main.rename ρ⟩

/-! ### What parts say about each other -/

namespace Reaction

variable (reaction : Reaction)

@[simp]
theorem isUnordered_rename : (reaction.rename ρ).isUnordered = reaction.isUnordered :=
  rfl

/-- The ports among renamed triggers are the renamed ports. -/
theorem filterMap_port?_rename (triggers : List Trigger) :
    (triggers.map (Trigger.rename ρ)).filterMap Trigger.port? =
      (triggers.filterMap Trigger.port?).map (EntityId.rename ρ) := by
  rw [List.filterMap_map, List.map_filterMap]
  congr 1
  funext trigger
  cases trigger <;> rfl

@[simp]
theorem readPorts_rename :
    (reaction.rename ρ).readPorts = reaction.readPorts.map (EntityId.rename ρ) := by
  rw [readPorts, readPorts, ← distinct_map (EntityId.rename_injective ρ),
    ← filterMap_port?_rename, List.map_append]
  rfl

@[simp]
theorem writtenPorts_rename :
    (reaction.rename ρ).writtenPorts =
      reaction.writtenPorts.map (EntityId.rename ρ) := by
  rw [writtenPorts, writtenPorts, ← distinct_map (EntityId.rename_injective ρ),
    ← filterMap_port?_rename]
  rfl

end Reaction

end ReactorCausality
