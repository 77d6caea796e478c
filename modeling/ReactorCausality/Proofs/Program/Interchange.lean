import ReactorCausality.Program.Interchange
import ReactorCausality.Proofs.Json.Decode

/-!
Programs survive their own text. Reading the canonical text of a program gives the program back, and if
the text nests too deep to be read it is refused (`ofText_canonicalText`).
-/
namespace ReactorCausality

open Decoder

variable {depth : Nat}

namespace EntityId

variable {kind : Entity}

theorem recovers (id : EntityId kind) : Recovers decode depth id.toJson id :=
  (recovers_word id.number).map mk

theorem outline_ne_null (id : EntityId kind) : id.toJson.outline ≠ .null :=
  nofun

end EntityId

theorem TimeValue.outline_ne_null (value : TimeValue) : value.toJson.outline ≠ .null :=
  nofun

theorem Direction.recovers (direction : Direction) :
    Recovers (decode depth) depth (.string direction.word) direction := by
  cases direction <;> exact recovers_plain rfl

theorem Ordering.recovers (ordering : Ordering) :
    Recovers (decode depth) depth (.string ordering.word) ordering := by
  cases ordering <;> exact recovers_plain rfl

theorem Port.recovers (port : Port) : ∀ depth, Recovers (decode depth) depth port.toJson port :=
  recovers_record ["id", "name", "direction"] (fun _ => rfl) rfl (by decide) fun _ =>
    .cons (port.id.recovers.map _) <| .cons ((recovers_string port.name).map _) <|
      .cons (port.direction.recovers.map _) <| .nil _

/-- A trigger that names something takes a level for the object. -/
theorem Trigger.recovers (trigger : Trigger) :
    ∀ depth, Recovers (decode depth) depth trigger.toJson trigger := by
  cases trigger with
  | port id => exact recovers_carrying rfl rfl fun _ => id.recovers.map port
  | timer name => exact recovers_carrying rfl rfl fun _ => (recovers_string name).map timer
  | action name => exact recovers_carrying rfl rfl fun _ => (recovers_string name).map action
  | startup => exact fun _ => recovers_plain rfl
  | shutdown => exact fun _ => recovers_plain rfl

theorem Reaction.recovers (reaction : Reaction) :
    ∀ depth, Recovers (decode depth) depth reaction.toJson reaction :=
  recovers_record
    ["id", "index", "triggers", "sources", "effects", "ordering", "mode", "stp_offset"]
    (fun _ => rfl) rfl (by decide) fun depth =>
      have triggers (triggers : List Trigger) := recovers_list Trigger.recovers triggers depth
      .cons (reaction.id.recovers.map _) <| .cons ((recovers_word reaction.index).map _) <|
        .cons ((triggers reaction.triggers).map _) <| .cons ((triggers reaction.sources).map _) <|
        .cons ((triggers reaction.effects).map _) <| .cons (reaction.ordering.recovers.map _) <|
        .cons ((recovers_optional EntityId.recovers EntityId.outline_ne_null reaction.mode).map _) <|
        .cons ((recovers_optional recovers_time TimeValue.outline_ne_null
          reaction.safeToProcess).map _) <| .nil _

theorem Connection.recovers (connection : Connection) :
    ∀ depth, Recovers (decode depth) depth connection.toJson connection :=
  recovers_record ["id", "source", "target", "delay", "physical"] (fun _ => rfl) rfl (by decide)
    fun _ =>
      .cons (connection.id.recovers.map _) <| .cons (connection.source.recovers.map _) <|
        .cons (connection.target.recovers.map _) <|
        .cons ((recovers_optional recovers_time TimeValue.outline_ne_null connection.delay).map _) <|
        .cons ((recovers_bool connection.isPhysical).map _) <| .nil _

theorem Mode.recovers (mode : Mode) : ∀ depth, Recovers (decode depth) depth mode.toJson mode :=
  recovers_record ["id", "name", "initial"] (fun _ => rfl) rfl (by decide) fun _ =>
    .cons (mode.id.recovers.map _) <| .cons ((recovers_string mode.name).map _) <|
      .cons ((recovers_bool mode.isInitial).map _) <| .nil _

namespace Reactor

theorem toJsonAll_eq_map (reactors : List Reactor) : toJsonAll reactors = reactors.map toJson := by
  induction reactors with
  | nil => rfl
  | cons child rest ih => rw [toJsonAll, ih, List.map_cons]

/-- The documents for the fields of a reactor, in order. -/
def documents (reactor : Reactor) : List Json :=
  [reactor.id.toJson, .string reactor.name, .ofList Port.toJson reactor.ports,
    .ofList Reaction.toJson reactor.reactions, .ofList Connection.toJson reactor.connections,
    .ofList toJson reactor.children, .ofList Mode.toJson reactor.modes,
    .ofOption EntityId.toJson reactor.mode]

/-- The fields of a reactor are recovered if its children are. -/
theorem refills {children : Decoder (List Reactor)} : (reactor : Reactor) →
    Recovers children depth (.ofList toJson reactor.children) reactor.children →
    Refills depth { id := default, name := "" } (fields children depth) reactor.documents reactor
  | ⟨id, name, ports, reactions, connections, _, modes, mode⟩, recovers =>
    .cons (id.recovers.map _) <| .cons ((recovers_string name).map _) <|
      .cons ((recovers_list Port.recovers ports depth).map _) <|
      .cons ((recovers_list Reaction.recovers reactions depth).map _) <|
      .cons ((recovers_list Connection.recovers connections depth).map _) <|
      .cons (recovers.map _) <| .cons ((recovers_list Mode.recovers modes depth).map _) <|
      .cons ((recovers_optional EntityId.recovers EntityId.outline_ne_null mode).map _) <| .nil _

def fieldNames : List String :=
  ["id", "name", "ports", "reactions", "connections", "children", "modes", "mode"]

theorem nodup_fieldNames : fieldNames.Nodup := by
  decide

theorem toJson_eq (reactor : Reactor) :
    reactor.toJson = .object (fieldNames.zip reactor.documents) := by
  cases reactor
  simp [toJson, fieldNames, documents, Json.ofList, toJsonAll_eq_map]

/-- The induction follows the levels that are left: a reactor takes two of them, and its children have
what remains. -/
theorem recovers (reactor : Reactor) (depth : Nat) :
    Recovers (decode depth) depth reactor.toJson reactor := by
  induction depth using Nat.twoStepInduction generalizing reactor with
  | zero => simp [Recovers, toJson_eq, Json.nesting, decode, refuse]
  | one =>
    rw [toJson_eq]
    refine recovers_record_succ rfl nodup_fieldNames (reactor.refills ?_)
    simp [Recovers, Json.ofList, Json.nesting, refuse]
  | more depth ih _ =>
    rw [toJson_eq]
    refine recovers_record_succ rfl nodup_fieldNames (reactor.refills ?_)
    exact recovers_list_succ fun child _ => ih child

end Reactor

theorem Program.recovers (program : Program) :
    ∀ depth, Recovers (decode depth) depth program.toJson program :=
  recovers_record ["main"] (fun _ => rfl) rfl (by decide) fun depth =>
    .cons ((program.main.recovers depth).map _) <| .nil _

/-- A program is read back from its canonical text if arrays and objects nest at most 127 deep in it, and
otherwise the text is refused. -/
theorem ofText_canonicalText (program : Program) :
    Program.ofText program.canonicalText =
      if program.toJson.nesting ≤ nestingLimit then .ok program else .error .shape := by
  have read := program.recovers nestingLimit
  rw [Recovers] at read
  rw [Program.ofText, text, Program.canonicalText, Outline.read_compact, read, ite_bind]
  rfl

end ReactorCausality
