import ReactorCausality.Decode
import ReactorCausality.Json.Value
import ReactorCausality.Program.Basic

/-!
Programs as JSON. Writing gives every field of every part, in a fixed order and without blanks, so
that a program has exactly one canonical text. Reading accepts more than the canonical text: fields
in any order, fields left out where they have a default, and fields that mean nothing here.
-/
namespace ReactorCausality

def TimeValue.toJson (value : TimeValue) : Json :=
  .string value.literal

namespace EntityId

variable {kind : Entity}

def toJson (id : EntityId kind) : Json :=
  .nat id.number.toNat

/-- An id is read from a number that fits its word. -/
def decode : Decoder (EntityId kind) :=
  fun outline => (Decoder.word outline).map EntityId.mk

end EntityId

namespace Direction

def word : Direction → String
  | input => "input"
  | output => "output"

def decode : Nat → Decoder Direction :=
  .choice [(word input, input), (word output, output)] []

end Direction

namespace Port

def toJson (port : Port) : Json :=
  .object [
    ("id", port.id.toJson),
    ("name", .string port.name),
    ("direction", .string port.direction.word)]

/-- The fields of a port, all of which have to be given. -/
def fields (depth : Nat) : List (Decoder.Field Port) :=
  [.required "id" EntityId.decode fun port id => { port with id },
    .required "name" .string fun port name => { port with name },
    .required "direction" (Direction.decode depth) fun port direction => { port with direction }]

def decode : Nat → Decoder Port :=
  .record default fields

end Port

namespace Trigger

/-- A trigger is an object from its kind to what it names, or its kind alone if it names nothing. -/
def toJson : Trigger → Json
  | port id => .object [("port", id.toJson)]
  | timer name => .object [("timer", .string name)]
  | action name => .object [("action", .string name)]
  | startup => .string "startup"
  | shutdown => .string "shutdown"

def decode : Nat → Decoder Trigger :=
  .choice [("startup", startup), ("shutdown", shutdown)]
    [("port", fun _ outline => (EntityId.decode outline).map port),
      ("timer", fun _ outline => (Decoder.string outline).map timer),
      ("action", fun _ outline => (Decoder.string outline).map action)]

end Trigger

namespace Ordering

def word : Ordering → String
  | ordered => "ordered"
  | unordered => "unordered"

def decode : Nat → Decoder Ordering :=
  .choice [(word ordered, ordered), (word unordered, unordered)] []

end Ordering

namespace Reaction

def toJson (reaction : Reaction) : Json :=
  .object [
    ("id", reaction.id.toJson),
    ("index", .nat reaction.index.toNat),
    ("triggers", .ofList Trigger.toJson reaction.triggers),
    ("sources", .ofList Trigger.toJson reaction.sources),
    ("effects", .ofList Trigger.toJson reaction.effects),
    ("ordering", .string reaction.ordering.word),
    ("mode", .ofOption EntityId.toJson reaction.mode),
    ("stp_offset", .ofOption TimeValue.toJson reaction.safeToProcess)]

/-- The fields of a reaction; only its id and its index have to be given. -/
def fields (depth : Nat) : List (Decoder.Field Reaction) :=
  [.required "id" EntityId.decode fun reaction id => { reaction with id },
    .required "index" .word fun reaction index => { reaction with index },
    .defaulted "triggers" (.list Trigger.decode depth)
      fun reaction triggers => { reaction with triggers },
    .defaulted "sources" (.list Trigger.decode depth)
      fun reaction sources => { reaction with sources },
    .defaulted "effects" (.list Trigger.decode depth)
      fun reaction effects => { reaction with effects },
    .defaulted "ordering" (Ordering.decode depth)
      fun reaction ordering => { reaction with ordering },
    .defaulted "mode" (.optional EntityId.decode) fun reaction mode => { reaction with mode },
    .defaulted "stp_offset" (.optional .time)
      fun reaction safeToProcess => { reaction with safeToProcess }]

def decode : Nat → Decoder Reaction :=
  .record { id := default, index := 0 } fields

end Reaction

namespace Connection

def toJson (connection : Connection) : Json :=
  .object [
    ("id", connection.id.toJson),
    ("source", connection.source.toJson),
    ("target", connection.target.toJson),
    ("delay", .ofOption TimeValue.toJson connection.delay),
    ("physical", .bool connection.isPhysical)]

/-- The fields of a connection; its id and its ends have to be given. -/
def fields (_ : Nat) : List (Decoder.Field Connection) :=
  [.required "id" EntityId.decode fun connection id => { connection with id },
    .required "source" EntityId.decode fun connection source => { connection with source },
    .required "target" EntityId.decode fun connection target => { connection with target },
    .defaulted "delay" (.optional .time) fun connection delay => { connection with delay },
    .defaulted "physical" .bool fun connection isPhysical => { connection with isPhysical }]

def decode : Nat → Decoder Connection :=
  .record { id := default, source := default, target := default } fields

end Connection

namespace Mode

def toJson (mode : Mode) : Json :=
  .object [
    ("id", mode.id.toJson),
    ("name", .string mode.name),
    ("initial", .bool mode.isInitial)]

/-- The fields of a mode; its id and its name have to be given. -/
def fields (_ : Nat) : List (Decoder.Field Mode) :=
  [.required "id" EntityId.decode fun mode id => { mode with id },
    .required "name" .string fun mode name => { mode with name },
    .defaulted "initial" .bool fun mode isInitial => { mode with isInitial }]

def decode : Nat → Decoder Mode :=
  .record { id := default, name := "" } fields

end Mode

namespace Reactor

mutual

/-- All fields of a reactor, in their order, with its children inside. -/
def toJson : Reactor → Json
  | ⟨id, name, ports, reactions, connections, children, modes, mode⟩ =>
    .object [
      ("id", id.toJson),
      ("name", .string name),
      ("ports", .ofList Port.toJson ports),
      ("reactions", .ofList Reaction.toJson reactions),
      ("connections", .ofList Connection.toJson connections),
      ("children", .array (toJsonAll children)),
      ("modes", .ofList Mode.toJson modes),
      ("mode", .ofOption EntityId.toJson mode)]

def toJsonAll : List Reactor → List Json
  | [] => []
  | child :: rest => toJson child :: toJsonAll rest

end

/-- The fields of a reactor, given how its children are read. -/
def fields (children : Decoder (List Reactor)) (depth : Nat) : List (Decoder.Field Reactor) :=
  [.required "id" EntityId.decode fun reactor id => { reactor with id },
    .required "name" .string fun reactor name => { reactor with name },
    .defaulted "ports" (.list Port.decode depth) fun reactor ports => { reactor with ports },
    .defaulted "reactions" (.list Reaction.decode depth)
      fun reactor reactions => { reactor with reactions },
    .defaulted "connections" (.list Connection.decode depth)
      fun reactor connections => { reactor with connections },
    .defaulted "children" children fun reactor children => { reactor with children },
    .defaulted "modes" (.list Mode.decode depth) fun reactor modes => { reactor with modes },
    .defaulted "mode" (.optional EntityId.decode) fun reactor mode => { reactor with mode }]

/-- A reactor whose text nests no deeper than the first argument. A reactor takes one level for
itself and one for the array of its children, so below two levels there are no children. -/
def decode : Nat → Decoder Reactor
  | 0 => .refuse
  | 1 => .record { id := default, name := "" } (fields .refuse) 1
  | depth + 2 =>
    .record { id := default, name := "" }
      (fields (.list (fun _ => decode depth) (depth + 1))) (depth + 2)

end Reactor

namespace Program

def toJson (program : Program) : Json :=
  .object [("main", program.main.toJson)]

def canonicalText (program : Program) : String :=
  program.toJson.compact

/-- A program is read from its main reactor, which has to be given. -/
def decode : Nat → Decoder Program :=
  .record default fun depth =>
    [.required "main" (Reactor.decode depth) fun program main => { program with main }]

def ofText (text : String) : Except DecodeFault Program :=
  Decoder.text decode text

end Program

end ReactorCausality
