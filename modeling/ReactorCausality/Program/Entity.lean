/-!
The entities of a program and their ids. An id is a 32-bit word that says nothing but which entity
is meant; ids of different kinds of entities never mix.
-/
namespace ReactorCausality

/-- The kinds of entities that carry an id. -/
inductive Entity where
  | reactor
  | port
  | reaction
  | connection
  | mode
  deriving DecidableEq, Repr

/-- The id of an entity of one kind. -/
structure EntityId (kind : Entity) where
  number : UInt32
  deriving DecidableEq, Repr, Inhabited

abbrev ReactorId := EntityId .reactor

abbrev PortId := EntityId .port

abbrev ReactionId := EntityId .reaction

abbrev ConnectionId := EntityId .connection

abbrev ModeId := EntityId .mode

namespace EntityId

variable {kind : Entity}

def text (id : EntityId kind) : String :=
  toString id.number.toNat

/-- Whether an id comes before another, or is the same. -/
def precedes (left right : EntityId kind) : Bool :=
  left.number ≤ right.number

end EntityId

end ReactorCausality
