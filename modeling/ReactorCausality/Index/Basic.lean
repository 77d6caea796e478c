import ReactorCausality.Program.Basic

/-!
The index of a program: its tree laid out flat. Reactors stand in pre-order, and the ports,
reactions and connections of each reactor stand in the order of their declarations, so the order of
every list here is the order of the program. Every entry carries its hierarchical name.

An index answers lookups by id. An id that is not in the program has no entry, and its name is
`<unknown>`.
-/
namespace ReactorCausality

/-- A reactor and its place in the tree. -/
structure ReactorEntry where
  reactor : Reactor
  parent : Option ReactorId
  depth : Nat
  name : String
  deriving Repr

/-- A port and the reactor that it belongs to. -/
structure PortEntry where
  port : Port
  owner : ReactorId
  name : String
  deriving DecidableEq, Repr

/-- A reaction and the reactor that it belongs to. -/
structure ReactionEntry where
  reaction : Reaction
  owner : ReactorId
  name : String
  deriving DecidableEq, Repr

/-- A connection and the reactor in whose body it is declared. -/
structure ConnectionEntry where
  connection : Connection
  container : ReactorId
  deriving DecidableEq, Repr

/-- The tree of a program, laid out flat. -/
structure Index where
  main : Reactor
  reactors : List ReactorEntry := []
  ports : List PortEntry := []
  reactions : List ReactionEntry := []
  connections : List ConnectionEntry := []
  deriving Repr

/-- Which connections a walk from port to port may follow. -/
inductive PortWalk where
  /-- Every connection, delayed and physical ones too. -/
  | all
  /-- Only connections that carry values at the same tag. -/
  | zeroDelay
  deriving DecidableEq, Repr

def PortWalk.allows (walk : PortWalk) (connection : Connection) : Bool :=
  match walk with
  | all => true
  | zeroDelay => connection.isZeroDelay

namespace Index

/-- The name of everything that is not in the program. -/
def unknownName : String := "<unknown>"

def reactor? (index : Index) (id : ReactorId) : Option ReactorEntry :=
  index.reactors.find? fun entry => entry.reactor.id = id

def port? (index : Index) (id : PortId) : Option PortEntry :=
  index.ports.find? fun entry => entry.port.id = id

def reaction? (index : Index) (id : ReactionId) : Option ReactionEntry :=
  index.reactions.find? fun entry => entry.reaction.id = id

def connection? (index : Index) (id : ConnectionId) : Option ConnectionEntry :=
  index.connections.find? fun entry => entry.connection.id = id

def reactorName (index : Index) (id : ReactorId) : String :=
  ((index.reactor? id).map ReactorEntry.name).getD unknownName

def portName (index : Index) (id : PortId) : String :=
  ((index.port? id).map PortEntry.name).getD unknownName

def reactionName (index : Index) (id : ReactionId) : String :=
  ((index.reaction? id).map ReactionEntry.name).getD unknownName

/-- The name of a connection: its ports, with a wavy arrow if it is physical, and its delay. -/
def nameOfConnection (index : Index) (connection : Connection) : String :=
  let arrow := if connection.isPhysical then "~>" else "->"
  let ports := s!"{index.portName connection.source} {arrow} {index.portName connection.target}"
  match connection.delay with
  | none => ports
  | some delay => s!"{ports} after {delay.literal}"

def connectionName (index : Index) (id : ConnectionId) : String :=
  match index.connection? id with
  | none => unknownName
  | some entry => index.nameOfConnection entry.connection

def portOwner? (index : Index) (id : PortId) : Option ReactorId :=
  (index.port? id).map PortEntry.owner

def reactionOwner? (index : Index) (id : ReactionId) : Option ReactorId :=
  (index.reaction? id).map ReactionEntry.owner

def parent? (index : Index) (id : ReactorId) : Option ReactorId :=
  (index.reactor? id).bind ReactorEntry.parent

/-- How deep a reactor lies below the main reactor; zero for what is not in the program. -/
def depth (index : Index) (id : ReactorId) : Nat :=
  ((index.reactor? id).map ReactorEntry.depth).getD 0

/-- A reactor and those above it, at most so many steps up. -/
def climb (index : Index) : Nat → ReactorId → List ReactorId
  | 0, id => [id]
  | steps + 1, id =>
    match index.parent? id with
    | none => [id]
    | some parent => id :: index.climb steps parent

/-- A reactor, its parent and so on up to the main reactor, as many steps as the reactor lies
deep. -/
def ancestorsOrSelf (index : Index) (id : ReactorId) : List ReactorId :=
  index.climb (index.depth id) id

/-- The reactions that are triggered by a port or read it. -/
def readers (index : Index) (port : PortId) : List ReactionId :=
  (index.reactions.filter fun entry => entry.reaction.readPorts.contains port).map
    fun entry => entry.reaction.id

def writers (index : Index) (port : PortId) : List ReactionId :=
  (index.reactions.filter fun entry => entry.reaction.writtenPorts.contains port).map
    fun entry => entry.reaction.id

/-- The ports that a port feeds through a single connection. -/
def directTargets (index : Index) (walk : PortWalk) (port : PortId) : List PortId :=
  (index.connections.filter fun entry =>
    entry.connection.source = port && walk.allows entry.connection).map
    fun entry => entry.connection.target

/-- The ports that feed a port through a single connection. -/
def directSources (index : Index) (walk : PortWalk) (port : PortId) : List PortId :=
  (index.connections.filter fun entry =>
    entry.connection.target = port && walk.allows entry.connection).map
    fun entry => entry.connection.source

end Index

end ReactorCausality
