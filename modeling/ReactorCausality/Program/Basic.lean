import ReactorCausality.Distinct
import ReactorCausality.Program.Entity
import ReactorCausality.Time.Value

/-!
Programs. A program is a tree of reactors. A reactor has ports, reactions, connections, modes and
child reactors. A reaction reads and writes ports; a connection carries what is written to one
port to another, perhaps later.
-/
namespace ReactorCausality

/-- Which way values pass through a port, seen from its reactor. -/
inductive Direction where
  | input
  | output
  deriving DecidableEq, Repr, Inhabited

/-- A place where values enter or leave a reactor. -/
structure Port where
  id : PortId
  name : String
  direction : Direction
  deriving DecidableEq, Repr, Inhabited

/-- Something that triggers a reaction, or that a reaction reads or affects. Only ports take part
in the dependencies. -/
inductive Trigger where
  | port (id : PortId)
  | timer (name : String)
  | action (name : String)
  | startup
  | shutdown
  deriving DecidableEq, Repr, Inhabited

def Trigger.port? : Trigger → Option PortId
  | port id => some id
  | _ => none

/-- Whether a reaction takes part in the order of its reactor's declarations. -/
inductive Ordering where
  | ordered
  | unordered
  deriving DecidableEq, Repr, Inhabited

/-- A reaction of a reactor. -/
structure Reaction where
  id : ReactionId
  /-- The position among the reactions of the reactor, from zero. -/
  index : UInt32
  triggers : List Trigger := []
  /-- What is read without being a trigger. -/
  sources : List Trigger := []
  effects : List Trigger := []
  ordering : Ordering := .ordered
  /-- The mode of the reactor in which the reaction is active, if it belongs to one. -/
  mode : Option ModeId := none
  /-- How long past a tag its inputs may still be waited for. -/
  safeToProcess : Option TimeValue := none
  deriving DecidableEq, Repr, Inhabited

namespace Reaction

/-- Whether the reaction is declared outside the order of its reactor. -/
def isUnordered (reaction : Reaction) : Bool :=
  reaction.ordering == .unordered

/-- The ports that the reaction depends on: its triggers first, then its sources. -/
def readPorts (reaction : Reaction) : List PortId :=
  distinct ((reaction.triggers ++ reaction.sources).filterMap Trigger.port?)

def writtenPorts (reaction : Reaction) : List PortId :=
  distinct (reaction.effects.filterMap Trigger.port?)

end Reaction

/-- Why a connection carries nothing at the same tag. -/
inductive Break where
  | physical
  | delay (time : TimeValue)
  deriving DecidableEq, Repr, Inhabited

/-- A connection between two ports. -/
structure Connection where
  id : ConnectionId
  source : PortId
  target : PortId
  delay : Option TimeValue := none
  isPhysical : Bool := false
  deriving DecidableEq, Repr, Inhabited

namespace Connection

/-- What breaks the dependency along the connection. A physical connection breaks it whatever its
delay, and a declared delay breaks it even if it is zero, since it moves on by a microstep. -/
def break? (connection : Connection) : Option Break :=
  if connection.isPhysical then some .physical else connection.delay.map .delay

def isZeroDelay (connection : Connection) : Bool :=
  connection.break?.isNone

def delayOrZero (connection : Connection) : TimeValue :=
  connection.delay.getD .zero

end Connection

/-- A mode of a reactor. -/
structure Mode where
  id : ModeId
  name : String
  isInitial : Bool := false
  deriving DecidableEq, Repr, Inhabited

/-- A reactor with everything inside it. -/
structure Reactor where
  id : ReactorId
  name : String
  ports : List Port := []
  reactions : List Reaction := []
  connections : List Connection := []
  children : List Reactor := []
  modes : List Mode := []
  /-- The mode of the parent in which the reactor is active, if it belongs to one. -/
  mode : Option ModeId := none
  deriving Repr, Inhabited

namespace Reactor

mutual

/-- The reactor and everything below it, every reactor before its children. -/
def preorder : Reactor → List Reactor
  | ⟨id, name, ports, reactions, connections, children, modes, mode⟩ =>
    ⟨id, name, ports, reactions, connections, children, modes, mode⟩ :: preorderAll children

/-- Several reactors and everything below them, one after the other. -/
def preorderAll : List Reactor → List Reactor
  | [] => []
  | child :: rest => preorder child ++ preorderAll rest

end

theorem preorderAll_eq_flatMap (reactors : List Reactor) :
    preorderAll reactors = reactors.flatMap preorder := by
  induction reactors with
  | nil => simp [preorderAll]
  | cons child rest ih => simp [preorderAll, ih]

/-- A reactor stands in front of what its children contribute. -/
theorem preorder_eq (reactor : Reactor) :
    reactor.preorder = reactor :: reactor.children.flatMap preorder := by
  cases reactor
  simp [preorder, preorderAll_eq_flatMap]

mutual

/-- Equality of reactors is decided field by field. -/
def decEq : (left right : Reactor) → Decidable (left = right)
  | ⟨id, name, ports, reactions, connections, children, modes, mode⟩,
    ⟨id', name', ports', reactions', connections', children', modes', mode'⟩ =>
    match decEqAll children children' with
    | isTrue same =>
      if rest : id = id' ∧ name = name' ∧ ports = ports' ∧ reactions = reactions'
          ∧ connections = connections' ∧ modes = modes' ∧ mode = mode' then
        isTrue (by obtain ⟨rfl, rfl, rfl, rfl, rfl, rfl, rfl⟩ := rest; rw [same])
      else isFalse fun equal => rest (by cases equal; simp)
    | isFalse differ => isFalse fun equal => differ (by cases equal; rfl)

/-- Equality of lists of reactors is decided element by element. -/
def decEqAll : (left right : List Reactor) → Decidable (left = right)
  | [], [] => isTrue rfl
  | [], _ :: _ => isFalse nofun
  | _ :: _, [] => isFalse nofun
  | child :: rest, child' :: rest' =>
    match decEq child child', decEqAll rest rest' with
    | isTrue same, isTrue sameRest => isTrue (by rw [same, sameRest])
    | isFalse differ, _ => isFalse fun equal => differ (List.cons.inj equal).1
    | _, isFalse differ => isFalse fun equal => differ (List.cons.inj equal).2

end

instance : DecidableEq Reactor :=
  decEq

end Reactor

/-- A program: its main reactor and everything inside it. -/
structure Program where
  main : Reactor
  deriving DecidableEq, Repr, Inhabited

namespace Program

def reactors (program : Program) : List Reactor :=
  program.main.preorder

def reactorCount (program : Program) : Nat :=
  program.reactors.length

end Program

end ReactorCausality
