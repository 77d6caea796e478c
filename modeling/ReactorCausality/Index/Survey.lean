import ReactorCausality.Index.Basic

/-!
Surveying a program: its index is built and its problems are listed. The survey walks the tree once
and lays it out, refusing ids that have been used before; what has a refused id is left out, a
reactor with everything inside it. When all is laid out, the references are checked: modes, then
the ports of reactions, then the ends of connections.

A program is accepted if it has no problem.
-/
namespace ReactorCausality

/-- The two ends of a connection. -/
inductive ConnectionEnd where
  | source
  | target
  deriving DecidableEq, Repr

def ConnectionEnd.word : ConnectionEnd → String
  | source => "source"
  | target => "target"

/-- What is wrong with a program. Names are hierarchical names. -/
inductive Problem where
  | duplicateReactor (id : ReactorId) (name : String)
  | duplicatePort (id : PortId) (name : String)
  | duplicateReaction (id : ReactionId) (name : String)
  | duplicateConnection (id : ConnectionId) (container : String)
  /-- The index of a reaction is not its position. -/
  | misplacedReaction (name : String) (position : Nat) (index : UInt32)
  | reactorMode (name : String) (mode : ModeId) (parent : String)
  | reactionMode (name : String) (mode : ModeId) (owner : String)
  | unknownRead (reaction : String) (port : PortId)
  | unknownWrite (reaction : String) (port : PortId)
  | unknownEnd (id : ConnectionId) (container : String) (port : PortId)
  /-- The port is neither of the container nor of one of its children. -/
  | invisibleEnd (id : ConnectionId) (container : String) (port : String)
  /-- The port faces the wrong way. -/
  | wrongEnd (id : ConnectionId) (container : String) (port : String) (connectionEnd : ConnectionEnd)
      (direction : Direction)
  deriving DecidableEq, Repr

def Direction.title : Direction → String
  | input => "Input"
  | output => "Output"

def Problem.message : Problem → String
  | duplicateReactor id name => s!"duplicate reactor id {id.text} ({name})"
  | duplicatePort id name => s!"duplicate port id {id.text} ({name})"
  | duplicateReaction id name => s!"duplicate reaction id {id.text} ({name})"
  | duplicateConnection id container => s!"duplicate connection id {id.text} (in {container})"
  | misplacedReaction name position index =>
    s!"reaction {name} declared at position {position} has index {index.toNat}"
  | reactorMode name mode parent =>
    s!"reactor {name} placed in mode {mode.text} not declared by {parent}"
  | reactionMode name mode owner =>
    s!"reaction {name} placed in mode {mode.text} not declared by {owner}"
  | unknownRead reaction port => s!"reaction {reaction} reads unknown port {port.text}"
  | unknownWrite reaction port => s!"reaction {reaction} writes unknown port {port.text}"
  | unknownEnd id container port =>
    s!"connection {id.text} in {container} references unknown port {port.text}"
  | invisibleEnd id container port =>
    s!"connection {id.text} in {container} uses port {port} that is not visible there"
  | wrongEnd id container port connectionEnd direction =>
    s!"connection {id.text} in {container} uses {port} as a {connectionEnd.word} but it is " ++
      direction.title

/-- An index in the making, and the problems found so far. -/
structure Survey where
  index : Index
  problems : List Problem := []
  deriving Repr

namespace Survey

/-- Notes a problem. -/
def note (survey : Survey) (problem : Problem) : Survey :=
  { survey with problems := survey.problems ++ [problem] }

/-- Changes the index. -/
def update (survey : Survey) (change : Index → Index) : Survey :=
  { survey with index := change survey.index }

/-- Adds a port of a reactor, unless its id has been used. -/
def addPort (owner : ReactorId) (path : String) (survey : Survey) (port : Port) : Survey :=
  let name := s!"{path}.{port.name}"
  if (survey.index.port? port.id).isSome then survey.note (.duplicatePort port.id name)
  else survey.update fun index => { index with ports := index.ports ++ [⟨port, owner, name⟩] }

/-- Adds a reaction that is declared at a position of a reactor, unless its id has been used. -/
def addReaction (owner : ReactorId) (path : String) (survey : Survey) :
    Reaction × Nat → Survey
  | (reaction, position) =>
    let name := s!"{path}.reaction_{reaction.index.toNat + 1}"
    let survey :=
      if reaction.index.toNat = position then survey
      else survey.note (.misplacedReaction name position reaction.index)
    if (survey.index.reaction? reaction.id).isSome then
      survey.note (.duplicateReaction reaction.id name)
    else
      survey.update fun index =>
        { index with reactions := index.reactions ++ [⟨reaction, owner, name⟩] }

/-- Adds a connection that is declared in a reactor, unless its id has been used. -/
def addConnection (container : ReactorId) (path : String) (survey : Survey)
    (connection : Connection) : Survey :=
  if (survey.index.connection? connection.id).isSome then
    survey.note (.duplicateConnection connection.id path)
  else
    survey.update fun index =>
      { index with connections := index.connections ++ [⟨connection, container⟩] }

/-- Adds a reactor with its own ports, reactions and connections. -/
def addReactor (survey : Survey) (entry : ReactorEntry) : Survey :=
  let owner := entry.reactor.id
  let survey :=
    survey.update fun index => { index with reactors := index.reactors ++ [entry] }
  let survey := entry.reactor.ports.foldl (addPort owner entry.name) survey
  let survey := entry.reactor.reactions.zipIdx.foldl (addReaction owner entry.name) survey
  entry.reactor.connections.foldl (addConnection owner entry.name) survey

mutual

/-- Lays out a reactor and everything below it, unless its id has been used. -/
def visit (parent : Option ReactorId) (depth : Nat) (path : String) (survey : Survey) :
    Reactor → Survey
  | ⟨id, name, ports, reactions, connections, children, modes, mode⟩ =>
    if (survey.index.reactor? id).isSome then survey.note (.duplicateReactor id path)
    else
      let reactor := ⟨id, name, ports, reactions, connections, children, modes, mode⟩
      visitAll id (depth + 1) path (survey.addReactor ⟨reactor, parent, depth, path⟩) children

/-- Lays out the children of a reactor, one after the other. -/
def visitAll (parent : ReactorId) (depth : Nat) (path : String) (survey : Survey) :
    List Reactor → Survey
  | [] => survey
  | child :: rest =>
    visitAll parent depth path
      (visit (some parent) depth s!"{path}.{child.name}" survey child) rest

end

end Survey

namespace ReactorEntry

def declares (entry : ReactorEntry) (mode : ModeId) : Bool :=
  entry.reactor.modes.any fun declared => declared.id = mode

/-- Children that are placed in a mode that their parent does not declare. -/
def childProblems (entry : ReactorEntry) : List Problem :=
  entry.reactor.children.filterMap fun child =>
    match child.mode with
    | none => none
    | some mode =>
      if entry.declares mode then none
      else some (.reactorMode s!"{entry.name}.{child.name}" mode entry.name)

/-- What is wrong with the mode and the ports of a reaction. -/
def reactionProblems (entry : ReactorEntry) (index : Index) (reaction : Reaction) : List Problem :=
  let name := index.reactionName reaction.id
  let modeProblems :=
    match reaction.mode with
    | none => []
    | some mode => if entry.declares mode then [] else [.reactionMode name mode entry.name]
  let unknown := fun (port : PortId) => (index.port? port).isNone
  modeProblems ++ (reaction.readPorts.filter unknown).map (.unknownRead name)
    ++ (reaction.writtenPorts.filter unknown).map (.unknownWrite name)

/-- What is wrong with the references of a reactor. -/
def problems (entry : ReactorEntry) (index : Index) : List Problem :=
  entry.childProblems ++ entry.reactor.reactions.flatMap (entry.reactionProblems index)

end ReactorEntry

namespace ConnectionEntry

/-- The direction that a port at one end of a connection has to have. Inside its container, a
connection leads from inputs of the container and outputs of its children to outputs of the
container and inputs of its children. -/
def requiredDirection (isOnContainer : Bool) : ConnectionEnd → Direction
  | .source => if isOnContainer then .input else .output
  | .target => if isOnContainer then .output else .input

/-- What is wrong with one end of a connection, if anything is. -/
def endProblem? (entry : ConnectionEntry) (index : Index) (connectionEnd : ConnectionEnd) :
    Option Problem :=
  let id := entry.connection.id
  let container := index.reactorName entry.container
  let portId :=
    match connectionEnd with
    | .source => entry.connection.source
    | .target => entry.connection.target
  match index.port? portId with
  | none => some (.unknownEnd id container portId)
  | some port =>
    let isOnContainer : Bool := port.owner = entry.container
    let isOnChild : Bool := index.parent? port.owner = some entry.container
    if !isOnContainer && !isOnChild then some (.invisibleEnd id container port.name)
    else if port.port.direction = requiredDirection isOnContainer connectionEnd then none
    else some (.wrongEnd id container port.name connectionEnd port.port.direction)

/-- What is wrong with the ends of a connection, the source first. -/
def problems (entry : ConnectionEntry) (index : Index) : List Problem :=
  (entry.endProblem? index .source).toList ++ (entry.endProblem? index .target).toList

end ConnectionEntry

namespace Index

/-- What is wrong with the references between the parts of an index. -/
def referenceProblems (index : Index) : List Problem :=
  index.reactors.flatMap (fun entry => entry.problems index)
    ++ index.connections.flatMap (fun entry => entry.problems index)

def survey (program : Program) : Survey :=
  let main := program.main
  let survey := Survey.visit none 0 main.name ⟨{ main := main }, []⟩ main
  { survey with problems := survey.problems ++ survey.index.referenceProblems }

/-- The index of a program, or everything that is wrong with the program. -/
def build (program : Program) : Except (List Problem) Index :=
  match (survey program).problems with
  | [] => .ok (survey program).index
  | problems => .error problems

end Index

end ReactorCausality
