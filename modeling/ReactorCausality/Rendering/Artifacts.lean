import ReactorCausality.Boundary.Report
import ReactorCausality.Federation.Partition
import ReactorCausality.Index.Basic
import ReactorCausality.Priority.Table
import ReactorCausality.Rendering.GraphListing

/-!
Priorities and control reactions under their names, for whoever generates code from them: as a
listing to read, or as a JSON document.
-/
namespace ReactorCausality

/-- The form in which priorities and control reactions are given out. -/
inductive Target where
  | text
  | json
  deriving DecidableEq, Repr

/-- Where the names of ids come from. -/
structure Naming where
  index : Index
  partition : Partition

namespace Naming

/-- A text, with blanks in front of it up to a width. -/
def padLeft (width : Nat) (text : String) : String :=
  "".pushn ' ' (width - text.length) ++ text

/-- Where a control reaction goes, in words. -/
def placementText (naming : Naming) : Placing → String
  | .before reaction => s!"before {naming.index.reactionName reaction}"
  | .after reaction => s!"after {naming.index.reactionName reaction}"
  | .unanchored => "unanchored"

/-- The line of a reaction: its rank, its level and its name. -/
def priorityLine (naming : Naming) (entry : PriorityEntry) : String :=
  s!"  {padLeft 3 (toString entry.priority.rank)}  L{entry.priority.level}  " ++
    naming.index.reactionName entry.reaction

def boundText : Option TimeValue → String
  | some bound => bound.literal
  | none => "unbounded"

def controlLine (naming : Naming) (control : ControlReaction) : String :=
  let side :=
    match control.side with
    | .sender => "send"
    | .receiver => "recv"
  let kind :=
    match control.kind with
    | .emitAbsent => "emit-absent"
    | .waitBounded => s!"wait-bounded {boundText control.bound}"
  let role :=
    match control.side with
    | .sender => "from"
    | .receiver => "into"
  s!"  [{naming.partition.federateName control.federate}] {side} {kind} {role} " ++
    s!"{naming.index.portName control.port} ({naming.placementText control.placement})"

/-- The listing of a table, if there is one, and of control reactions. -/
def listing (naming : Naming) (table : Option PriorityTable) (controls : List ControlReaction) :
    String :=
  let priorities :=
    match table with
    | none => []
    | some table =>
      s!"priorities ({table.size} reactions):" :: table.entries.map naming.priorityLine
  let controls :=
    match controls with
    | [] => []
    | controls => "control reactions:" :: controls.map naming.controlLine
  ofLines (priorities ++ controls)

def reactionJson (naming : Naming) (reaction : ReactionId) : Json :=
  .object [
    ("id", reaction.toJson),
    ("name", .string (naming.index.reactionName reaction))]

/-- Where a control reaction goes; nothing where no reaction has to do with its port. -/
def placementJson (naming : Naming) : Placing → Json
  | .before reaction => .object [("before", naming.reactionJson reaction)]
  | .after reaction => .object [("after", naming.reactionJson reaction)]
  | .unanchored => .null

def priorityJson (naming : Naming) (entry : PriorityEntry) : Json :=
  .object [
    ("level", .nat entry.priority.level),
    ("rank", .nat entry.priority.rank),
    ("reaction", naming.reactionJson entry.reaction)]

/-- A control reaction under the names of its federate and its port. -/
def controlJson (naming : Naming) (control : ControlReaction) : Json :=
  .object [
    ("bound", .ofOption TimeValue.toJson control.bound),
    ("connection", control.connection.toJson),
    ("edge", .string control.edge),
    ("federate", .string (naming.partition.federateName control.federate)),
    ("kind", .string control.kind.word),
    ("placement", naming.placementJson control.placement),
    ("port", .string (naming.index.portName control.port)),
    ("side", .string control.side.word)]

/-- The document of a table, if there is one, and of control reactions. -/
def document (naming : Naming) (table : Option PriorityTable) (controls : List ControlReaction) :
    Json :=
  let entries := (table.map PriorityTable.entries).getD []
  .object [
    ("controls", .ofList naming.controlJson controls),
    ("priorities", .ofList naming.priorityJson entries)]

/-- A table, if there is one, and control reactions in one of the forms. -/
def render (naming : Naming) (target : Target) (table : Option PriorityTable)
    (controls : List ControlReaction) : String :=
  match target with
  | .text => naming.listing table controls
  | .json => (naming.document table controls).pretty

end Naming

end ReactorCausality
