import ReactorCausality.Graph.Basic
import ReactorCausality.Priority.Table

/-!
Dependency graphs and priorities as lists of lines, one for each node or reaction.
-/
namespace ReactorCausality

/-- Lines with a line feed behind each. -/
def ofLines (lines : List String) : String :=
  String.join (lines.map (· ++ "\n"))

namespace DependencyGraph

/-- A successor in a listing: the name of the target, in brackets if the edge is broken. -/
def successorText (graph : DependencyGraph) (edge : Edge) : String :=
  let name := graph.nodeName edge.target
  if edge.isZeroDelay then name else s!"({name})"

def nodeLine (graph : DependencyGraph) : Node × Nat → String
  | (node, position) =>
    let head := s!"  n{position} {node.name}"
    match (graph.edgesFrom position).map graph.successorText with
    | [] => head
    | successors => head ++ " -> " ++ ", ".intercalate successors

def listing (graph : DependencyGraph) : String :=
  let reactions := graph.reactions.length
  let ports := graph.nodes.length - reactions
  let broken := (graph.edges.filter fun edge => !edge.isZeroDelay).length
  let head := s!"DependencyGraph ({reactions} reactions, {ports} ports, {graph.edges.length} edges)"
  let tail := if broken = 0 then [] else [s!"  broken connections: {broken}"]
  ofLines (head :: (graph.nodes.zipIdx.map graph.nodeLine ++ tail))

end DependencyGraph

namespace PriorityTable

def listing (table : PriorityTable) : String :=
  ofLines (s!"PriorityTable ({table.size} reactions)" :: table.entries.map fun entry =>
    s!"  r{entry.reaction.text} rank={entry.priority.rank} level={entry.priority.level}")

end PriorityTable

end ReactorCausality
