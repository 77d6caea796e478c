import ReactorCausality.Cycle
import ReactorCausality.Index.Basic
import ReactorCausality.Rendering.GraphListing

/-!
Dependency graphs in the DOT language. Every reactor is a cluster, nested as in the program, around
the nodes that belong to it. Edges follow in their order: broken connections are dashed, edges
between ordered reactions are dotted, and the steps of reported cycles are red.
-/
namespace ReactorCausality

namespace Dot

/-- A text in double quotes; quotes and backslashes in it are escaped by a backslash. -/
def quote (text : String) : String :=
  let escape (c : Char) : List Char := if c == '\\' || c == '"' then ['\\', c] else [c]
  String.ofList ('"' :: (text.toList.flatMap escape ++ ['"']))

/-- What a name ends with behind its last dot. -/
def lastSegment (name : String) : String :=
  String.ofList ((name.toList.reverse.takeWhile fun c => c != '.').reverse)

/-- The shape of a node: reactions are boxes, and the houses of ports point the way values go. -/
def shape (index : Index) : NodeKind → String
  | .reaction _ => "box"
  | .port id =>
    match index.port? id with
    | some ⟨⟨_, _, .input⟩, _, _⟩ => "invhouse"
    | _ => "house"

def nodeLine (index : Index) : Node × Nat → String
  | (node, position) =>
    s!"n{position} [label={quote (lastSegment node.name)}, shape={shape index node.kind}];"

def kindAttributes : EdgeKind → List String
  | .order => ["style=dotted"]
  | .connection _ (some (.delay time)) =>
    ["style=dashed", "label=" ++ quote ("after " ++ time.literal)]
  | .connection _ (some .physical) => ["style=dashed", "label=" ++ quote "physical"]
  | _ => []

/-- Whether an edge is a step of a reported cycle. -/
def isRed (steps : List (Nat × Nat)) (edge : Edge) : Bool :=
  steps.contains (edge.source, edge.target)

def edgeLine (steps : List (Nat × Nat)) (edge : Edge) : String :=
  let red := if isRed steps edge then ["color=red", "penwidth=2"] else []
  let ends := s!"n{edge.source} -> n{edge.target}"
  match kindAttributes edge.kind ++ red with
  | [] => s!"{ends};"
  | attributes => ends ++ " [" ++ ", ".intercalate attributes ++ "];"

def indent (level : Nat) (line : String) : String :=
  "".pushn ' ' (4 * level) ++ line

mutual

/-- The lines of the cluster of a reactor, at a level of indentation. -/
def clusterLines (graph : DependencyGraph) (index : Index) (level : Nat) : Reactor → List String
  | ⟨id, _, _, _, _, children, _, _⟩ =>
    let nodes := graph.nodes.zipIdx.filter fun (node, _) => node.reactor = id
    [indent level ("subgraph cluster_r" ++ id.text ++ " \x7b"),
      indent (level + 1) ("label=" ++ quote (index.reactorName id) ++ ";"),
      indent (level + 1) "style=rounded;",
      indent (level + 1) "color=gray50;"]
      ++ nodes.map (fun node => indent (level + 1) (nodeLine index node))
      ++ clustersLines graph index (level + 1) children
      ++ [indent level "\x7d"]

def clustersLines (graph : DependencyGraph) (index : Index) (level : Nat) :
    List Reactor → List String
  | [] => []
  | reactor :: rest => clusterLines graph index level reactor ++ clustersLines graph index level rest

end

end Dot

namespace DependencyGraph

/-- The graph in the DOT language, with the steps of a cycle report in red. -/
def dot (graph : DependencyGraph) (index : Index) (report : Option CycleReport) : String :=
  let steps := (report.map CycleReport.steps).getD []
  let head :=
    ["digraph reactors \x7b",
      Dot.indent 1 "rankdir=LR;",
      Dot.indent 1 ("node [fontname=" ++ Dot.quote "Helvetica" ++ ", fontsize=10];"),
      Dot.indent 1 ("edge [fontname=" ++ Dot.quote "Helvetica" ++ ", fontsize=9];"),
      ""]
  let edges := graph.edges.map fun edge => Dot.indent 1 (Dot.edgeLine steps edge)
  ofLines (head ++ Dot.clusterLines graph index 1 index.main ++ [""] ++ edges ++ ["\x7d"])

end DependencyGraph

end ReactorCausality
