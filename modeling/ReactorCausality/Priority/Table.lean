import ReactorCausality.Graph.Basic

/-!
Priorities. Every reaction gets a rank, its place in one order of execution, and a level, the
number of reactions on the longest zero-delay chain that has to run before it. The order places the
nodes of the dependency graph one by one: of all nodes whose predecessors are placed, the one at
the smallest position is next. Nodes on a zero-delay cycle, and those behind one, are never ready;
then there are no priorities.
-/
namespace ReactorCausality

/-- The rank and the level of a reaction. -/
structure Priority where
  rank : Nat
  level : Nat
  deriving DecidableEq, Repr

/-- A reaction with its priority. -/
structure PriorityEntry where
  reaction : ReactionId
  priority : Priority
  deriving DecidableEq, Repr

/-- The priorities of all reactions by rank, and the order of all nodes that they come from. -/
structure PriorityTable where
  entries : List PriorityEntry
  nodeOrder : List Nat
  deriving DecidableEq, Repr

namespace PriorityTable

def get? (table : PriorityTable) (reaction : ReactionId) : Option Priority :=
  (table.entries.find? fun entry => entry.reaction = reaction).map PriorityEntry.priority

def rank? (table : PriorityTable) (reaction : ReactionId) : Option Nat :=
  (table.get? reaction).map Priority.rank

def level? (table : PriorityTable) (reaction : ReactionId) : Option Nat :=
  (table.get? reaction).map Priority.level

def size (table : PriorityTable) : Nat :=
  table.entries.length

def maxLevel? (table : PriorityTable) : Option Nat :=
  (table.entries.map fun entry => entry.priority.level).max?

end PriorityTable

/-- So many nodes are never ready: the zero-delay view has a cycle. -/
structure Stalled where
  stuck : Nat
  deriving DecidableEq, Repr

def Stalled.message (fault : Stalled) : String :=
  s!"priority assignment stalled with {fault.stuck} node(s) never ready; " ++
    "the zero-delay graph is cyclic"

/-- Nodes that are being placed. -/
structure Placement where
  /-- For every node, how many zero-delay edges lead to it from nodes that are not placed. -/
  waiting : Array Nat
  /-- For every node, how many reactions are on the longest chain found in front of it. -/
  depth : Array Nat
  /-- The nodes that wait for nothing and are not placed, in ascending order. -/
  ready : List Nat
  /-- The nodes that are placed. -/
  order : List Nat := []
  entries : List PriorityEntry := []
  deriving Repr

namespace Placement

/-- Puts a number into an ascending list. -/
def insertAscending (n : Nat) : List Nat → List Nat
  | [] => [n]
  | m :: rest => if n ≤ m then n :: m :: rest else m :: insertAscending n rest

/-- Nothing is placed, and only nodes without predecessors are ready. -/
def start (graph : DependencyGraph) : Placement :=
  let nodes := List.range graph.nodes.length
  { waiting := (nodes.map fun node => (graph.predecessors node).length).toArray
    depth := (nodes.map fun _ => 0).toArray
    ready := nodes.filter fun node => (graph.predecessors node).isEmpty }

/-- Takes one zero-delay edge to a node off the count, from a node behind which chains have the
given number of reactions. A node that waits for nothing any more is ready. -/
def release (carried : Nat) (placement : Placement) (node : Nat) : Placement :=
  let waiting := placement.waiting.getD node 0 - 1
  { placement with
    depth := placement.depth.modify node (max carried)
    waiting := placement.waiting.setIfInBounds node waiting
    ready := if waiting = 0 then insertAscending node placement.ready else placement.ready }

/-- Places a node; the other nodes that are ready are given. A reaction gets the next rank. -/
def place (graph : DependencyGraph) (placement : Placement) (node : Nat) (ready : List Nat) :
    Placement :=
  let depth := placement.depth.getD node 0
  let placed := { placement with ready, order := placement.order ++ [node] }
  match graph.reactionAt? node with
  | none => (graph.successors node).foldl (release depth) placed
  | some reaction =>
    let entry := ⟨reaction, ⟨placement.entries.length, depth⟩⟩
    (graph.successors node).foldl (release (depth + 1))
      { placed with entries := placement.entries ++ [entry] }

/-- Places nodes as long as one is ready, so many at most. -/
def run (graph : DependencyGraph) : Nat → Placement → Placement
  | 0, placement => placement
  | rounds + 1, placement =>
    match placement.ready with
    | [] => placement
    | node :: ready => run graph rounds (placement.place graph node ready)

end Placement

namespace DependencyGraph

/-- The priorities of all reactions. A node is placed once, so there are no more rounds than
nodes. -/
def priorities (graph : DependencyGraph) : Except Stalled PriorityTable :=
  let count := graph.nodes.length
  let final := Placement.run graph count (Placement.start graph)
  if final.order.length < count then .error ⟨count - final.order.length⟩
  else .ok ⟨final.entries, final.order⟩

end DependencyGraph

end ReactorCausality
