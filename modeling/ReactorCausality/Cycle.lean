import ReactorCausality.Search.ClosedWalk
import ReactorCausality.Search.Component
import ReactorCausality.Subject

/-!
Zero-delay cycles. A component of the zero-delay view with a cycle inside is reported as one cycle,
with its members and a shortest closed walk through the first of them. A program has an order of
execution exactly if no cycle is reported.
-/
namespace ReactorCausality

/-- A node on a cycle. -/
structure CycleMember where
  node : Nat
  subject : Subject
  name : String
  deriving DecidableEq, Repr

/-- A component of the zero-delay view with a cycle inside. -/
structure Cycle where
  /-- The nodes of the component, in ascending order. -/
  members : List CycleMember
  /-- A shortest closed walk through the first member, which begins and ends there. -/
  path : List Nat
  pathNames : List String
  deriving DecidableEq, Repr

namespace Cycle

def contains (cycle : Cycle) (node : Nat) : Bool :=
  cycle.members.any fun member => member.node = node

/-- The steps of the closed walk. -/
def steps (cycle : Cycle) : List (Nat × Nat) :=
  cycle.path.zip cycle.path.tail

def ofComponent (graph : DependencyGraph) (next : Nat → List Nat) (component : List Nat) : Cycle :=
  let path := ClosedWalk.shortest next component (component.headD 0)
  { members := component.filterMap fun node =>
      (graph.nodes[node]?).map fun found => ⟨node, .ofNode found.kind, found.name⟩
    path
    pathNames := path.map graph.nodeName }

end Cycle

/-- All cycles of a graph, by their first members. -/
structure CycleReport where
  cycles : List Cycle
  deriving DecidableEq, Repr

namespace CycleReport

def isAcyclic (report : CycleReport) : Bool :=
  report.cycles.isEmpty

def steps (report : CycleReport) : List (Nat × Nat) :=
  report.cycles.flatMap Cycle.steps

end CycleReport

namespace DependencyGraph

/-- The components of the zero-delay view with a cycle inside, by their first members. -/
def cyclicComponents (graph : DependencyGraph) : List (List Nat) :=
  ((Component.all graph.nodes.length graph.successors).filter
    (Component.isCyclic graph.successors)).mergeSort
      fun left right => left.headD 0 ≤ right.headD 0

def cycles (graph : DependencyGraph) : CycleReport :=
  ⟨graph.cyclicComponents.map (Cycle.ofComponent graph graph.successors)⟩

end DependencyGraph

end ReactorCausality
