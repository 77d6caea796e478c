import ReactorCausality.Index.Basic
import ReactorCausality.Priority.Table

/-!
Certificates of priorities. A certificate says of a table, a dependency graph and an index which of
three obligations hold: every reaction of the graph is ranked and ranks are dense; ranks and levels
follow the zero-delay edges of the graph; ordered reactions of a reactor are ranked as declared.
The three need not belong together, and a table that does not belong to the graph fails.
-/
namespace ReactorCausality

/-- Which obligations hold. -/
structure PriorityCertificate where
  everyReactionRanked : Bool
  pathsIncreaseRank : Bool
  declarationOrderKept : Bool
  deriving DecidableEq, Repr

namespace PriorityCertificate

def obligations (certificate : PriorityCertificate) : List (String × Bool) :=
  [("P1_every_reaction_ranked", certificate.everyReactionRanked),
    ("P2_paths_increase_rank", certificate.pathsIncreaseRank),
    ("P3_declaration_order_kept", certificate.declarationOrderKept)]

def allHold (certificate : PriorityCertificate) : Bool :=
  certificate.obligations.all Prod.snd

def failed (certificate : PriorityCertificate) : List String :=
  (certificate.obligations.filter fun obligation => !obligation.2).map Prod.fst

end PriorityCertificate

namespace PriorityTable

/-- Every reaction of the graph has a priority, there are no others, and the ranks count up from
zero. -/
def ranksEvery (table : PriorityTable) (graph : DependencyGraph) : Bool :=
  let reactions := graph.reactions.map Prod.snd
  table.size == reactions.length
    && reactions.all (fun reaction => (table.get? reaction).isSome)
    && table.entries.zipIdx.all fun (entry, position) => entry.priority.rank == position

/-- Whether one level is below another. A missing level is below every level. -/
def levelBelow : Option Nat → Option Nat → Bool
  | none, some _ => true
  | some left, some right => left < right
  | _, none => false

/-- Zero-delay edges lead forward in the order of the nodes, the ranks follow that order, and
levels rise along zero-delay edges between reactions. -/
def followsPaths (table : PriorityTable) (graph : DependencyGraph) : Bool :=
  table.nodeOrder.length == graph.nodes.length
    && graph.zeroDelayEdges.all (fun edge =>
      table.nodeOrder.idxOf edge.source < table.nodeOrder.idxOf edge.target)
    && ((table.nodeOrder.filterMap graph.reactionAt?).zip
      (table.entries.map PriorityEntry.reaction)).all (fun (inOrder, ranked) => inOrder == ranked)
    && graph.zeroDelayEdges.all fun edge =>
      match graph.reactionAt? edge.source, graph.reactionAt? edge.target with
      | some source, some target => levelBelow (table.level? source) (table.level? target)
      | _, _ => true

/-- Every number in the list is there and below the next. -/
def strictlyAscending : List (Option Nat) → Bool
  | [] => true
  | [only] => only.isSome
  | some first :: some second :: rest => first < second && strictlyAscending (some second :: rest)
  | _ => false

def keepsDeclarationOrder (table : PriorityTable) (index : Index) : Bool :=
  index.reactors.all fun entry =>
    strictlyAscending
      ((entry.reactor.reactions.filter fun reaction => !reaction.isUnordered).map
        fun reaction => table.rank? reaction.id)

def certificate (table : PriorityTable) (graph : DependencyGraph) (index : Index) :
    PriorityCertificate :=
  { everyReactionRanked := table.ranksEvery graph
    pathsIncreaseRank := table.followsPaths graph
    declarationOrderKept := table.keepsDeclarationOrder index }

end PriorityTable

end ReactorCausality
