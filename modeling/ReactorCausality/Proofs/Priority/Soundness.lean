import ReactorCausality.Proofs.Outcome
import ReactorCausality.Proofs.Priority.Certificate

/-!
What a certificate proves of a table that need not belong to the graph: the table was assigned to
some graph, and the graph and the index may be those of other programs. Every lookup of the
certificate succeeds all the same (`certificate?_eq`). If all obligations hold, the table follows the
zero-delay edges of the graph with its ranks (`follows_of_certificate`), and so all zero-delay paths.
-/
namespace ReactorCausality

open DependencyGraph

/-- Whether the node at a position is a reaction, and which one, if there is a node. -/
def DependencyGraph.lookUpReaction? (graph : DependencyGraph) (node : Nat) :
    Option (Option ReactionId) :=
  (graph.nodes[node]?).map fun found => found.kind.reaction?

namespace PriorityTable

/-! ### Lookups -/

/-- The first obligation, where every reaction that is ranked is looked up. -/
def ranksEvery? (table : PriorityTable) (graph : DependencyGraph) : Option Bool :=
  let reactions := graph.reactions.map Prod.snd
  if table.size = reactions.length then do
    let priorities ← table.entries.mapM fun entry => table.get? entry.reaction
    return reactions.all (fun reaction => (table.get? reaction).isSome)
      && priorities.zipIdx.all fun (priority, position) => priority.rank == position
  else some false

/-- Whether the level rises from one node to another, if both are reactions. -/
def levelRises (table : PriorityTable) : Option ReactionId → Option ReactionId → Bool
  | some first, some second => levelBelow (table.level? first) (table.level? second)
  | _, _ => true

/-- Looks both ends of an edge up. -/
def lookUpEnds {α : Type} (lookUp : Nat → Option α) (edge : Edge) : Option (α × α) := do
  return (← lookUp edge.source, ← lookUp edge.target)

/-- The second obligation, where the ends of every zero-delay edge are looked up in the order and
among the nodes, and every node of the order is looked up too. -/
def followsPaths? (table : PriorityTable) (graph : DependencyGraph) : Option Bool :=
  if table.nodeOrder.length = graph.nodes.length then do
    let positions ← graph.zeroDelayEdges.mapM (lookUpEnds table.nodeOrder.idxOf?)
    let inOrder ← table.nodeOrder.mapM graph.lookUpReaction?
    let reactions ← graph.zeroDelayEdges.mapM (lookUpEnds graph.lookUpReaction?)
    return positions.all (fun (source, target) => source < target)
      && ((inOrder.filterMap id).zip (table.entries.map PriorityEntry.reaction)).all
        (fun (inOrder, ranked) => inOrder == ranked)
      && reactions.all fun (source, target) => table.levelRises source target
  else some false

/-- A certificate for which every lookup has to succeed. -/
def certificate? (table : PriorityTable) (graph : DependencyGraph) (index : Index) :
    Option PriorityCertificate := do
  let everyReactionRanked ← table.ranksEvery? graph
  let pathsIncreaseRank ← table.followsPaths? graph
  return { everyReactionRanked, pathsIncreaseRank
           declarationOrderKept := table.keepsDeclarationOrder index }

theorem mapM_lookUpEnds {α : Type} {lookUp : Nat → Option α} (value : Nat → α)
    {edges : List Edge} (each : ∀ edge ∈ edges, lookUp edge.source = some (value edge.source) ∧
      lookUp edge.target = some (value edge.target)) : edges.mapM (lookUpEnds lookUp) =
        some (edges.map fun edge => (value edge.source, value edge.target)) := by
  refine mapM_eq_some fun edge member => ?_
  obtain ⟨source, target⟩ := each edge member
  simp [lookUpEnds, source, target]

theorem idxOf?_eq_some {order : List Nat} {node : Nat} (member : node ∈ order) :
    order.idxOf? node = some (order.idxOf node) := by
  cases found : order.idxOf? node with
  | none => simp_all
  | some position => simp [List.idxOf_eq_getD_idxOf?, found]

theorem lookUpReaction?_eq {graph : DependencyGraph} {node : Nat}
    (less : node < graph.nodes.length) :
    graph.lookUpReaction? node = some (graph.reactionAt? node) := by
  simp [lookUpReaction?, reactionAt?, less]

namespace BelongsTo

variable {table : PriorityTable} {tabled graph : DependencyGraph}
  (belongs : table.BelongsTo tabled)
include belongs

theorem ranksEvery?_eq (wellFormed : tabled.WellFormed) :
    table.ranksEvery? graph = some (table.ranksEvery graph) := by
  have found : (table.entries.mapM fun entry => table.get? entry.reaction) =
      some (table.entries.map PriorityEntry.priority) :=
    mapM_eq_some fun entry member => belongs.get?_of_mem wellFormed member
  by_cases size : table.size = graph.reactions.length
  · simp [ranksEvery?, PriorityTable.ranksEvery, size, found, List.zipIdx_map, Function.comp_def]
  · simp [ranksEvery?, PriorityTable.ranksEvery, size]

/-- An order that has as many nodes as the graph has the same nodes. -/
theorem placed_of_length (length : table.nodeOrder.length = graph.nodes.length) :
    table.nodeOrder.Perm (List.range graph.nodes.length) := by
  have placed := belongs.placed
  have same : tabled.nodes.length = graph.nodes.length := by
    simpa using placed.length_eq.symm.trans length
  rwa [same] at placed

theorem followsPaths?_eq (wellFormed : graph.WellFormed) :
    table.followsPaths? graph = some (table.followsPaths graph) := by
  by_cases length : table.nodeOrder.length = graph.nodes.length
  · have placed (node : Nat) : node ∈ table.nodeOrder ↔ node < graph.nodes.length := by
      rw [(belongs.placed_of_length length).mem_iff, List.mem_range]
    have ends (edge : Edge) (member : edge ∈ graph.zeroDelayEdges) :
        edge.source < graph.nodes.length ∧ edge.target < graph.nodes.length :=
      ⟨wellFormed.source_lt edge (List.mem_of_mem_filter member),
        wellFormed.target_lt edge (List.mem_of_mem_filter member)⟩
    have positions : graph.zeroDelayEdges.mapM (lookUpEnds table.nodeOrder.idxOf?) = some _ :=
      mapM_lookUpEnds table.nodeOrder.idxOf fun edge member =>
        ⟨idxOf?_eq_some ((placed _).mpr (ends edge member).1),
          idxOf?_eq_some ((placed _).mpr (ends edge member).2)⟩
    have inOrder : table.nodeOrder.mapM graph.lookUpReaction? = some _ :=
      mapM_eq_some fun node member => lookUpReaction?_eq ((placed node).mp member)
    have reactions : graph.zeroDelayEdges.mapM (lookUpEnds graph.lookUpReaction?) = some _ :=
      mapM_lookUpEnds graph.reactionAt? fun edge member =>
        ⟨lookUpReaction?_eq (ends edge member).1, lookUpReaction?_eq (ends edge member).2⟩
    simp only [followsPaths?, PriorityTable.followsPaths, length, if_true, positions, inOrder,
      reactions, Option.bind_eq_bind, Option.bind_some, List.filterMap_map, List.all_map,
      beq_self_eq_true, Bool.true_and]
    rfl
  · simp [followsPaths?, PriorityTable.followsPaths, length]

/-- No lookup of a certificate fails. -/
theorem certificate?_eq (tabledWellFormed : tabled.WellFormed) (wellFormed : graph.WellFormed)
    (index : Index) :
    table.certificate? graph index = some (table.certificate graph index) := by
  rw [certificate?, belongs.ranksEvery?_eq tabledWellFormed, belongs.followsPaths?_eq wellFormed]
  rfl

/-! ### What follows from a certificate -/

/-- The order has as many nodes as the graph, so its reactions are those of the graph, and these are as
many as the entries. Both lists of reactions are thus equally long, and nothing is left out where
they are compared. -/
theorem follows_of_certificate (ranked : table.ranksEvery graph)
    (followed : table.followsPaths graph) : table.Follows graph := by
  obtain ⟨size, -, ranks⟩ := ranksEvery_iff.mp ranked
  obtain ⟨length, forward, same, -⟩ := followsPaths_iff.mp followed
  have placed := belongs.placed_of_length length
  have asMany : (table.nodeOrder.filterMap graph.reactionAt?).length =
      (table.entries.map PriorityEntry.reaction).length := by
    have placedReactions := (placed.filterMap graph.reactionAt?).length_eq
    rw [← map_snd_reactions, List.length_map, ← size] at placedReactions
    rw [placedReactions, List.length_map]
    rfl
  have reactions : table.nodeOrder.filterMap graph.reactionAt? =
      table.entries.map PriorityEntry.reaction := by
    refine List.ext_getElem asMany fun position less lessToo => ?_
    refine same (_, _) (List.mem_iff_getElem.mpr ⟨position, ?_, List.getElem_zip⟩)
    rw [List.length_zip]
    exact Nat.lt_min.mpr ⟨less, lessToo⟩
  exact ⟨placed, forward, reactions.symm, ranks⟩

end BelongsTo

/-- Every reaction of a graph has one rank, the ranks count up from zero and rise along all zero-delay
paths of the graph, and along the ordered reactions of every reactor of a program. -/
structure RanksSoundly (table : PriorityTable) (graph : DependencyGraph) (program : Program) :
    Prop where
  ranked : ∀ reaction ∈ graph.reactions.map Prod.snd,
    ∃! entry, entry ∈ table.entries ∧ entry.reaction = reaction
  dense : ((graph.reactions.map Prod.snd).map table.rank?).Perm
    ((List.range graph.reactions.length).map some)
  paths : ∀ source target first second, graph.reactionAt? source = some first →
    graph.reactionAt? target = some second → graph.Reaches source target →
      table.RanksBelow first second
  declared : ∀ reactor ∈ program.reactors, ∃ ranks : List Nat,
    (Reaction.orderedIds reactor.reactions).map table.rank? = ranks.map some ∧
      ranks.Pairwise (· < ·)

end PriorityTable

/-- A certificate can be asked for whatever graph and index a table is put beside, and one that holds
throughout proves all that ranks have to keep to. -/
theorem certificate_sound_for_ranks {tabled : DependencyGraph} {table : PriorityTable}
    {program other : Program} {index otherIndex : Index} (tabledWellFormed : tabled.WellFormed)
    (assigned : tabled.priorities = .ok table) (accepted : Index.build program = .ok index)
    (acceptedToo : Index.build other = .ok otherIndex) :
    table.certificate? index.graph otherIndex = some (table.certificate index.graph otherIndex) ∧
      ((table.certificate index.graph otherIndex).allHold →
        table.RanksSoundly index.graph other) := by
  have belongs := tabledWellFormed.belongsTo_of_priorities assigned
  have wellFormed := ((Index.build_eq_ok_iff program index).mp accepted).graph_wellFormed
  have described := (Index.build_eq_ok_iff other otherIndex).mp acceptedToo
  refine ⟨belongs.certificate?_eq tabledWellFormed wellFormed otherIndex, fun holds => ?_⟩
  obtain ⟨ranked, followed, kept⟩ := PriorityTable.allHold_certificate_iff.mp holds
  have follows := belongs.follows_of_certificate ranked followed
  constructor
  · intro reaction listed
    obtain ⟨entry, member, rfl⟩ := List.mem_map.mp (follows.perm_reactions.mem_iff.mpr listed)
    refine ⟨entry, ⟨member, rfl⟩, fun second isSecond => ?_⟩
    exact List.inj_on_of_nodup_map (follows.nodup_reactions wellFormed) isSecond.1 member isSecond.2
  · have ranks := follows.perm_ranks wellFormed
    rwa [(PriorityTable.ranksEvery_iff.mp ranked).1] at ranks
  · intro source target first second isFirst isSecond reaches
    exact follows.rank_lt wellFormed reaches isFirst isSecond
  · intro reactor inside
    obtain ⟨entry, listed, rfl⟩ := List.mem_map.mp (described.map_reactors ▸ inside)
    exact PriorityTable.keepsDeclarationOrder_iff.mp kept entry listed

/-- One reactor sends to another, perhaps with a delay. The other one has a second reaction. -/
def Program.handover (delay : Option TimeValue) : Program where
  main :=
    { id := ⟨0⟩, name := "main"
      children := [
        { id := ⟨1⟩, name := "source", ports := [⟨⟨0⟩, "out", .output⟩]
          reactions := [
            { id := ⟨0⟩, index := 0, triggers := [.startup], effects := [.port ⟨0⟩] }] },
        { id := ⟨2⟩, name := "sink", ports := [⟨⟨1⟩, "in", .input⟩]
          reactions := [
            { id := ⟨1⟩, index := 0, triggers := [.port ⟨1⟩] },
            { id := ⟨2⟩, index := 1, triggers := [.shutdown] }] }]
      connections := [{ id := ⟨0⟩, source := ⟨0⟩, target := ⟨1⟩, delay }] }

def Index.handover : Index :=
  (survey (.handover none)).index

/-- The same with a delay. -/
def Index.lateHandover : Index :=
  (survey (.handover (some ⟨1000000⟩))).index

theorem Index.build_handover : build (.handover none) = .ok handover :=
  rfl

theorem Index.build_lateHandover : build (.handover (some ⟨1000000⟩)) = .ok lateHandover :=
  rfl

theorem Index.wellFormed_lateHandover : lateHandover.graph.WellFormed :=
  ((build_eq_ok_iff _ _).mp build_lateHandover).graph_wellFormed

/-- The priorities with the delay: what receives is at the level of what sends. -/
def PriorityTable.lateHandover : PriorityTable where
  entries := [⟨⟨0⟩, ⟨0, 0⟩⟩, ⟨⟨1⟩, ⟨1, 0⟩⟩, ⟨⟨2⟩, ⟨2, 1⟩⟩]
  nodeOrder := [0, 1, 3, 2, 4]

theorem Index.priorities_lateHandover : lateHandover.graph.priorities = .ok .lateHandover :=
  rfl

theorem Index.reaches_handover : handover.graph.Reaches 0 2 := by
  have step (source target : Nat) (leads : target ∈ handover.graph.successors source) :
      handover.graph.Step source target := mem_successors_iff.mp leads
  exact .tail (.tail (.single (step 0 1 (by decide))) (step 1 3 (by decide))) (step 3 2 (by decide))

theorem certificate_sound_for_ranks_handover : Index.lateHandover.graph.WellFormed ∧
    Index.lateHandover.graph.priorities = .ok .lateHandover ∧
    Index.build (.handover none) = .ok .handover ∧
    Index.build (.handover (some ⟨1000000⟩)) = .ok .lateHandover ∧
    (PriorityTable.lateHandover.certificate Index.handover.graph Index.lateHandover).allHold ∧
    PriorityTable.lateHandover.RanksSoundly Index.handover.graph (.handover (some ⟨1000000⟩)) ∧
    PriorityTable.lateHandover.RanksBelow ⟨0⟩ ⟨1⟩ := by
  have holds : (PriorityTable.lateHandover.certificate Index.handover.graph
      Index.lateHandover).allHold := by decide +kernel
  have sound := (certificate_sound_for_ranks Index.wellFormed_lateHandover
    Index.priorities_lateHandover Index.build_handover Index.build_lateHandover).2 holds
  exact ⟨Index.wellFormed_lateHandover, Index.priorities_lateHandover, Index.build_handover,
    Index.build_lateHandover, holds, sound,
    sound.paths 0 2 ⟨0⟩ ⟨1⟩ rfl rfl Index.reaches_handover⟩

end ReactorCausality
