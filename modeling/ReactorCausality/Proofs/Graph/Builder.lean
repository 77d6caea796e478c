import ReactorCausality.Graph.Builder
import ReactorCausality.Proofs.Graph.Contents
import ReactorCausality.Proofs.Outcome

/-!
The builder of dependency graphs never stops on an accepted program, and it comes to the graph in which
everything stands where the program mentions it first (`build_eq`). While it works, its nodes are those
of what has been mentioned, and they stay where they are (`Shows`); so an edge is added between the
positions that its ends have in the end.
-/
namespace ReactorCausality

section Distinct

variable {α : Type} [DecidableEq α] {a : α} {list : List α}

theorem distinct_append (list more : List α) : distinct (list ++ more) =
    distinct list ++ (distinct more).filter fun b => b ∉ list := by
  induction list with
  | nil => simp [distinct]
  | cons a rest ih =>
    rw [List.cons_append, distinct, distinct, ih, List.filter_append, List.filter_filter,
      List.cons_append]
    simp [not_or]

theorem distinct_concat_of_mem (member : a ∈ list) : distinct (list ++ [a]) = distinct list := by
  simp [distinct_append, distinct, member]

theorem distinct_concat_of_not_mem (new : a ∉ list) :
    distinct (list ++ [a]) = distinct list ++ [a] := by
  simp [distinct_append, distinct, new]

/-- Nothing is lost where nothing is repeated. -/
theorem filterMap_distinct {β : Type} {f : α → Option β} (once : (list.filterMap f).Nodup) :
    (distinct list).filterMap f = list.filterMap f := by
  induction list with
  | nil => rfl
  | cons a rest ih =>
    have onceLater : (rest.filterMap f).Nodup :=
      once.sublist ((List.sublist_cons_self a rest).filterMap f)
    have kept : ∀ b ∈ distinct rest, (if b ≠ a then f b else none) = f b := by
      intro b member
      split
      · rfl
      · next same =>
        obtain rfl : b = a := not_not.mp same
        cases value : f b with
        | none => rfl
        | some c =>
          rw [List.filterMap_cons_some value, List.nodup_cons] at once
          exact absurd (List.mem_filterMap.mpr ⟨b, mem_distinct.mp member, value⟩) once.1
    have later : ((distinct rest).filter fun b => b ≠ a).filterMap f = rest.filterMap f := by
      rw [← ih onceLater, List.filterMap_filter]
      simpa using List.filterMap_congr kept
    rw [distinct, List.filterMap_cons, List.filterMap_cons, later]

/-- What has been listed stays where it is. -/
theorem idxOf_distinct_append (member : a ∈ list) (more : List α) :
    (distinct (list ++ more)).idxOf a = (distinct list).idxOf a := by
  rw [distinct_append, List.idxOf_append_of_mem (mem_distinct.mpr member)]

/-- The place of something among what is listed, not counting repetitions. -/
def place? (list : List α) (a : α) : Option Nat :=
  if a ∈ list then some ((distinct list).idxOf a) else none

theorem place?_concat (new : a ∉ list) (b : α) : place? (list ++ [a]) b =
    if a = b then some (distinct list).length else place? list b := by
  have newToo : a ∉ distinct list := mt mem_distinct.mp new
  by_cases same : a = b
  · subst same
    simp [place?, distinct_concat_of_not_mem new, List.idxOf_append_of_notMem newToo]
  · have other : b ≠ a := Ne.symm same
    by_cases member : b ∈ list <;> simp [place?, idxOf_distinct_append, member, same, other]

end Distinct

theorem lookup_cons_eq_ite {κ ν : Type} [DecidableEq κ] (key : κ) (value : ν)
    (pairs : List (κ × ν)) (other : κ) : ((key, value) :: pairs).lookup other =
      if key = other then some value else pairs.lookup other := by
  by_cases same : key = other
  · simp [same]
  · have differ : (other == key) = false := beq_eq_false_iff_ne.mpr (Ne.symm same)
    rw [List.lookup_cons, differ, if_neg same]

def Reactor.dependencies (reactor : Reactor) : List Dependency :=
  Reaction.dependencies none reactor.reactions

/-- No reaction is listed twice. -/
def ReactionsOnce (kinds : List NodeKind) : Prop :=
  (kinds.filterMap NodeKind.reaction?).Nodup

/-- What the reactors of a program mention are its reactions in order, among ports. -/
theorem Program.filterMap_reaction?_mentions (program : Program) :
    (program.reactors.flatMap Reactor.mentions).filterMap NodeKind.reaction? =
      program.reactions.map Reaction.id := by
  have ofReaction (reaction : Reaction) :
      reaction.mentions.filterMap NodeKind.reaction? = [reaction.id] := by
    simp [Reaction.mentions, NodeKind.reaction?]
  have ofReactor (reactor : Reactor) :
      reactor.mentions.filterMap NodeKind.reaction? = reactor.reactions.map Reaction.id := by
    simp [Reactor.mentions, List.filterMap_flatMap, ofReaction, ← List.map_eq_flatMap,
      NodeKind.reaction?]
  simp [Program.reactions, List.filterMap_flatMap, List.map_flatMap, ofReactor]

theorem ReactionsOnce.left {kinds more : List NodeKind} (once : ReactionsOnce (kinds ++ more)) :
    ReactionsOnce kinds := by
  rw [ReactionsOnce, List.filterMap_append] at once
  exact once.of_append_left

theorem ReactionsOnce.new {kinds more : List NodeKind} {id : ReactionId}
    (once : ReactionsOnce (kinds ++ .reaction id :: more)) : .reaction id ∉ kinds := by
  intro member
  rw [ReactionsOnce, List.filterMap_append] at once
  exact List.disjoint_of_nodup_append once (List.mem_filterMap.mpr ⟨_, member, rfl⟩)
    (List.mem_filterMap.mpr ⟨.reaction id, List.mem_cons_self, rfl⟩)

namespace GraphBuilder

/-- The builder has nodes for some reactions and ports, in the order in which they are first listed,
and edges for some dependencies between them. -/
structure Shows (builder : GraphBuilder) (index : Index) (kinds : List NodeKind)
    (dependencies : List Dependency) : Prop where
  known : ∀ kind ∈ kinds, (index.node? kind).isSome
  nodes : builder.nodes = (distinct kinds).filterMap index.node?
  reactionNodes : ∀ id, builder.reactionNodes.lookup id = place? kinds (.reaction id)
  portNodes : ∀ id, builder.portNodes.lookup id = place? kinds (.port id)
  ends : ∀ dependency ∈ dependencies, dependency.source ∈ kinds ∧ dependency.target ∈ kinds
  edges : builder.edges = dependencies.map fun dependency =>
    ⟨(distinct kinds).idxOf dependency.source, (distinct kinds).idxOf dependency.target,
      dependency.kind⟩

variable {index : Index} {builder : GraphBuilder} {kinds : List NodeKind}
  {dependencies : List Dependency}

namespace Shows

theorem length_nodes (shows : builder.Shows index kinds dependencies) :
    builder.nodes.length = (distinct kinds).length := by
  rw [shows.nodes, List.length_filterMap_eq_countP, List.countP_eq_length]
  exact fun kind member => shows.known kind (mem_distinct.mp member)

/-- Repetitions in the list do not matter. -/
theorem congr {others : List NodeKind} (shows : builder.Shows index kinds dependencies)
    (same : distinct others = distinct kinds) : builder.Shows index others dependencies := by
  have mem_iff (kind : NodeKind) : kind ∈ others ↔ kind ∈ kinds := by
    rw [← mem_distinct, same, mem_distinct]
  obtain ⟨known, nodes, reactionNodes, portNodes, ends, edges⟩ := shows
  constructor <;> simpa only [place?, mem_iff, same]

/-- A node for something that has not been listed comes last, and the others stay where they are. -/
theorem extend {after : GraphBuilder} (shows : builder.Shows index kinds dependencies)
    {kind : NodeKind} {node : Node} (new : kind ∉ kinds) (isNode : index.node? kind = some node)
    (nodes : after.nodes = builder.nodes ++ [node]) (edges : after.edges = builder.edges)
    (reactionNodes : ∀ id, after.reactionNodes.lookup id =
      if kind = .reaction id then some builder.nodes.length else builder.reactionNodes.lookup id)
    (portNodes : ∀ id, after.portNodes.lookup id =
      if kind = .port id then some builder.nodes.length else builder.portNodes.lookup id) :
    after.Shows index (kinds ++ [kind]) dependencies where
  known := by simpa [or_imp, forall_and, isNode] using shows.known
  nodes := by
    rw [nodes, distinct_concat_of_not_mem new, List.filterMap_append, shows.nodes]
    simp [isNode]
  reactionNodes id := by
    rw [reactionNodes, shows.length_nodes, shows.reactionNodes, place?_concat new]
  portNodes id := by
    rw [portNodes, shows.length_nodes, shows.portNodes, place?_concat new]
  ends dependency member := by
    obtain ⟨source, target⟩ := shows.ends dependency member
    exact ⟨List.mem_append_left _ source, List.mem_append_left _ target⟩
  edges := by
    rw [edges, shows.edges]
    refine List.map_congr_left fun dependency member => ?_
    obtain ⟨source, target⟩ := shows.ends dependency member
    rw [idxOf_distinct_append source, idxOf_distinct_append target]

theorem addEdge (shows : builder.Shows index kinds dependencies) {source target : NodeKind}
    (isSource : source ∈ kinds) (isTarget : target ∈ kinds) (kind : EdgeKind) :
    (builder.addEdge ((distinct kinds).idxOf source) ((distinct kinds).idxOf target) kind).Shows index
      kinds (dependencies ++ [⟨source, target, kind⟩]) where
  known := shows.known
  nodes := shows.nodes
  reactionNodes := shows.reactionNodes
  portNodes := shows.portNodes
  ends := by simpa [or_imp, forall_and, isSource, isTarget] using shows.ends
  edges := by simp [GraphBuilder.addEdge, shows.edges]

theorem addReactionNode (shows : builder.Shows index kinds dependencies) {id : ReactionId}
    {owner : ReactorId} {name : String} (new : .reaction id ∉ kinds)
    (isNode : index.node? (.reaction id) = some ⟨.reaction id, owner, name⟩) :
    (builder.addReactionNode id owner name).Shows index (kinds ++ [.reaction id]) dependencies := by
  refine shows.extend new isNode rfl rfl (fun other => ?_) fun other => rfl
  simp [GraphBuilder.addReactionNode, lookup_cons_eq_ite]

end Shows

/-! ### What the builder does -/

/-- A port that the index has gets its node where it is first listed. -/
theorem exists_portNode (shows : builder.Shows index kinds dependencies) (referrer : String)
    {port : PortId} (declared : (index.port? port).isSome) : ∃ after,
      builder.portNode index referrer port =
        .ok (after, (distinct (kinds ++ [.port port])).idxOf (.port port)) ∧
      after.Shows index (kinds ++ [.port port]) dependencies := by
  obtain ⟨entry, found⟩ := Option.isSome_iff_exists.mp declared
  have isNode := shows.portNodes port
  by_cases member : .port port ∈ kinds
  · have same := distinct_concat_of_mem member
    rw [place?, if_pos member] at isNode
    exact ⟨builder, by rw [portNode, isNode, same], shows.congr same⟩
  · have new : NodeKind.port port ∉ distinct kinds := mt mem_distinct.mp member
    rw [place?, if_neg member] at isNode
    let after : GraphBuilder := { builder with
      nodes := builder.nodes ++ [⟨.port port, entry.owner, entry.name⟩]
      portNodes := (port, builder.nodes.length) :: builder.portNodes }
    refine ⟨after, ?_, shows.extend member (by simp [Index.node?, found]) rfl rfl (fun _ => rfl) ?_⟩
    · simp [portNode, isNode, found, after, distinct_concat_of_not_mem member, shows.length_nodes,
        List.idxOf_append_of_notMem new]
    · intro other
      simp [after, lookup_cons_eq_ite]

/-- The ports that something touches are listed one by one, and each is joined to it. -/
theorem exists_addTouched (referrer : String) (join : GraphBuilder → Nat → GraphBuilder)
    (joined : PortId → List Dependency) {ports : List PortId} {more : List NodeKind}
    (declared : ∀ port ∈ ports, (index.port? port).isSome)
    (shows : builder.Shows index (kinds ++ more) dependencies)
    (joins : ∀ (builder : GraphBuilder) (more : List NodeKind) (dependencies : List Dependency)
      (port : PortId), builder.Shows index (kinds ++ more) dependencies →
        .port port ∈ kinds ++ more →
        (join builder ((distinct (kinds ++ more)).idxOf (.port port))).Shows index (kinds ++ more)
          (dependencies ++ joined port)) :
    ∃ after, ports.foldlM (addTouched index referrer join) builder = .ok after ∧
      after.Shows index (kinds ++ (more ++ ports.map .port))
        (dependencies ++ ports.flatMap joined) := by
  induction ports generalizing builder more dependencies with
  | nil => exact ⟨builder, rfl, by simpa using shows⟩
  | cons port rest ih =>
    obtain ⟨here, later⟩ := List.forall_mem_cons.mp declared
    obtain ⟨between, done, shows⟩ := exists_portNode shows referrer here
    rw [List.append_assoc] at done shows
    have shows := joins between _ dependencies port shows (by simp)
    obtain ⟨after, goesOn, shows⟩ := ih later shows
    refine ⟨after, ?_, by simpa using shows⟩
    rw [List.foldlM_cons, addTouched, done]
    exact goesOn

/-- The index has a reaction as one of the reactor, and all that the reaction touches. -/
def Serves (index : Index) (owner : ReactorId) (reaction : Reaction) : Prop :=
  index.node? (.reaction reaction.id) =
      some ⟨.reaction reaction.id, owner, index.reactionName reaction.id⟩ ∧
    ∀ port ∈ reaction.readPorts ++ reaction.writtenPorts, (index.port? port).isSome

/-- A reaction gets the next node. -/
theorem exists_addReaction {owner : ReactorId} {reaction : Reaction}
    (served : Serves index owner reaction) (new : .reaction reaction.id ∉ kinds)
    (shows : builder.Shows index kinds dependencies) :
    ∃ after, builder.addReaction index owner reaction = .ok after ∧
      builder.nodes.length =
        (distinct (kinds ++ reaction.mentions)).idxOf (.reaction reaction.id) ∧
      after.Shows index (kinds ++ reaction.mentions)
        (dependencies ++ reaction.portDependencies) := by
  let name := index.reactionName reaction.id
  let node := builder.nodes.length
  obtain ⟨isNode, touched⟩ := served
  rw [List.forall_mem_append] at touched
  obtain ⟨read, written⟩ := touched
  have listed : NodeKind.reaction reaction.id ∈ kinds ++ [.reaction reaction.id] :=
    List.mem_append_right _ List.mem_cons_self
  have place (more : List NodeKind) : node =
      (distinct (kinds ++ [.reaction reaction.id] ++ more)).idxOf (.reaction reaction.id) := by
    have newToo : NodeKind.reaction reaction.id ∉ distinct kinds := mt mem_distinct.mp new
    rw [idxOf_distinct_append listed, distinct_concat_of_not_mem new,
      List.idxOf_append_of_notMem newToo, List.idxOf_cons_self, Nat.add_zero]
    exact shows.length_nodes
  have shows := shows.addReactionNode new isNode
  rw [← List.append_nil (kinds ++ [_])] at shows
  obtain ⟨between, reads, shows⟩ := exists_addTouched name
    (fun builder source => builder.addEdge source node .source)
    (fun port => [⟨.port port, .reaction reaction.id, .source⟩]) read shows
    fun builder more dependencies port shows member => by
      rw [place more]
      exact shows.addEdge member (List.mem_append_left _ listed) .source
  obtain ⟨after, writes, shows⟩ := exists_addTouched name
    (fun builder target => builder.addEdge node target .effect)
    (fun port => [⟨.reaction reaction.id, .port port, .effect⟩]) written shows
    fun builder more dependencies port shows member => by
      rw [place more]
      exact shows.addEdge (List.mem_append_left _ listed) member .effect
  refine ⟨after, ?_, ?_, ?_⟩
  · rw [addReaction, reads]
    exact writes
  · simpa [Reaction.mentions] using place ((reaction.readPorts ++ reaction.writtenPorts).map .port)
  · simpa [Reaction.mentions, Reaction.portDependencies, ← List.map_eq_flatMap] using shows

/-- Every ordered reaction follows the ordered reaction before it. -/
theorem shows_addOrder {previous : Option ReactionId} {id : ReactionId}
    (shows : builder.Shows index kinds dependencies)
    (listed : ∀ before ∈ previous, .reaction before ∈ kinds) (member : .reaction id ∈ kinds) :
    (builder.addOrder (previous.map fun before => (distinct kinds).idxOf (.reaction before))
      ((distinct kinds).idxOf (.reaction id))).Shows index kinds
        (dependencies ++
          (previous.map fun before => ⟨.reaction before, .reaction id, .order⟩).toList) := by
  cases previous with
  | none => simpa [addOrder] using shows
  | some before => exact shows.addEdge (listed before rfl) member .order

theorem exists_addReactions {owner : ReactorId} {reactions : List Reaction}
    (served : ∀ reaction ∈ reactions, Serves index owner reaction)
    (once : ReactionsOnce (kinds ++ reactions.flatMap Reaction.mentions))
    (shows : builder.Shows index kinds dependencies) (previous : Option ReactionId)
    (listed : ∀ before ∈ previous, .reaction before ∈ kinds) :
    ∃ after, builder.addReactions index owner
        (previous.map fun before => (distinct kinds).idxOf (.reaction before)) reactions = .ok after ∧
      after.Shows index (kinds ++ reactions.flatMap Reaction.mentions)
        (dependencies ++ Reaction.dependencies previous reactions) := by
  induction reactions generalizing builder kinds dependencies previous with
  | nil => exact ⟨builder, rfl, by simpa [Reaction.dependencies] using shows⟩
  | cons reaction rest ih =>
    obtain ⟨here, later⟩ := List.forall_mem_cons.mp served
    rw [List.flatMap_cons] at once ⊢
    have new : NodeKind.reaction reaction.id ∉ kinds := once.new
    rw [← List.append_assoc] at once ⊢
    obtain ⟨between, added, place, shows⟩ := exists_addReaction here new shows
    have member : NodeKind.reaction reaction.id ∈ kinds ++ reaction.mentions :=
      List.mem_append_right _ List.mem_cons_self
    have listedToo (before) (isBefore : before ∈ previous) :
        .reaction before ∈ kinds ++ reaction.mentions := List.mem_append_left _ (listed before isBefore)
    have stays : (previous.map fun before => (distinct kinds).idxOf (.reaction before)) =
        previous.map fun before =>
          (distinct (kinds ++ reaction.mentions)).idxOf (.reaction before) := by
      cases previous with
      | none => rfl
      | some before => rw [Option.map_some, Option.map_some, idxOf_distinct_append (listed before rfl)]
    rw [addReactions, added, stays, place]
    by_cases unordered : reaction.isUnordered
    · obtain ⟨after, goesOn, shows⟩ := ih later once shows previous listedToo
      refine ⟨after, ?_, by simpa [Reaction.dependencies, unordered] using shows⟩
      exact (if_pos unordered).trans goesOn
    · have shows := shows_addOrder shows listedToo member
      obtain ⟨after, goesOn, shows⟩ := ih later once shows (some reaction.id)
        (by simpa using member)
      refine ⟨after, ?_, by simpa [Reaction.dependencies, unordered] using shows⟩
      exact (if_neg unordered).trans goesOn

/-- The index has all that the reactor declares, and all that its reactions touch. -/
def Holds (index : Index) (reactor : Reactor) : Prop :=
  (∀ reaction ∈ reactor.reactions, Serves index reactor.id reaction) ∧
    ∀ port ∈ reactor.ports.map Port.id, (index.port? port).isSome

/-- The ports of a reactor are listed behind those that its reactions touch. -/
theorem exists_addOwn (referrer : String) {ports : List Port}
    (declared : ∀ port ∈ ports.map Port.id, (index.port? port).isSome)
    (shows : builder.Shows index kinds dependencies) :
    ∃ after, (ports.map Port.id).foldlM (addTouched index referrer fun builder _ => builder) builder =
        .ok after ∧
      after.Shows index (kinds ++ ports.map fun port => .port port.id) dependencies := by
  rw [← List.append_nil kinds] at shows
  obtain ⟨after, added, shows⟩ := exists_addTouched referrer (fun builder _ => builder)
    (fun _ => []) declared shows fun builder more dependencies port shows _ => by
      rwa [List.append_nil]
  have nothing : ((ports.map Port.id).flatMap fun _ => ([] : List Dependency)) = [] :=
    List.flatMap_eq_nil_iff.mpr fun _ _ => rfl
  refine ⟨after, added, ?_⟩
  simpa [nothing, Function.comp_def] using shows

mutual

theorem exists_visit : {builder : GraphBuilder} → {kinds : List NodeKind} →
    {dependencies : List Dependency} → (reactor : Reactor) →
    (∀ below ∈ reactor.preorder, Holds index below) →
    ReactionsOnce (kinds ++ reactor.preorder.flatMap Reactor.mentions) →
    builder.Shows index kinds dependencies →
    ∃ after, builder.visit index reactor = .ok after ∧
      after.Shows index (kinds ++ reactor.preorder.flatMap Reactor.mentions)
        (dependencies ++ reactor.preorder.flatMap Reactor.dependencies)
  | builder, kinds, dependencies, ⟨id, name, ports, reactions, connections, children, modes, mode⟩,
    holds, once, shows => by
    simp only [Reactor.preorder, List.forall_mem_cons, List.flatMap_cons, Reactor.mentions,
      Reactor.dependencies, ← List.append_assoc] at holds once ⊢
    obtain ⟨⟨served, own⟩, below⟩ := holds
    obtain ⟨first, added, shows⟩ := exists_addReactions served once.left.left shows none nofun
    obtain ⟨second, listed, shows⟩ := exists_addOwn (index.reactorName id) own shows
    obtain ⟨after, visited, shows⟩ := exists_visitAll children below once shows
    refine ⟨after, ?_, shows⟩
    rw [visit]
    exact bind_eq_ok_iff.mpr ⟨first, added, bind_eq_ok_iff.mpr ⟨second, listed, visited⟩⟩

theorem exists_visitAll : {builder : GraphBuilder} → {kinds : List NodeKind} →
    {dependencies : List Dependency} → (reactors : List Reactor) →
    (∀ below ∈ Reactor.preorderAll reactors, Holds index below) →
    ReactionsOnce (kinds ++ (Reactor.preorderAll reactors).flatMap Reactor.mentions) →
    builder.Shows index kinds dependencies →
    ∃ after, builder.visitAll index reactors = .ok after ∧
      after.Shows index (kinds ++ (Reactor.preorderAll reactors).flatMap Reactor.mentions)
        (dependencies ++ (Reactor.preorderAll reactors).flatMap Reactor.dependencies)
  | builder, kinds, dependencies, [], _, _, shows => by
    exact ⟨builder, by rw [visitAll], by simpa [Reactor.preorderAll] using shows⟩
  | builder, kinds, dependencies, child :: rest, holds, once, shows => by
    simp only [Reactor.preorderAll, List.forall_mem_append, List.flatMap_append,
      ← List.append_assoc] at holds once ⊢
    obtain ⟨between, visited, shows⟩ := exists_visit child holds.1 once.left shows
    obtain ⟨after, goesOn, shows⟩ := exists_visitAll rest holds.2 once shows
    refine ⟨after, ?_, shows⟩
    rw [visitAll]
    exact bind_eq_ok_iff.mpr ⟨between, visited, goesOn⟩

end

theorem exists_addConnection {entry : ConnectionEntry}
    (found : index.connection? entry.connection.id = some entry)
    (isSource : .port entry.connection.source ∈ kinds)
    (isTarget : .port entry.connection.target ∈ kinds)
    (shows : builder.Shows index kinds dependencies) :
    ∃ after, builder.addConnection index entry.connection.id = .ok after ∧
      after.Shows index kinds (dependencies ++ [entry.connection.dependency]) := by
  have known (port : PortId) (member : .port port ∈ kinds) : (index.port? port).isSome := by
    simpa [Index.node?] using shows.known _ member
  let referrer := s!"connection {entry.connection.id.text}"
  obtain ⟨first, source, shows⟩ := exists_portNode shows referrer (known _ isSource)
  rw [distinct_concat_of_mem isSource] at source
  have shows := shows.congr (distinct_concat_of_mem isSource).symm
  obtain ⟨second, target, shows⟩ := exists_portNode shows referrer (known _ isTarget)
  rw [distinct_concat_of_mem isTarget] at target
  have shows := shows.congr (distinct_concat_of_mem isTarget).symm
  refine ⟨_, ?_, shows.addEdge isSource isTarget _⟩
  simp only [addConnection, found]
  exact bind_eq_ok_iff.mpr ⟨_, source, bind_eq_ok_iff.mpr ⟨_, target, rfl⟩⟩

/-- The ports of connections are all listed when the builder comes to the connections. -/
theorem exists_addConnections {entries : List ConnectionEntry}
    (found : ∀ entry ∈ entries, index.connection? entry.connection.id = some entry)
    (listed : ∀ entry ∈ entries, .port entry.connection.source ∈ kinds ∧
      .port entry.connection.target ∈ kinds)
    (shows : builder.Shows index kinds dependencies) :
    ∃ after, (entries.map fun entry => entry.connection.id).foldlM (addConnection index) builder =
        .ok after ∧
      after.Shows index kinds
        (dependencies ++ entries.map fun entry => entry.connection.dependency) := by
  induction entries generalizing builder dependencies with
  | nil => exact ⟨builder, rfl, by simpa using shows⟩
  | cons entry rest ih =>
    obtain ⟨isFound, laterFound⟩ := List.forall_mem_cons.mp found
    obtain ⟨⟨isSource, isTarget⟩, laterListed⟩ := List.forall_mem_cons.mp listed
    obtain ⟨between, added, shows⟩ := exists_addConnection isFound isSource isTarget shows
    obtain ⟨after, goesOn, shows⟩ := ih laterFound laterListed shows
    refine ⟨after, ?_, by simpa using shows⟩
    rw [List.map_cons, List.foldlM_cons, added]
    exact goesOn

theorem shows_empty (index : Index) : ({} : GraphBuilder).Shows index [] [] where
  known := nofun
  nodes := rfl
  reactionNodes id := by simp [place?]
  portNodes id := by simp [place?]
  ends := nofun
  edges := rfl

end GraphBuilder

namespace Index.Describes

variable {index : Index} {program : Program} (described : index.Describes program)
include described

/-- The nodes are those of what the reactors of the program mention. -/
theorem nodeKinds_eq : index.nodeKinds =
    ReactorCausality.distinct (program.reactors.flatMap Reactor.mentions) := by
  rw [nodeKinds, ← described.map_reactors, List.flatMap_map]

theorem dependencyList_eq : index.dependencyList =
    program.reactors.flatMap Reactor.dependencies ++ program.connections.map Connection.dependency := by
  rw [dependencyList, ← described.map_reactors, ← described.map_connections, List.flatMap_map,
    List.map_map]
  rfl

theorem position?_eq (kind : NodeKind) : index.graph.position? kind =
    place? (program.reactors.flatMap Reactor.mentions) kind := by
  have isKind : (fun node : Node => decide (node.kind = kind)) = (· == kind) ∘ Node.kind := rfl
  rw [DependencyGraph.position?, isKind, ← List.findIdx?_map, described.map_kind_nodes,
    described.nodeKinds_eq, List.findIdx?_eq_guard_findIdx_lt, place?]
  simp only [Option.guard, ← List.idxOf.eq_1, List.idxOf_lt_length_iff, mem_distinct,
    decide_eq_true_eq]

theorem node?_reaction {reactor : Reactor} (inside : reactor ∈ program.reactors)
    {reaction : Reaction} (declared : reaction ∈ reactor.reactions) :
    index.node? (.reaction reaction.id) =
      some ⟨.reaction reaction.id, reactor.id, index.reactionName reaction.id⟩ := by
  obtain ⟨entry, found, owner⟩ :=
    Option.map_eq_some_iff.mp (described.reactionOwner?_eq inside declared)
  rw [node?, reactionName, found, Option.map_some, owner]
  rfl

theorem holds_of_mem {reactor : Reactor} (inside : reactor ∈ program.reactors) :
    GraphBuilder.Holds index reactor := by
  constructor
  · intro reaction declared
    refine ⟨described.node?_reaction inside declared, fun port touched => ?_⟩
    exact described.isSome_port?_of_touched (List.mem_flatMap.mpr ⟨reactor, inside, declared⟩) touched
  · intro id own
    obtain ⟨port, declared, rfl⟩ := List.mem_map.mp own
    exact described.isSome_port?_iff.mpr
      (List.mem_map_of_mem (List.mem_flatMap.mpr ⟨reactor, inside, declared⟩))

theorem reactionsOnce : ReactionsOnce (program.reactors.flatMap Reactor.mentions) := by
  rw [ReactionsOnce, Program.filterMap_reaction?_mentions]
  exact described.nodup_reactionIds

/-- The builder comes to the graph of the program, and finds every reaction and port where the graph
has it. -/
theorem exists_build : ∃ builder, GraphBuilder.build index = .ok builder ∧
    builder.graph = index.graph ∧
    (∀ id, builder.reactionNodes.lookup id = index.graph.position? (.reaction id)) ∧
    ∀ id, builder.portNodes.lookup id = index.graph.position? (.port id) := by
  have mains : index.main.preorder = program.reactors := by rw [described.main, Program.reactors]
  obtain ⟨visited, visits, shows⟩ := GraphBuilder.exists_visit index.main
    (fun reactor inside => described.holds_of_mem (mains ▸ inside))
    (by rw [mains, List.nil_append]; exact described.reactionsOnce) (GraphBuilder.shows_empty index)
  rw [mains, List.nil_append, List.nil_append] at shows
  have listed (kind : NodeKind) :
      kind ∈ program.reactors.flatMap Reactor.mentions ↔ program.Declares kind := by
    rw [← described.mem_nodeKinds_iff, described.nodeKinds_eq, mem_distinct]
  obtain ⟨builder, connects, shows⟩ := GraphBuilder.exists_addConnections
    (fun entry member => described.distinct.connection?_of_mem member)
    (fun entry member => by
      obtain ⟨source, target, -⟩ := described.connection_ends member
      rw [listed, listed]
      exact ⟨described.isSome_port?_iff.mp source, described.isSome_port?_iff.mp target⟩) shows
  have graph_eq : builder.graph = index.graph := by
    rw [GraphBuilder.graph, shows.nodes, shows.edges, graph, described.nodeKinds_eq,
      described.dependencyList_eq, ← described.map_connections, List.map_map]
    rfl
  refine ⟨builder, ?_, graph_eq, fun id => ?_, fun id => ?_⟩
  · exact bind_eq_ok_iff.mpr ⟨visited, visits, connects⟩
  · rw [shows.reactionNodes, described.position?_eq]
  · rw [shows.portNodes, described.position?_eq]

end Index.Describes

end ReactorCausality
