import ReactorCausality.Proofs.Boundary.Report
import ReactorCausality.Proofs.Priority.Walk

/-!
Where control reactions are placed. The one of the receiver goes in front of the first reaction that
reads what the edge carries, and no reaction further on runs before that one; the one of the sender
goes behind the last reaction that writes what the edge carries, and no reaction further back runs
after that one. On a zero-delay edge, the sender is done before the receiver begins.
-/
namespace ReactorCausality

open Relation

theorem Program.carries_eq_feeds (program : Program) :
    program.Carries = program.Feeds .zeroDelay := by
  funext source target
  refine propext (exists_congr fun connection => and_congr_right fun _ => ?_)
  cases physical : connection.isPhysical <;> cases delay : connection.delay <;>
    simp [PortWalk.allows, Connection.isZeroDelay, Connection.break?, physical, delay]

namespace BoundarySetting

variable {setting : BoundarySetting}

/-! ### First and last reactions -/

theorem rankBefore_eq_false_trans {first second third : Option Nat}
    (notBefore : rankBefore second first = false) (notBeforeToo : rankBefore third second = false) :
    rankBefore third first = false := by
  cases first <;> cases second <;> cases third <;> simp_all [rankBefore]
  omega

theorem rankBefore_eq_false_of_true {first second : Option Nat} (before : rankBefore second first) :
    rankBefore first second = false := by
  cases first <;> cases second <;> simp_all [rankBefore]
  omega

theorem rankBefore_self (rank : Option Nat) : rankBefore rank rank = false := by
  cases rank <;> simp [rankBefore]

theorem first?_eq_none_iff {reactions : List ReactionId} :
    setting.first? reactions = none ↔ reactions = [] := by
  cases reactions with
  | nil => simp [first?]
  | cons reaction rest =>
    rw [first?]
    split
    · simp
    · split <;> simp

theorem last?_eq_none_iff {reactions : List ReactionId} :
    setting.last? reactions = none ↔ reactions = [] := by
  cases reactions with
  | nil => simp [last?]
  | cons reaction rest =>
    rw [last?]
    split
    · simp
    · split <;> simp

/-- No reaction comes before the first one. -/
theorem first?_eq_some {reactions : List ReactionId} {first : ReactionId}
    (chosen : setting.first? reactions = some first) : first ∈ reactions ∧
      ∀ other ∈ reactions,
        rankBefore (setting.priorities.rank? other) (setting.priorities.rank? first) = false := by
  induction reactions generalizing first with
  | nil => cases chosen
  | cons reaction rest ih =>
    rw [first?] at chosen
    cases later : setting.first? rest with
    | none =>
      obtain rfl := first?_eq_none_iff.mp later
      cases chosen
      simpa using rankBefore_self _
    | some other =>
      obtain ⟨member, least⟩ := ih later
      rw [later] at chosen
      dsimp only at chosen
      split at chosen
      · next before =>
        cases chosen
        exact ⟨List.mem_cons_of_mem _ member,
          List.forall_mem_cons.mpr ⟨rankBefore_eq_false_of_true before, least⟩⟩
      · next notBefore =>
        cases chosen
        refine ⟨List.mem_cons_self, List.forall_mem_cons.mpr ⟨rankBefore_self _, ?_⟩⟩
        exact fun third isThird =>
          rankBefore_eq_false_trans (Bool.not_eq_true _ ▸ notBefore) (least third isThird)

/-- The last reaction comes before no other one. -/
theorem last?_eq_some {reactions : List ReactionId} {last : ReactionId}
    (chosen : setting.last? reactions = some last) : last ∈ reactions ∧
      ∀ other ∈ reactions,
        rankBefore (setting.priorities.rank? last) (setting.priorities.rank? other) = false := by
  induction reactions generalizing last with
  | nil => cases chosen
  | cons reaction rest ih =>
    rw [last?] at chosen
    cases later : setting.last? rest with
    | none =>
      obtain rfl := last?_eq_none_iff.mp later
      cases chosen
      simpa using rankBefore_self _
    | some other =>
      obtain ⟨member, greatest⟩ := ih later
      rw [later] at chosen
      dsimp only at chosen
      split at chosen
      · next before =>
        cases chosen
        refine ⟨List.mem_cons_self, List.forall_mem_cons.mpr ⟨rankBefore_self _, ?_⟩⟩
        exact fun third isThird =>
          rankBefore_eq_false_trans (greatest third isThird) (rankBefore_eq_false_of_true before)
      · next notBefore =>
        cases chosen
        exact ⟨List.mem_cons_of_mem _ member,
          List.forall_mem_cons.mpr ⟨Bool.not_eq_true _ ▸ notBefore, greatest⟩⟩

/-! ### Readers and writers -/

/-- A reaction of the receiver reads the target of an edge, or a port that the target feeds at the
same tag. -/
def ReadsBehind (setting : BoundarySetting) (program : Program) (edge : BoundaryEdge)
    (id : ReactionId) : Prop :=
  setting.federateOfReaction id = edge.receiver ∧
    ∃ port, ReflTransGen program.Carries edge.target port ∧ program.Reads id port

/-- A reaction of the sender writes the source of an edge, or a port that feeds the source at the
same tag. -/
def WritesAhead (setting : BoundarySetting) (program : Program) (edge : BoundaryEdge)
    (id : ReactionId) : Prop :=
  setting.federateOfReaction id = edge.sender ∧
    ∃ port, ReflTransGen program.Carries port edge.source ∧ program.Writes id port

theorem mem_within_iff {federate : FederateId} {reactions : List ReactionId} {id : ReactionId} :
    id ∈ setting.within federate reactions ↔
      id ∈ reactions ∧ setting.federateOfReaction id = federate := by
  rw [within, List.mem_mergeSort, mem_distinct, List.mem_filter, decide_eq_true_eq]

/-- In the report about edges that are all different, an edge has the control reactions of its two
sides and no others. -/
theorem filter_controls {edges : List BoundaryEdge}
    (distinct : (edges.map BoundaryEdge.connection).Nodup) {edge : BoundaryEdge}
    (member : edge ∈ edges) :
    ((edges.flatMap setting.controls).filter fun control => control.connection = edge.connection) =
      setting.controls edge := by
  induction edges with
  | nil => cases member
  | cons other rest ih =>
    obtain ⟨isNew, distinct⟩ := List.nodup_cons.mp distinct
    rw [List.flatMap_cons, List.filter_append]
    rcases List.mem_cons.mp member with rfl | later
    · have none : ((rest.flatMap setting.controls).filter fun control =>
          control.connection = edge.connection) = [] := by
        refine List.filter_eq_nil_iff.mpr fun control listed same => isNew ?_
        obtain ⟨third, isThird, belongs⟩ := List.mem_flatMap.mp listed
        refine List.mem_map.mpr ⟨third, isThird, ?_⟩
        rw [← decide_eq_true_eq.mp same]
        rcases List.mem_pair.mp belongs with rfl | rfl <;> rfl
      simp [none, controls, senderControl, receiverControl]
    · have differ : other.connection ≠ edge.connection := fun same =>
        isNew (same ▸ List.mem_map_of_mem later)
      simp [ih distinct later, controls, senderControl, receiverControl, differ]

/-- What is true of the place of the control reaction on the side of the receiver. -/
structure PlacesReceiver (setting : BoundarySetting) (program : Program) (edge : BoundaryEdge)
    (placement : Placing) : Prop where
  anchored : (∃ first, placement = .before first) ↔ ∃ id, setting.ReadsBehind program edge id
  unanchored : (¬ ∃ id, setting.ReadsBehind program edge id) → placement = .unanchored
  reads : ∀ first, placement = .before first → setting.ReadsBehind program edge first
  /-- Walks begin at the target, and the first reaction on them belongs to the receiver. -/
  ahead : ∀ first, placement = .before first → ∀ start stop walk entry last,
    setting.graph.portAt? start = some edge.target → setting.graph.IsWalk start stop walk →
    (setting.graph.reactionsOn walk).head? = some entry →
    setting.federateOfReaction entry = edge.receiver →
    setting.graph.reactionAt? stop = some last → setting.priorities.NoLater first last

/-- What is true of the place of the control reaction on the side of the sender. -/
structure PlacesSender (setting : BoundarySetting) (program : Program) (edge : BoundaryEdge)
    (placement : Placing) : Prop where
  anchored : (∃ last, placement = .after last) ↔ ∃ id, setting.WritesAhead program edge id
  unanchored : (¬ ∃ id, setting.WritesAhead program edge id) → placement = .unanchored
  writes : ∀ last, placement = .after last → setting.WritesAhead program edge last
  /-- Walks end at the source, and the last reaction on them belongs to the sender. -/
  behind : ∀ last, placement = .after last → ∀ start stop walk first exit,
    setting.graph.portAt? stop = some edge.source → setting.graph.IsWalk start stop walk →
    (setting.graph.reactionsOn walk).getLast? = some exit →
    setting.federateOfReaction exit = edge.sender →
    setting.graph.reactionAt? start = some first → setting.priorities.NoLater first last

theorem receiver_before_iff {edge : BoundaryEdge} {first : ReactionId} :
    (setting.receiverControl edge).placement = .before first ↔
      setting.first? (setting.guardedReaders edge.target edge.receiver) = some first := by
  rw [receiverControl]
  dsimp only
  split <;> simp [*]

theorem sender_after_iff {edge : BoundaryEdge} {last : ReactionId} :
    (setting.senderControl edge).placement = .after last ↔
      setting.last? (setting.feedingWriters edge.source edge.sender) = some last := by
  rw [senderControl]
  dsimp only
  split <;> simp [*]

namespace Fits

variable {program : Program} (fits : setting.Fits program)
include fits

theorem mem_guardedReaders_iff {edge : BoundaryEdge} {id : ReactionId} :
    id ∈ setting.guardedReaders edge.target edge.receiver ↔
      setting.ReadsBehind program edge id := by
  have reached (port : PortId) : port ∈ edge.target :: setting.index.dependents .zeroDelay edge.target ↔
      ReflTransGen program.Carries edge.target port := by
    rw [List.mem_cons, fits.described.mem_dependents_iff, program.carries_eq_feeds]
    by_cases same : port = edge.target <;> simp [same, ReflTransGen.refl]
  rw [guardedReaders, mem_within_iff, ReadsBehind, and_comm, List.mem_flatMap]
  simp only [reached, fits.described.mem_readers_iff]

theorem mem_feedingWriters_iff {edge : BoundaryEdge} {id : ReactionId} :
    id ∈ setting.feedingWriters edge.source edge.sender ↔
      setting.WritesAhead program edge id := by
  have reached (port : PortId) :
      port ∈ edge.source :: setting.index.dependencies .zeroDelay edge.source ↔
        ReflTransGen program.Carries port edge.source := by
    rw [List.mem_cons, fits.described.mem_dependencies_iff, program.carries_eq_feeds]
    by_cases same : port = edge.source <;> simp [same, ReflTransGen.refl]
  rw [feedingWriters, mem_within_iff, WritesAhead, and_comm, List.mem_flatMap]
  simp only [reached, fits.described.mem_writers_iff]

theorem declares_of_mem_edges {edge : BoundaryEdge} (member : edge ∈ setting.edges) :
    program.Declares (.port edge.source) ∧ program.Declares (.port edge.target) := by
  obtain ⟨connection, declared, -, rfl⟩ := fits.mem_edges_iff.mp member
  exact fits.declares_ends declared

theorem declares_of_reads {id : ReactionId} {port : PortId} (reads : program.Reads id port) :
    program.Declares (.reaction id) ∧ program.Declares (.port port) := by
  obtain ⟨reaction, declared, rfl, read⟩ := reads
  exact ⟨List.mem_map_of_mem declared,
    fits.described.declares_touched declared (List.mem_append_left _ read)⟩

theorem declares_of_writes {id : ReactionId} {port : PortId} (writes : program.Writes id port) :
    program.Declares (.reaction id) ∧ program.Declares (.port port) := by
  obtain ⟨reaction, declared, rfl, written⟩ := writes
  exact ⟨List.mem_map_of_mem declared,
    fits.described.declares_touched declared (List.mem_append_right _ written)⟩

section Ranked

variable (belongs : setting.priorities.BelongsTo setting.index.graph)
include belongs

/-- All reactions have ranks, so what does not come before something else has no smaller one. -/
theorem noLater_of_rankBefore {first second : ReactionId}
    (declared : program.Declares (.reaction first))
    (declaredToo : program.Declares (.reaction second)) (notBefore : rankBefore
      (setting.priorities.rank? second) (setting.priorities.rank? first) = false) :
    setting.priorities.NoLater first second := by
  have wellFormed := fits.described.graph_wellFormed
  obtain ⟨low, ranked⟩ :=
    belongs.exists_rank? wellFormed (fits.described.reactionAt?_position declared)
  obtain ⟨high, rankedToo⟩ :=
    belongs.exists_rank? wellFormed (fits.described.reactionAt?_position declaredToo)
  refine ⟨low, high, ranked, rankedToo, ?_⟩
  simpa [rankBefore, ranked, rankedToo] using notBefore

/-- The control reaction of the receiver is not placed behind anything that reads behind the edge. -/
theorem noLater_of_readsBehind {edge : BoundaryEdge} {first id : ReactionId}
    (placed : (setting.receiverControl edge).placement = .before first)
    (behind : setting.ReadsBehind program edge id) : setting.priorities.NoLater first id := by
  obtain ⟨listed, least⟩ := first?_eq_some (receiver_before_iff.mp placed)
  have notBefore := least id (fits.mem_guardedReaders_iff.mpr behind)
  obtain ⟨-, _, -, reads⟩ := fits.mem_guardedReaders_iff.mp listed
  obtain ⟨-, _, -, readsToo⟩ := behind
  exact fits.noLater_of_rankBefore belongs (fits.declares_of_reads reads).1
    (fits.declares_of_reads readsToo).1 notBefore

/-- The control reaction of the sender is not placed ahead of anything that writes ahead of the
edge. -/
theorem noLater_of_writesAhead {edge : BoundaryEdge} {last id : ReactionId}
    (placed : (setting.senderControl edge).placement = .after last)
    (ahead : setting.WritesAhead program edge id) : setting.priorities.NoLater id last := by
  obtain ⟨listed, greatest⟩ := last?_eq_some (sender_after_iff.mp placed)
  have notBefore := greatest id (fits.mem_feedingWriters_iff.mpr ahead)
  obtain ⟨-, _, -, writes⟩ := fits.mem_feedingWriters_iff.mp listed
  obtain ⟨-, _, -, writesToo⟩ := ahead
  exact fits.noLater_of_rankBefore belongs (fits.declares_of_writes writesToo).1
    (fits.declares_of_writes writes).1 notBefore

variable {edge : BoundaryEdge} (member : edge ∈ setting.edges)
include member

theorem placesReceiver :
    setting.PlacesReceiver program edge (setting.receiverControl edge).placement where
  anchored := by
    simp only [receiver_before_iff, ← fits.mem_guardedReaders_iff]
    constructor
    · rintro ⟨first, chosen⟩
      exact ⟨first, (first?_eq_some chosen).1⟩
    · rintro ⟨id, listed⟩
      refine Option.ne_none_iff_exists'.mp fun none => ?_
      exact List.ne_nil_of_mem listed (first?_eq_none_iff.mp none)
  unanchored unread := by
    have none : setting.guardedReaders edge.target edge.receiver = [] :=
      List.eq_nil_iff_forall_not_mem.mpr fun id listed =>
        unread ⟨id, fits.mem_guardedReaders_iff.mp listed⟩
    rw [receiverControl, none]
    rfl
  reads first placed :=
    fits.mem_guardedReaders_iff.mp (first?_eq_some (receiver_before_iff.mp placed)).1
  ahead := by
    intro first placed start stop walk entry last isTarget isWalk isEntry inside isLast
    rw [fits.graph_eq] at isTarget isWalk isEntry isLast
    have met : last ∈ setting.index.graph.reactionsOn walk :=
      List.mem_of_getLast? (DependencyGraph.getLast?_reactionsOn isLast isWalk.ends)
    have onward : setting.priorities.NoLater entry last :=
      belongs.noLater_of_head? fits.described.graph_wellFormed isWalk isEntry met
    -- the walk begins at the target, so it enters the receiver at one of the readers
    obtain rfl := fits.described.eq_position_of_port isTarget
    obtain ⟨rest, rfl⟩ := List.head?_eq_some_iff.mp isWalk.begins
    obtain ⟨read, carried, reads⟩ := fits.described.reads_of_isChain
      (fits.declares_of_mem_edges member).2 isWalk.steps isEntry
    have behind : setting.ReadsBehind program edge entry :=
      ⟨inside, read, program.carries_eq_feeds ▸ carried, reads⟩
    exact (fits.noLater_of_readsBehind belongs placed behind).trans onward

theorem placesSender :
    setting.PlacesSender program edge (setting.senderControl edge).placement where
  anchored := by
    simp only [sender_after_iff, ← fits.mem_feedingWriters_iff]
    constructor
    · rintro ⟨last, chosen⟩
      exact ⟨last, (last?_eq_some chosen).1⟩
    · rintro ⟨id, listed⟩
      refine Option.ne_none_iff_exists'.mp fun none => ?_
      exact List.ne_nil_of_mem listed (last?_eq_none_iff.mp none)
  unanchored unwritten := by
    have none : setting.feedingWriters edge.source edge.sender = [] :=
      List.eq_nil_iff_forall_not_mem.mpr fun id listed =>
        unwritten ⟨id, fits.mem_feedingWriters_iff.mp listed⟩
    rw [senderControl, none]
    rfl
  writes last placed :=
    fits.mem_feedingWriters_iff.mp (last?_eq_some (sender_after_iff.mp placed)).1
  behind := by
    intro last placed start stop walk first exit isSource isWalk isExit inside isFirst
    rw [fits.graph_eq] at isSource isWalk isExit isFirst
    have met : first ∈ setting.index.graph.reactionsOn walk :=
      List.mem_of_head? (DependencyGraph.head?_reactionsOn isFirst isWalk.begins)
    have onward : setting.priorities.NoLater first exit :=
      belongs.noLater_of_getLast? fits.described.graph_wellFormed isWalk isExit met
    -- the walk ends at the source, so it leaves the sender at one of the writers
    obtain rfl := fits.described.eq_position_of_port isSource
    obtain ⟨before, rfl⟩ := List.getLast?_eq_some_iff.mp isWalk.ends
    obtain ⟨written, carried, writes⟩ := fits.described.writes_of_isChain
      (fits.declares_of_mem_edges member).1 isWalk.steps isExit
    have ahead : setting.WritesAhead program edge exit :=
      ⟨inside, written, program.carries_eq_feeds ▸ carried, writes⟩
    exact onward.trans (fits.noLater_of_writesAhead belongs placed ahead)

/-- What is written ahead of a zero-delay edge is written before anything behind it is read. -/
theorem runsBefore_of_isZeroDelay (zeroDelay : edge.isZeroDelay) {last first : ReactionId}
    (ahead : setting.WritesAhead program edge last)
    (behind : setting.ReadsBehind program edge first) :
    setting.priorities.RunsBefore last first := by
  -- from what is written, over the edge itself, to what is read
  obtain ⟨connection, declared, -, rfl⟩ := fits.mem_edges_iff.mp member
  obtain ⟨-, written, carried, writer, isWriter, rfl, writes⟩ := ahead
  obtain ⟨-, read, carriedToo, reader, isReader, rfl, reads⟩ := behind
  have across : program.Carries connection.source connection.target := by
    refine ⟨connection, declared, ?_, ?_, rfl, rfl⟩ <;>
      simp_all [BoundaryEdge.isZeroDelay, crossing]
  have before : program.RunsBefore writer reader :=
    .dataFlow isWriter isReader writes reads (carried.trans (.head across carriedToo))
  exact fits.described.runsBefore_of_precedes belongs (Program.precedes_of_runsBefore before)

end Ranked

end Fits

/-- A program without a zero-delay cycle has priorities, and its boundaries are classified by them. -/
theorem exists_classified {program : Program} {index : Index} {partition : Partition}
    (accepted : Index.build program = .ok index) (acyclic : index.graph.cycles.isAcyclic)
    (valid : partition.problems index = []) (policy : Policy) :
    ∃ table, index.graph.priorities = .ok table ∧ table.BelongsTo index.graph ∧
      (BoundarySetting.mk index index.graph table partition policy).Fits program ∧
      (BoundarySetting.mk index index.graph table partition policy).classify =
        .ok (BoundarySetting.mk index index.graph table partition policy).result := by
  have described := (Index.build_eq_ok_iff program index).mp accepted
  have wellFormed := described.graph_wellFormed
  obtain ⟨table, assigned⟩ :=
    wellFormed.exists_priorities_iff.mpr (wellFormed.isAcyclic_cycles_iff.mp acyclic)
  have fits : (BoundarySetting.mk index index.graph table partition policy).Fits program :=
    ⟨described, rfl⟩
  exact ⟨table, assigned, wellFormed.belongsTo_of_priorities assigned, fits,
    fits.classify_eq_ok valid⟩

end BoundarySetting

/-- In a program without a zero-delay cycle, every boundary edge has one control reaction on either
side. They are placed by the priorities of the program, next to the reactions that the edge is
about, and no reaction further ahead or behind is on the wrong side of them. -/
theorem controls_placed {program : Program} {index : Index} {partition : Partition}
    (accepted : Index.build program = .ok index) (acyclic : index.graph.cycles.isAcyclic)
    (valid : partition.problems index = []) (policy : Policy) :
    ∃ table, index.graph.priorities = .ok table ∧
      let setting : BoundarySetting := ⟨index, index.graph, table, partition, policy⟩
      ∃ result, setting.classify = .ok result ∧ ∀ edge ∈ result.report.edges,
        ∃ sender receiver : ControlReaction,
          (result.report.controls.filter fun control => control.connection = edge.connection) =
            [sender, receiver] ∧
          edge.IsAnnouncedBy sender ∧ setting.PlacesSender program edge sender.placement ∧
          edge.IsAwaitedBy receiver ∧ setting.PlacesReceiver program edge receiver.placement ∧
          (edge.isZeroDelay → ∀ last first, sender.placement = .after last →
            receiver.placement = .before first → table.RunsBefore last first) := by
  obtain ⟨table, assigned, belongs, fits, classified⟩ :=
    BoundarySetting.exists_classified accepted acyclic valid policy
  refine ⟨table, assigned, _, classified, fun edge member => ?_⟩
  have before := fits.placesSender belongs member
  have after := fits.placesReceiver belongs member
  refine ⟨_, _, BoundarySetting.filter_controls fits.nodup_connections member,
    ⟨rfl, rfl, rfl, rfl, rfl, rfl, rfl⟩, before, ⟨rfl, rfl, rfl, rfl, rfl, rfl, rfl⟩, after, ?_⟩
  intro zeroDelay last first isLast isFirst
  exact fits.runsBefore_of_isZeroDelay belongs member zeroDelay (before.writes last isLast)
    (after.reads first isFirst)

theorem Program.isAcyclic_exchange : (Index.survey exchange).index.graph.cycles.isAcyclic :=
  ((Index.build_eq_ok_iff _ _).mp build_exchange).graph_wellFormed.isAcyclic_cycles_iff.mpr
    (DependencyGraph.acyclic_of_edges_lt [0, 1, 4, 5, 3, 2, 6, 8, 7].idxOf (by decide))

def BoundarySetting.exchange (policy : Policy) : BoundarySetting :=
  ⟨(Index.survey .exchange).index, (Index.survey .exchange).index.graph, .exchange, .sides, policy⟩

namespace BoundarySetting

theorem fits_exchange (policy : Policy) : (exchange policy).Fits .exchange :=
  ⟨(Index.build_eq_ok_iff _ _).mp Program.build_exchange, rfl⟩

theorem classify_exchange (policy : Policy) :
    (exchange policy).classify = .ok (exchange policy).result :=
  (fits_exchange policy).classify_eq_ok Partition.problems_sides

theorem eq_exchange {policy : Policy} {table : PriorityTable} {result : BoundaryResult}
    (assigned : (Index.survey .exchange).index.graph.priorities = .ok table)
    (classified : classify ⟨(Index.survey .exchange).index, (Index.survey .exchange).index.graph,
      table, .sides, policy⟩ = .ok result) :
    table = .exchange ∧ result = (exchange policy).result := by
  obtain rfl : table = .exchange :=
    Except.ok.inj (assigned.symm.trans Program.priorities_exchange)
  exact ⟨rfl, Except.ok.inj (classified.symm.trans (classify_exchange policy))⟩

theorem mem_edges_exchange {policy : Policy} {connection : Connection}
    (declared : connection ∈ Program.exchange.connections)
    (crosses : decide ((exchange policy).Crosses connection) = true) :
    (exchange policy).crossing connection ∈ (exchange policy).edges :=
  (fits_exchange policy).mem_edges_iff.mpr
    ⟨connection, declared, of_decide_eq_true crosses, rfl⟩

theorem exists_edge_exchange : ∃ edge ∈ (exchange {}).edges, edge.isZeroDelay ∧
    ((exchange {}).controls edge).map ControlReaction.placement = [.after ⟨0⟩, .before ⟨3⟩] :=
  ⟨(exchange {}).crossing { id := ⟨0⟩, source := ⟨0⟩, target := ⟨2⟩ },
    mem_edges_exchange (by decide) (by decide +kernel), rfl, by decide +kernel⟩

end BoundarySetting

theorem controls_placed_exchange : ∃ (index : Index) (table : PriorityTable) (result : BoundaryResult)
    (edge : BoundaryEdge), Index.build Program.exchange = .ok index ∧ index.graph.cycles.isAcyclic ∧
      Partition.sides.problems index = [] ∧ index.graph.priorities = .ok table ∧
      BoundarySetting.classify ⟨index, index.graph, table, .sides, {}⟩ = .ok result ∧
      edge ∈ result.report.edges ∧ edge.isZeroDelay ∧
      ((result.report.controls.filter fun control => control.connection = edge.connection).map
        ControlReaction.placement) = [.after ⟨0⟩, .before ⟨3⟩] ∧
      table.RunsBefore ⟨0⟩ ⟨3⟩ := by
  obtain ⟨table, assigned, result, classified, placed⟩ :=
    controls_placed Program.build_exchange Program.isAcyclic_exchange Partition.problems_sides {}
  obtain ⟨rfl, rfl⟩ := BoundarySetting.eq_exchange assigned classified
  obtain ⟨edge, member, zeroDelay, placements⟩ := BoundarySetting.exists_edge_exchange
  rw [← BoundarySetting.filter_controls (BoundarySetting.fits_exchange {}).nodup_connections member]
    at placements
  obtain ⟨sender, receiver, controls, -, -, -, -, ordered⟩ := placed edge member
  obtain ⟨isLast, isFirst⟩ : sender.placement = .after ⟨0⟩ ∧ receiver.placement = .before ⟨3⟩ := by
    have both := (congrArg (List.map ControlReaction.placement) controls).symm.trans placements
    simpa using both
  exact ⟨_, _, _, edge, Program.build_exchange, Program.isAcyclic_exchange, Partition.problems_sides,
    assigned, classified, member, zeroDelay, placements, ordered zeroDelay _ _ isLast isFirst⟩

end ReactorCausality
