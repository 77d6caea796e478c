import ReactorCausality.Proofs.Boundary.Placing
import ReactorCausality.Proofs.Renaming.Federation
import ReactorCausality.Proofs.Renaming.Graph
import ReactorCausality.Proofs.Time.Value

/-!
Ids are only names. The analysis of a renamed program gives what it gives for the program itself, with
the ids renamed: the same cycles, ranks and levels, and the same boundary edges, bounds, control
reactions and findings in the same order (`ids_are_names`).

Ids are compared by their values where the readers and writers at a boundary are sorted. What is chosen
among them does not depend on that order: a maximum does not, and as no two reactions have the same
rank, neither does the first or the last one.
-/
namespace ReactorCausality

variable (ρ : Renaming)

/-! ### Renaming what is reported -/

def BoundaryEdge.rename (edge : BoundaryEdge) : BoundaryEdge :=
  { edge with
    connection := edge.connection.rename ρ
    source := edge.source.rename ρ
    target := edge.target.rename ρ }

def Placing.rename : Placing → Placing
  | before reaction => before (reaction.rename ρ)
  | after reaction => after (reaction.rename ρ)
  | unanchored => unanchored

def ControlReaction.rename (control : ControlReaction) : ControlReaction :=
  { control with
    connection := control.connection.rename ρ
    port := control.port.rename ρ
    placement := control.placement.rename ρ }

def BoundaryReport.rename (report : BoundaryReport) : BoundaryReport :=
  { edges := report.edges.map (BoundaryEdge.rename ρ)
    controls := report.controls.map (ControlReaction.rename ρ)
    unresolved := report.unresolved.map (EntityId.rename ρ) }

def UnboundedEdge.rename (edge : UnboundedEdge) : UnboundedEdge :=
  { edge with connection := edge.connection.rename ρ }

def Involved.rename (involved : Involved) : Involved :=
  { involved with subject := involved.subject.rename ρ }

def Cause.rename (cause : Cause) : Cause :=
  { cause with subject := cause.subject.map (Subject.rename ρ) }

/-- Only what a diagnostic is about changes, not what it says. -/
def Diagnostic.rename (diagnostic : Diagnostic) : Diagnostic :=
  { diagnostic with
    involved := diagnostic.involved.map (Involved.rename ρ)
    causes := diagnostic.causes.map (Cause.rename ρ) }

def BoundaryResult.rename (result : BoundaryResult) : BoundaryResult :=
  ⟨result.report.rename ρ, result.diagnostics.map (Diagnostic.rename ρ)⟩

namespace BoundarySetting

def rename (setting : BoundarySetting) : BoundarySetting :=
  { index := setting.index.rename ρ
    graph := setting.graph.rename ρ
    priorities := setting.priorities.rename ρ
    partition := setting.partition.rename ρ
    policy := setting.policy }

variable (setting : BoundarySetting)

@[simp]
theorem index_rename : (setting.rename ρ).index = setting.index.rename ρ :=
  rfl

@[simp]
theorem graph_rename : (setting.rename ρ).graph = setting.graph.rename ρ :=
  rfl

@[simp]
theorem priorities_rename : (setting.rename ρ).priorities = setting.priorities.rename ρ :=
  rfl

@[simp]
theorem partition_rename : (setting.rename ρ).partition = setting.partition.rename ρ :=
  rfl

/-! ### Federates, readers and writers -/

theorem federateOfPort_rename (port : PortId) :
    (setting.rename ρ).federateOfPort (port.rename ρ) = setting.federateOfPort port := by
  simp only [federateOfPort, index_rename, partition_rename, Index.portOwner?_rename]
  cases setting.index.portOwner? port <;> simp

theorem federateOfReaction_rename (reaction : ReactionId) :
    (setting.rename ρ).federateOfReaction (reaction.rename ρ) =
      setting.federateOfReaction reaction := by
  simp only [federateOfReaction, index_rename, partition_rename, Index.reactionOwner?_rename]
  cases setting.index.reactionOwner? reaction <;> simp

/-- Before they are sorted, the reactions of a federate stand in the same order. -/
theorem perm_within_rename (federate : FederateId) (reactions : List ReactionId) :
    ((setting.rename ρ).within federate (reactions.map (EntityId.rename ρ))).Perm
      ((setting.within federate reactions).map (EntityId.rename ρ)) := by
  have unsorted : distinct ((reactions.map (EntityId.rename ρ)).filter fun reaction =>
        (setting.rename ρ).federateOfReaction reaction = federate) =
      (distinct (reactions.filter fun reaction =>
        setting.federateOfReaction reaction = federate)).map (EntityId.rename ρ) := by
    simp only [List.filter_map, Function.comp_def, federateOfReaction_rename,
      distinct_map (EntityId.rename_injective ρ)]
  rw [within, within, unsorted]
  exact (List.mergeSort_perm _ _).trans ((List.mergeSort_perm _ _).symm.map _)

theorem perm_within_flatMap_rename {touching touching' : PortId → List ReactionId}
    (renames : ∀ port, touching' (port.rename ρ) = (touching port).map (EntityId.rename ρ))
    (federate : FederateId) (ports : List PortId) :
    ((setting.rename ρ).within federate
        ((ports.map (EntityId.rename ρ)).flatMap touching')).Perm
      ((setting.within federate (ports.flatMap touching)).map (EntityId.rename ρ)) := by
  have reactions : (ports.map (EntityId.rename ρ)).flatMap touching' =
      (ports.flatMap touching).map (EntityId.rename ρ) := by
    simp only [List.flatMap_map, renames, List.map_flatMap]
  rw [reactions]
  exact setting.perm_within_rename ρ federate _

theorem perm_guardedReaders_rename (port : PortId) (federate : FederateId) :
    ((setting.rename ρ).guardedReaders (port.rename ρ) federate).Perm
      ((setting.guardedReaders port federate).map (EntityId.rename ρ)) := by
  rw [guardedReaders, index_rename, Index.dependents_rename, ← List.map_cons]
  exact setting.perm_within_flatMap_rename ρ (setting.index.readers_rename ρ) federate _

theorem perm_feedingWriters_rename (port : PortId) (federate : FederateId) :
    ((setting.rename ρ).feedingWriters (port.rename ρ) federate).Perm
      ((setting.feedingWriters port federate).map (EntityId.rename ρ)) := by
  rw [feedingWriters, index_rename, Index.dependencies_rename, ← List.map_cons]
  exact setting.perm_within_flatMap_rename ρ (setting.index.writers_rename ρ) federate _

/-! ### Boundary edges -/

theorem perm_declaredOffsets_rename (port : PortId) (federate : FederateId) :
    ((setting.rename ρ).declaredOffsets (port.rename ρ) federate).Perm
      (setting.declaredOffsets port federate) := by
  have offsets := (setting.perm_guardedReaders_rename ρ port federate).filterMap fun reaction =>
    ((setting.index.rename ρ).reaction? reaction).bind fun entry => entry.reaction.safeToProcess
  refine offsets.trans (.of_eq ?_)
  rw [List.filterMap_map, declaredOffsets]
  congr 1
  funext reaction
  rw [Function.comp_apply, Index.reaction?_rename]
  cases setting.index.reaction? reaction <;> rfl

theorem receiverBound_rename (connection : Connection) (receiver : FederateId) :
    (setting.rename ρ).receiverBound (connection.rename ρ) receiver =
      setting.receiverBound connection receiver := by
  have longest := TimeValue.max?_eq_of_perm
    (setting.perm_declaredOffsets_rename ρ connection.target receiver)
  rw [receiverBound, receiverBound, Connection.target_rename, longest]
  rfl

theorem position?_rename (graph : DependencyGraph) (port : PortId) :
    (graph.rename ρ).position? (.port (port.rename ρ)) = graph.position? (.port port) := by
  simp only [DependencyGraph.position?, DependencyGraph.rename, List.findIdx?_map]
  congr 1
  funext node
  have same : (node.rename ρ).kind = .port (port.rename ρ) ↔ node.kind = .port port :=
    (NodeKind.rename_injective ρ).eq_iff (a := node.kind) (b := .port port)
  simp only [Function.comp_apply, same]

theorem edge?_rename (connection : Connection) :
    (setting.rename ρ).edge? (connection.rename ρ) =
      (setting.edge? connection).map (BoundaryEdge.rename ρ) := by
  simp only [edge?, Connection.source_rename, Connection.target_rename, federateOfPort_rename,
    graph_rename, position?_rename, index_rename, Index.nameOfConnection_rename,
    receiverBound_rename]
  rw [apply_ite (Option.map (BoundaryEdge.rename ρ))]
  rfl

theorem edges_rename :
    (setting.rename ρ).edges = setting.edges.map (BoundaryEdge.rename ρ) := by
  rw [edges, edges, index_rename, Index.rename, List.filterMap_map, List.map_filterMap]
  congr 1
  funext entry
  exact setting.edge?_rename ρ entry.connection

/-! ### Control reactions -/

theorem first?_rename (reactions : List ReactionId) :
    (setting.rename ρ).first? (reactions.map (EntityId.rename ρ)) =
      (setting.first? reactions).map (EntityId.rename ρ) := by
  induction reactions with
  | nil => rfl
  | cons reaction rest ih =>
    rw [List.map_cons, first?, first?, ih]
    cases setting.first? rest with
    | none => rfl
    | some other =>
      simp only [Option.map_some, priorities_rename, PriorityTable.rank?_rename]
      split <;> rfl

theorem last?_rename (reactions : List ReactionId) :
    (setting.rename ρ).last? (reactions.map (EntityId.rename ρ)) =
      (setting.last? reactions).map (EntityId.rename ρ) := by
  induction reactions with
  | nil => rfl
  | cons reaction rest ih =>
    rw [List.map_cons, last?, last?, ih]
    cases setting.last? rest with
    | none => rfl
    | some other =>
      simp only [Option.map_some, priorities_rename, PriorityTable.rank?_rename]
      split <;> rfl

/-- Any two of the reactions are told apart by the order of execution. -/
def TellsApart (setting : BoundarySetting) (reactions : List ReactionId) : Prop :=
  ∀ first ∈ reactions, ∀ second ∈ reactions,
    rankBefore (setting.priorities.rank? first) (setting.priorities.rank? second) = false →
    rankBefore (setting.priorities.rank? second) (setting.priorities.rank? first) = false →
    first = second

namespace TellsApart

variable {setting} {reactions others : List ReactionId} (apart : setting.TellsApart reactions)
include apart

theorem first?_eq_some_iff {first : ReactionId} : setting.first? reactions = some first ↔
    first ∈ reactions ∧ ∀ other ∈ reactions,
      rankBefore (setting.priorities.rank? other) (setting.priorities.rank? first) = false := by
  refine ⟨first?_eq_some, fun ⟨member, least⟩ => ?_⟩
  cases chosen : setting.first? reactions with
  | none =>
    rw [first?_eq_none_iff.mp chosen] at member
    cases member
  | some other =>
    obtain ⟨memberToo, leastToo⟩ := first?_eq_some chosen
    exact congrArg some
      (apart other memberToo first member (least other memberToo) (leastToo first member))

theorem last?_eq_some_iff {last : ReactionId} : setting.last? reactions = some last ↔
    last ∈ reactions ∧ ∀ other ∈ reactions,
      rankBefore (setting.priorities.rank? last) (setting.priorities.rank? other) = false := by
  refine ⟨last?_eq_some, fun ⟨member, greatest⟩ => ?_⟩
  cases chosen : setting.last? reactions with
  | none =>
    rw [last?_eq_none_iff.mp chosen] at member
    cases member
  | some other =>
    obtain ⟨memberToo, greatestToo⟩ := last?_eq_some chosen
    exact congrArg some
      (apart other memberToo last member (greatestToo last member) (greatest other memberToo))

theorem of_perm (perm : reactions.Perm others) : setting.TellsApart others :=
  fun first member second memberToo =>
    apart first (perm.mem_iff.mpr member) second (perm.mem_iff.mpr memberToo)

/-- Which reaction is the first does not depend on the order in which the reactions are listed. -/
theorem first?_eq_of_perm (perm : reactions.Perm others) :
    setting.first? reactions = setting.first? others := by
  ext first
  simp only [apart.first?_eq_some_iff, (apart.of_perm perm).first?_eq_some_iff, perm.mem_iff]

theorem last?_eq_of_perm (perm : reactions.Perm others) :
    setting.last? reactions = setting.last? others := by
  ext last
  simp only [apart.last?_eq_some_iff, (apart.of_perm perm).last?_eq_some_iff, perm.mem_iff]

theorem rename : (setting.rename ρ).TellsApart (reactions.map (EntityId.rename ρ)) := by
  intro first member second memberToo notBefore notAfter
  obtain ⟨first, listed, rfl⟩ := List.mem_map.mp member
  obtain ⟨second, listedToo, rfl⟩ := List.mem_map.mp memberToo
  simp only [priorities_rename, PriorityTable.rank?_rename] at notBefore notAfter
  exact congrArg (EntityId.rename ρ) (apart first listed second listedToo notBefore notAfter)

end TellsApart

namespace Fits

variable {setting} {program : Program} (fits : setting.Fits program)
  (belongs : setting.priorities.BelongsTo setting.index.graph)
include fits belongs

/-- The priorities of a program tell all its reactions apart. -/
theorem tellsApart {reactions : List ReactionId}
    (declared : ∀ id ∈ reactions, program.Declares (.reaction id)) :
    setting.TellsApart reactions := by
  intro first member second memberToo notBefore notAfter
  obtain ⟨low, high, ranked, rankedToo, le⟩ := fits.noLater_of_rankBefore belongs
    (declared first member) (declared second memberToo) notAfter
  obtain ⟨high', low', rankedToo', ranked', ge⟩ := fits.noLater_of_rankBefore belongs
    (declared second memberToo) (declared first member) notBefore
  obtain rfl : low = low' := Option.some.inj (ranked.symm.trans ranked')
  obtain rfl : high = high' := Option.some.inj (rankedToo.symm.trans rankedToo')
  obtain rfl : low = high := Nat.le_antisymm le ge
  have wellFormed := fits.described.graph_wellFormed
  rw [belongs.rank?_eq_some_iff wellFormed] at ranked rankedToo
  exact Option.some.inj (ranked.symm.trans rankedToo)

theorem receiverControl_rename (edge : BoundaryEdge) :
    (setting.rename ρ).receiverControl (edge.rename ρ) = (setting.receiverControl edge).rename ρ := by
  have apart : setting.TellsApart (setting.guardedReaders edge.target edge.receiver) :=
    fits.tellsApart belongs fun id listed => by
      obtain ⟨-, _, -, reads⟩ := fits.mem_guardedReaders_iff.mp listed
      exact (fits.declares_of_reads reads).1
  have chosen := (apart.rename ρ).first?_eq_of_perm
    (setting.perm_guardedReaders_rename ρ edge.target edge.receiver).symm
  rw [first?_rename] at chosen
  simp only [receiverControl, BoundaryEdge.rename, ← chosen]
  cases setting.first? (setting.guardedReaders edge.target edge.receiver) <;> rfl

theorem senderControl_rename (edge : BoundaryEdge) :
    (setting.rename ρ).senderControl (edge.rename ρ) = (setting.senderControl edge).rename ρ := by
  have apart : setting.TellsApart (setting.feedingWriters edge.source edge.sender) :=
    fits.tellsApart belongs fun id listed => by
      obtain ⟨-, _, -, writes⟩ := fits.mem_feedingWriters_iff.mp listed
      exact (fits.declares_of_writes writes).1
  have chosen := (apart.rename ρ).last?_eq_of_perm
    (setting.perm_feedingWriters_rename ρ edge.source edge.sender).symm
  rw [last?_rename] at chosen
  simp only [senderControl, BoundaryEdge.rename, ← chosen]
  cases setting.last? (setting.feedingWriters edge.source edge.sender) <;> rfl

theorem controls_rename (edge : BoundaryEdge) : (setting.rename ρ).controls (edge.rename ρ) =
    (setting.controls edge).map (ControlReaction.rename ρ) := by
  rw [controls, controls, fits.senderControl_rename ρ belongs, fits.receiverControl_rename ρ belongs]
  rfl

end Fits

/-! ### Findings -/

theorem receivers_rename (edges : List BoundaryEdge) :
    receivers (edges.map (BoundaryEdge.rename ρ)) = receivers edges := by
  funext federate
  simp only [receivers, List.filter_map, List.map_map]
  rfl

theorem circularEdges_rename (edges : List BoundaryEdge) :
    (setting.rename ρ).circularEdges (edges.map (BoundaryEdge.rename ρ)) =
      (setting.circularEdges edges).map (EntityId.rename ρ) := by
  simp only [circularEdges, receivers_rename, List.filter_map, List.map_map]
  rfl

theorem finding?_rename (circular : List ConnectionId) (edge : BoundaryEdge) :
    (setting.rename ρ).finding? (circular.map (EntityId.rename ρ)) (edge.rename ρ) =
      setting.finding? circular edge := by
  have isCircular : (circular.map (EntityId.rename ρ)).contains (edge.rename ρ).connection =
      circular.contains edge.connection :=
    contains_map (EntityId.rename_injective ρ) circular edge.connection
  rw [finding?, finding?, isCircular]
  rfl

theorem findings_rename (edges : List BoundaryEdge) :
    (setting.rename ρ).findings (edges.map (BoundaryEdge.rename ρ)) =
      (setting.findings edges).map fun (edge, finding) => (edge.rename ρ, finding) := by
  simp only [findings, circularEdges_rename, List.filterMap_map, List.map_filterMap]
  congr 1
  funext edge
  rw [Function.comp_apply, finding?_rename, Option.map_map]
  rfl

/-- What is reported about findings is renamed if that goes for each of them. -/
theorem filterMap_findings_rename {α : Type} {report : BoundaryEdge → TimingFinding → Option α}
    {change : α → α} (renames : ∀ edge finding,
      report (edge.rename ρ) finding = (report edge finding).map change)
    (edges : List BoundaryEdge) :
    ((setting.rename ρ).findings (edges.map (BoundaryEdge.rename ρ))).filterMap
        (fun (edge, finding) => report edge finding) =
      ((setting.findings edges).filterMap fun (edge, finding) => report edge finding).map change := by
  rw [findings_rename, List.filterMap_map, List.map_filterMap]
  congr 1
  funext (edge, finding)
  exact renames edge finding

end BoundarySetting

namespace TimingFinding

variable (edge : BoundaryEdge) (finding : TimingFinding)

theorem warning?_rename :
    finding.warning? (edge.rename ρ) = (finding.warning? edge).map (Diagnostic.rename ρ) := by
  cases finding <;> rfl

theorem unbounded?_rename :
    finding.unbounded? (edge.rename ρ) = (finding.unbounded? edge).map (UnboundedEdge.rename ρ) := by
  cases finding <;> rfl

end TimingFinding

/-! ### The whole analysis -/

namespace BoundarySetting.Fits

variable {setting : BoundarySetting} {program : Program} (fits : setting.Fits program)
  (belongs : setting.priorities.BelongsTo setting.index.graph)
include fits belongs

theorem result_rename : (setting.rename ρ).result = setting.result.rename ρ := by
  have controls : (setting.edges.map (BoundaryEdge.rename ρ)).flatMap (setting.rename ρ).controls =
      (setting.edges.flatMap setting.controls).map (ControlReaction.rename ρ) := by
    simp only [List.flatMap_map, List.map_flatMap, fits.controls_rename ρ belongs]
  have unbounded := setting.filterMap_findings_rename ρ
    (fun edge finding => finding.unbounded?_rename ρ edge) setting.edges
  have warnings := setting.filterMap_findings_rename ρ
    (fun edge finding => finding.warning?_rename ρ edge) setting.edges
  simp only [result, edges_rename, controls, unbounded, warnings, BoundaryResult.rename,
    BoundaryReport.rename, AnalysisError.diagnostics, List.map_append, List.map_map]
  rfl

end BoundarySetting.Fits

/-- Nothing that the analysis gives depends on the values of ids. An accepted program with a valid
partition can be renamed, and everything comes out as it did, in the same order and with the ids
renamed. If calls make the partition, calls with the new ids make the renamed one. -/
theorem ids_are_names {program : Program} {index : Index} {partition : Partition}
    (accepted : Index.build program = .ok index) (valid : partition.problems index = [])
    (ρ : Renaming) (policy : Policy) :
    ∃ renamed, Index.build (program.rename ρ) = .ok renamed ∧
      (partition.rename ρ).problems renamed = [] ∧
      (partition.Built → (partition.rename ρ).Built) ∧
      renamed.graph.cycles = index.graph.cycles.rename ρ ∧
      ∀ table, index.graph.priorities = .ok table → ∃ renamedTable,
        renamed.graph.priorities = .ok renamedTable ∧
        renamedTable.nodeOrder = table.nodeOrder ∧
        (∀ reaction, renamedTable.rank? (reaction.rename ρ) = table.rank? reaction ∧
          renamedTable.level? (reaction.rename ρ) = table.level? reaction) ∧
        ∃ result,
          BoundarySetting.classify ⟨index, index.graph, table, partition, policy⟩ = .ok result ∧
          BoundarySetting.classify
            ⟨renamed, renamed.graph, renamedTable, partition.rename ρ, policy⟩ =
              .ok (result.rename ρ) := by
  have acceptedToo : Index.build (program.rename ρ) = .ok (index.rename ρ) := by
    rw [Index.build_rename, accepted]
    rfl
  have validToo := (partition.problems_rename_eq_nil_iff ρ index).mpr valid
  have graph := index.graph_rename ρ
  refine ⟨index.rename ρ, acceptedToo, validToo, Partition.Built.rename ρ, ?_,
    fun table assigned => ⟨table.rename ρ, ?_, rfl, ?_, ?_⟩⟩
  · rw [graph, DependencyGraph.cycles_rename]
  · rw [graph, DependencyGraph.priorities_rename, assigned]
    rfl
  · exact fun reaction => ⟨table.rank?_rename ρ reaction, table.level?_rename ρ reaction⟩
  · have described := (Index.build_eq_ok_iff program index).mp accepted
    let setting : BoundarySetting := ⟨index, index.graph, table, partition, policy⟩
    have fits : setting.Fits program := ⟨described, rfl⟩
    have fitsToo : (setting.rename ρ).Fits (program.rename ρ) :=
      ⟨(Index.build_eq_ok_iff _ _).mp acceptedToo, graph.symm⟩
    have belongs := described.graph_wellFormed.belongsTo_of_priorities assigned
    refine ⟨setting.result, fits.classify_eq_ok valid, ?_⟩
    rw [← fits.result_rename ρ belongs, graph]
    exact fitsToo.classify_eq_ok validToo

/-- Turns the ids of every kind around, the greatest first. -/
def Renaming.reversed : Renaming where
  apply := fun _ id => ⟨~~~id.number⟩
  injective := fun _ _ _ same =>
    congrArg EntityId.mk (UInt32.not_inj.mp (congrArg EntityId.number same))

theorem ids_are_names_exchange : ∃ (renamed : Index) (table : PriorityTable)
    (result : BoundaryResult), Index.build (Program.exchange.rename .reversed) = .ok renamed ∧
      (Partition.sides.rename .reversed).problems renamed = [] ∧
      (Partition.sides.rename .reversed).Built ∧
      renamed.graph.priorities = .ok table ∧ table.rank? ⟨4294967295⟩ = some 0 ∧
      BoundarySetting.classify
        ⟨renamed, renamed.graph, table, Partition.sides.rename .reversed, {}⟩ = .ok result ∧
      ∃ control ∈ result.report.controls, control.placement = .after ⟨4294967295⟩ := by
  obtain ⟨renamed, accepted, valid, built, -, tables⟩ :=
    ids_are_names Program.build_exchange Partition.problems_sides .reversed {}
  obtain ⟨table, assigned, -, same, result, classified, classifiedToo⟩ :=
    tables .exchange Program.priorities_exchange
  obtain ⟨-, rfl⟩ := BoundarySetting.eq_exchange Program.priorities_exchange classified
  obtain ⟨edge, member, -, placements⟩ := BoundarySetting.exists_edge_exchange
  refine ⟨renamed, table, _, accepted, valid, built Partition.built_sides, assigned, (same ⟨0⟩).1,
    classifiedToo, ((BoundarySetting.exchange {}).senderControl edge).rename .reversed, ?_, ?_⟩
  · exact List.mem_map_of_mem (List.mem_flatMap.mpr ⟨edge, member, List.mem_cons_self⟩)
  · have placed : ((BoundarySetting.exchange {}).senderControl edge).placement = .after ⟨0⟩ :=
      (List.cons.inj placements).1
    rw [ControlReaction.rename, placed]
    rfl

end ReactorCausality
