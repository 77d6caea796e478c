import ReactorCausality.Proofs.Boundary.Classification
import ReactorCausality.Proofs.Graph.Contents

/-!
Which connections are boundary edges: those of the program whose ends belong to different federates,
each once and in the order of the program (`Fits.edges_eq`). It makes no difference that a program in a
single federate is not looked at (`Fits.classify_eq_ok`).
-/
namespace ReactorCausality

theorem one_lt_length_distinct {α : Type} [DecidableEq α] {list : List α} {first second : α}
    (isFirst : first ∈ list) (isSecond : second ∈ list) (differ : first ≠ second) :
    1 < (distinct list).length := by
  rw [← mem_distinct] at isFirst isSecond
  cases items : distinct list with
  | nil => simp [items] at isFirst
  | cons only rest =>
    cases rest with
    | nil => simp_all
    | cons _ _ => simp

theorem Index.Describes.owner_mem {index : Index} {program : Program}
    (described : index.Describes program) {port : PortId} {entry : PortEntry}
    (found : index.port? port = some entry) :
    ∃ owner ∈ index.reactors, owner.reactor.id = entry.owner := by
  obtain ⟨listed, -⟩ := Index.mem_of_port?_eq_some found
  rw [described.ports] at listed
  obtain ⟨owner, member, declared⟩ := List.mem_flatMap.mp listed
  obtain ⟨port, -, rfl⟩ := List.mem_map.mp declared
  exact ⟨owner, member, rfl⟩

namespace BoundarySetting

/-- The setting is about a program and its dependency graph. -/
structure Fits (setting : BoundarySetting) (program : Program) : Prop where
  described : setting.index.Describes program
  graph_eq : setting.graph = setting.index.graph

/-- The ends of a connection belong to different federates. -/
def Crosses (setting : BoundarySetting) (connection : Connection) : Prop :=
  setting.federateOfPort connection.source ≠ setting.federateOfPort connection.target

instance (setting : BoundarySetting) (connection : Connection) :
    Decidable (setting.Crosses connection) :=
  inferInstanceAs (Decidable (_ ≠ _))

/-- The boundary edge of a connection that crosses a boundary. -/
def crossing (setting : BoundarySetting) (connection : Connection) : BoundaryEdge :=
  { connection := connection.id
    name := setting.index.nameOfConnection connection
    source := connection.source
    target := connection.target
    sender := setting.federateOfPort connection.source
    receiver := setting.federateOfPort connection.target
    delay := connection.delay
    isPhysical := connection.isPhysical
    bound := setting.receiverBound connection (setting.federateOfPort connection.target) }

variable {setting : BoundarySetting} {program : Program}

namespace Fits

variable (fits : setting.Fits program)
include fits

theorem isSome_position?_iff {kind : NodeKind} :
    (setting.graph.position? kind).isSome ↔ program.Declares kind := by
  rw [fits.graph_eq, DependencyGraph.position?, List.findIdx?_isSome,
    ← fits.described.mem_nodeKinds_iff, ← fits.described.map_kind_nodes]
  simp

theorem declares_ends {connection : Connection} (declared : connection ∈ program.connections) :
    program.Declares (.port connection.source) ∧ program.Declares (.port connection.target) := by
  have member := fits.described.mem_dependencyList_iff.mpr (.inr (.inr ⟨connection, declared, rfl⟩))
  obtain ⟨source, target, -⟩ := fits.described.dependency_ends member
  exact ⟨source, target⟩

theorem edge?_eq {connection : Connection} (declared : connection ∈ program.connections) :
    setting.edge? connection =
      if setting.Crosses connection then some (setting.crossing connection) else none := by
  obtain ⟨source, target⟩ := fits.declares_ends declared
  by_cases crosses : setting.federateOfPort connection.source =
      setting.federateOfPort connection.target
  · simp [edge?, Crosses, crosses]
  · simp [edge?, Crosses, crosses, crossing, fits.isSome_position?_iff.mpr source,
      fits.isSome_position?_iff.mpr target]

theorem edges_eq :
    setting.edges = (program.connections.filter setting.Crosses).map setting.crossing := by
  have each : ∀ connection ∈ program.connections, setting.edge? connection =
      (Option.guard (fun connection => decide (setting.Crosses connection)) connection).map
        setting.crossing := by
    intro connection declared
    rw [fits.edge?_eq declared]
    by_cases crosses : setting.Crosses connection <;> simp [Option.guard, crosses]
  calc setting.edges
      = program.connections.filterMap setting.edge? := by
        rw [edges, ← fits.described.map_connections, List.filterMap_map]
        rfl
    _ = (program.connections.filterMap
          (Option.guard fun connection => decide (setting.Crosses connection))).map
            setting.crossing := by
        rw [List.filterMap_congr each, List.map_filterMap]
    _ = (program.connections.filter setting.Crosses).map setting.crossing := by
        rw [List.filterMap_eq_filter]

theorem mem_edges_iff {edge : BoundaryEdge} : edge ∈ setting.edges ↔
    ∃ connection ∈ program.connections, setting.Crosses connection ∧
      setting.crossing connection = edge := by
  rw [fits.edges_eq, List.mem_map]
  simp only [List.mem_filter, decide_eq_true_eq, and_assoc]

theorem isFederated_of_crosses {connection : Connection}
    (declared : connection ∈ program.connections) (crosses : setting.Crosses connection) :
    setting.partition.isFederated setting.index := by
  have federate_mem (port : PortId) (declared : program.Declares (.port port)) :
      setting.federateOfPort port ∈ setting.index.reactors.map fun entry =>
        setting.partition.federateOf setting.index entry.reactor.id := by
    obtain ⟨entry, found⟩ := Option.isSome_iff_exists.mp
      (fits.described.isSome_port?_iff.mpr declared)
    obtain ⟨owner, member, same⟩ := fits.described.owner_mem found
    refine List.mem_map.mpr ⟨owner, member, ?_⟩
    simp [federateOfPort, Index.portOwner?, found, same]
  obtain ⟨source, target⟩ := fits.declares_ends declared
  exact decide_eq_true (one_lt_length_distinct (federate_mem _ source) (federate_mem _ target) crosses)

theorem isFederated_of_mem_edges {edge : BoundaryEdge} (member : edge ∈ setting.edges) :
    setting.partition.isFederated setting.index := by
  obtain ⟨connection, declared, crosses, -⟩ := fits.mem_edges_iff.mp member
  exact fits.isFederated_of_crosses declared crosses

/-- Classifying gives the same result whether the program is looked at or not. -/
theorem classify_eq_ok (valid : setting.partition.problems setting.index = []) :
    setting.classify = .ok setting.result := by
  refine setting.classify_eq_ok_iff.mpr ⟨valid, ?_⟩
  split
  · rfl
  · next single =>
    have none : setting.edges = [] := List.eq_nil_iff_forall_not_mem.mpr fun edge member =>
      single (fits.isFederated_of_mem_edges member)
    simp [result, none, findings, AnalysisError.diagnostics]

theorem report_eq {result : BoundaryResult} (classified : setting.classify = .ok result) :
    result.report.edges = setting.edges ∧
      result.report.controls = setting.edges.flatMap setting.controls := by
  obtain ⟨valid, -⟩ := classify_eq_ok_iff.mp classified
  rw [fits.classify_eq_ok valid] at classified
  cases classified
  exact ⟨rfl, rfl⟩

end Fits

end BoundarySetting

end ReactorCausality
