import ReactorCausality.Proofs.Boundary.Classification
import ReactorCausality.Proofs.Boundary.Edges
import ReactorCausality.Proofs.Federation.Partition
import ReactorCausality.Proofs.Priority.Table

/-!
The report is complete: it lists the connections between different federates, each once and in the
order of the program, and for each of them one control reaction on either side
(`Fits.complete_result`).
-/
namespace ReactorCausality

/-- The reactors at the ends of a connection belong to different federates. -/
def Partition.Separates (partition : Partition) (index : Index) (connection : Connection) : Prop :=
  (index.portOwner? connection.source).map (partition.federateOf index) ≠
    (index.portOwner? connection.target).map (partition.federateOf index)

instance (partition : Partition) (index : Index) (connection : Connection) :
    Decidable (partition.Separates index connection) :=
  inferInstanceAs (Decidable (_ ≠ _))

namespace BoundaryEdge

/-- An edge says of a connection what the program says of it. -/
structure Shows (edge : BoundaryEdge) (index : Index) (connection : Connection) : Prop where
  id : edge.connection = connection.id
  name : edge.name = index.connectionName connection.id
  source : edge.source = connection.source
  target : edge.target = connection.target
  delay : edge.delay = connection.delay
  isPhysical : edge.isPhysical = connection.isPhysical

/-- A control reaction on the side of the sender, wherever it is placed. -/
structure IsAnnouncedBy (edge : BoundaryEdge) (control : ControlReaction) : Prop where
  connection : control.connection = edge.connection
  name : control.edge = edge.name
  side : control.side = .sender
  kind : control.kind = .emitAbsent
  bound : control.bound = none
  federate : control.federate = edge.sender
  port : control.port = edge.source

/-- A control reaction on the side of the receiver, wherever it is placed. -/
structure IsAwaitedBy (edge : BoundaryEdge) (control : ControlReaction) : Prop where
  connection : control.connection = edge.connection
  name : control.edge = edge.name
  side : control.side = .receiver
  kind : control.kind = .waitBounded
  bound : control.bound = edge.bound
  federate : control.federate = edge.receiver
  port : control.port = edge.target

end BoundaryEdge

/-- A report is about the connections between different federates, and about nothing else. -/
structure BoundaryReport.Complete (report : BoundaryReport) (index : Index) (partition : Partition) :
    Prop where
  connections : report.edges.map BoundaryEdge.connection =
    ((index.connections.map ConnectionEntry.connection).filter fun connection =>
      partition.Separates index connection).map Connection.id
  distinct : (report.edges.map BoundaryEdge.connection).Nodup
  faithful : ∀ edge ∈ report.edges, ∃ entry ∈ index.connections, edge.Shows index entry.connection
  owners : ∀ edge ∈ report.edges, ∃ sender receiver, index.portOwner? edge.source = some sender ∧
    index.portOwner? edge.target = some receiver ∧
    edge.sender = partition.federateOf index sender ∧
    edge.receiver = partition.federateOf index receiver
  differ : ∀ edge ∈ report.edges, edge.sender ≠ edge.receiver
  controls : ∃ announce await : BoundaryEdge → ControlReaction,
    report.controls = report.edges.flatMap (fun edge => [announce edge, await edge]) ∧
    ∀ edge : BoundaryEdge, edge.IsAnnouncedBy (announce edge) ∧ edge.IsAwaitedBy (await edge)

namespace BoundarySetting.Fits

variable {setting : BoundarySetting} {program : Program} (fits : setting.Fits program)
include fits

theorem nodup_connections : (setting.edges.map BoundaryEdge.connection).Nodup := by
  have distinct : (program.connections.map Connection.id).Nodup := by
    simpa [← fits.described.map_connections, Function.comp_def] using
      fits.described.distinct.connections
  rw [fits.edges_eq, List.map_map]
  exact distinct.sublist (List.filter_sublist.map Connection.id)

theorem owner_eq {port : PortId} (declared : program.Declares (.port port)) :
    ∃ owner, setting.index.portOwner? port = some owner ∧
      setting.federateOfPort port = setting.partition.federateOf setting.index owner := by
  obtain ⟨entry, found⟩ := Option.isSome_iff_exists.mp (fits.described.isSome_port?_iff.mpr declared)
  exact ⟨entry.owner, by simp [Index.portOwner?, found], by
    simp [federateOfPort, Index.portOwner?, found]⟩

theorem separates_iff {connection : Connection} (declared : connection ∈ program.connections) :
    setting.partition.Separates setting.index connection ↔ setting.Crosses connection := by
  obtain ⟨source, target⟩ := fits.declares_ends declared
  obtain ⟨sender, ownsSource, sends⟩ := fits.owner_eq source
  obtain ⟨receiver, ownsTarget, receives⟩ := fits.owner_eq target
  simp [Partition.Separates, Crosses, ownsSource, ownsTarget, sends, receives]

theorem connectionName_eq {connection : Connection} (declared : connection ∈ program.connections) :
    setting.index.connectionName connection.id = setting.index.nameOfConnection connection := by
  obtain ⟨entry, listed, rfl⟩ := List.mem_map.mp (fits.described.map_connections ▸ declared)
  rw [Index.connectionName, fits.described.distinct.connection?_of_mem listed]

theorem complete_result : setting.result.report.Complete setting.index setting.partition where
  connections := by
    have separated : ∀ connection ∈ program.connections,
        decide (setting.Crosses connection) =
          decide (setting.partition.Separates setting.index connection) :=
      fun connection declared => decide_eq_decide.mpr (fits.separates_iff declared).symm
    calc setting.edges.map BoundaryEdge.connection
        = (program.connections.filter setting.Crosses).map Connection.id := by
          rw [fits.edges_eq, List.map_map]
          rfl
      _ = _ := by rw [List.filter_congr separated, fits.described.map_connections]
  distinct := fits.nodup_connections
  faithful edge member := by
    obtain ⟨connection, declared, -, rfl⟩ := fits.mem_edges_iff.mp member
    obtain ⟨entry, listed, rfl⟩ := List.mem_map.mp (fits.described.map_connections ▸ declared)
    exact ⟨entry, listed, rfl, (fits.connectionName_eq declared).symm, rfl, rfl, rfl, rfl⟩
  owners edge member := by
    obtain ⟨connection, declared, -, rfl⟩ := fits.mem_edges_iff.mp member
    obtain ⟨source, target⟩ := fits.declares_ends declared
    obtain ⟨sender, ownsSource, sends⟩ := fits.owner_eq source
    obtain ⟨receiver, ownsTarget, receives⟩ := fits.owner_eq target
    exact ⟨sender, receiver, ownsSource, ownsTarget, sends, receives⟩
  differ edge member := by
    obtain ⟨connection, -, crosses, rfl⟩ := fits.mem_edges_iff.mp member
    exact crosses
  controls := ⟨setting.senderControl, setting.receiverControl, rfl, fun edge =>
    ⟨⟨rfl, rfl, rfl, rfl, rfl, rfl, rfl⟩, ⟨rfl, rfl, rfl, rfl, rfl, rfl, rfl⟩⟩⟩

end BoundarySetting.Fits

/-- A partition that fits the program is always classified, and as if all connections were looked at.
The report is complete, whatever the priorities and the policy are. -/
theorem boundary_report_complete {program : Program} {index : Index} {partition : Partition}
    (accepted : Index.build program = .ok index) (valid : partition.problems index = [])
    (table : PriorityTable) (policy : Policy) :
    let setting : BoundarySetting := ⟨index, index.graph, table, partition, policy⟩
    setting.classify = .ok setting.result ∧ setting.result.report.Complete index partition := by
  intro setting
  have fits : setting.Fits program := ⟨(Index.build_eq_ok_iff program index).mp accepted, rfl⟩
  exact ⟨fits.classify_eq_ok valid, fits.complete_result⟩

/-- Two reactors that send to each other without waiting for each other first. The one on the right
hands on what it gets to a reactor inside it, and it is also sent the same later. -/
def Program.exchange : Program where
  main :=
    { id := ⟨0⟩, name := "main"
      children := [
        { id := ⟨1⟩, name := "left", ports := [⟨⟨0⟩, "out", .output⟩, ⟨⟨1⟩, "in", .input⟩]
          reactions := [
            { id := ⟨0⟩, index := 0, triggers := [.startup], effects := [.port ⟨0⟩] },
            { id := ⟨1⟩, index := 1, triggers := [.port ⟨1⟩] }] },
        { id := ⟨2⟩, name := "right", ports := [⟨⟨2⟩, "in", .input⟩, ⟨⟨3⟩, "out", .output⟩]
          reactions := [
            { id := ⟨2⟩, index := 0, triggers := [.startup], effects := [.port ⟨3⟩] }]
          children := [
            { id := ⟨3⟩, name := "inner", ports := [⟨⟨4⟩, "in", .input⟩]
              reactions := [{ id := ⟨3⟩, index := 0, triggers := [.port ⟨4⟩] }] }]
          connections := [{ id := ⟨3⟩, source := ⟨2⟩, target := ⟨4⟩ }] }]
      connections := [
        { id := ⟨0⟩, source := ⟨0⟩, target := ⟨2⟩ }, { id := ⟨1⟩, source := ⟨3⟩, target := ⟨1⟩ },
        { id := ⟨2⟩, source := ⟨0⟩, target := ⟨2⟩, delay := some ⟨5000000⟩ }] }

theorem Program.build_exchange : Index.build exchange = .ok (Index.survey exchange).index :=
  rfl

/-- Either reactor is a federate of its own. -/
def Partition.sides : Partition :=
  ((single.assignReactor ⟨1⟩ "left").1.assignPath "main.right" "right").1

theorem Partition.built_sides : sides.Built :=
  .assignPath (.assignReactor .single _ _) _ _

theorem Partition.problems_sides : sides.problems (Index.survey Program.exchange).index = [] := by
  decide +kernel

def PriorityTable.exchange : PriorityTable where
  entries := [⟨⟨0⟩, ⟨0, 0⟩⟩, ⟨⟨2⟩, ⟨1, 0⟩⟩, ⟨⟨1⟩, ⟨2, 1⟩⟩, ⟨⟨3⟩, ⟨3, 1⟩⟩]
  nodeOrder := [0, 1, 4, 5, 3, 2, 6, 8, 7]

theorem Program.priorities_exchange :
    (Index.survey exchange).index.graph.priorities = .ok .exchange := by
  decide +kernel

theorem boundary_report_complete_exchange : ∃ (index : Index) (table : PriorityTable)
    (setting : BoundarySetting), Index.build Program.exchange = .ok index ∧
      index.graph.priorities = .ok table ∧ Partition.sides.problems index = [] ∧
      setting = ⟨index, index.graph, table, Partition.sides, {}⟩ ∧
      setting.classify = .ok setting.result ∧
      setting.result.report.Complete index Partition.sides ∧
      setting.result.report.edges.map BoundaryEdge.connection = [⟨0⟩, ⟨1⟩, ⟨2⟩] := by
  obtain ⟨classified, complete⟩ :=
    boundary_report_complete Program.build_exchange Partition.problems_sides .exchange {}
  refine ⟨_, _, _, Program.build_exchange, Program.priorities_exchange, Partition.problems_sides,
    rfl, classified, complete, ?_⟩
  rw [complete.connections]
  decide

end ReactorCausality
