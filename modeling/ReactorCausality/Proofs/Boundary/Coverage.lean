import ReactorCausality.Proofs.Boundary.Edges
import ReactorCausality.Proofs.Cycle
import ReactorCausality.Proofs.Priority.Table

/-!
Which zero-delay paths between reactions are covered by boundary edges. A boundary edge is a
connection, so what crosses a boundary without one is not covered: a reaction that writes the input
of a contained reactor, or reads its output. A path is covered exactly if its ports are not all in
one federate.
-/
namespace ReactorCausality

namespace DependencyGraph

/-- Zero-delay edges lead from one node to another and meet nothing but ports between them. -/
inductive PortPath (graph : DependencyGraph) : Nat → Nat → List Edge → Prop where
  | single {edge : Edge} (member : edge ∈ graph.edges) (zeroDelay : edge.isZeroDelay) :
      graph.PortPath edge.source edge.target [edge]
  | cons {edge : Edge} {target : Nat} {rest : List Edge} {port : PortId}
      (member : edge ∈ graph.edges) (zeroDelay : edge.isZeroDelay)
      (passes : graph.portAt? edge.target = some port)
      (path : graph.PortPath edge.target target rest) :
      graph.PortPath edge.source target (edge :: rest)

/-- A path leads from one reaction to another and meets nothing but ports between them. -/
def LeadsTo (graph : DependencyGraph) (first second : ReactionId) (path : List Edge) : Prop :=
  ∃ source target, graph.reactionAt? source = some first ∧ graph.reactionAt? target = some second ∧
    graph.PortPath source target path

def portsOn (graph : DependencyGraph) (path : List Edge) : List PortId :=
  path.filterMap fun edge => graph.portAt? edge.target

theorem portsOn_cons {graph : DependencyGraph} {edge : Edge} {port : PortId}
    (passes : graph.portAt? edge.target = some port) (path : List Edge) :
    graph.portsOn (edge :: path) = port :: graph.portsOn path := by
  simp [portsOn, passes]

end DependencyGraph

/-- The ports on a path all belong to one federate. -/
def BoundarySetting.StaysWithin (setting : BoundarySetting) (path : List Edge) : Prop :=
  ∃ federate, ∀ port ∈ setting.index.graph.portsOn path, setting.federateOfPort port = federate

/-- An edge is a connection that is reported with the control reactions of both sides. -/
def BoundaryReport.Covers (report : BoundaryReport) (edge : Edge) : Prop :=
  ∃ boundary ∈ report.edges, edge.connection? = some boundary.connection ∧
    (∃ control ∈ report.controls, control.connection = boundary.connection ∧
      control.kind = .emitAbsent ∧ control.federate = boundary.sender) ∧
    ∃ control ∈ report.controls, control.connection = boundary.connection ∧
      control.kind = .waitBounded ∧ control.federate = boundary.receiver

theorem BoundaryReport.not_covers {report : BoundaryReport} {edge : Edge}
    (other : edge.connection? = none) : ¬ report.Covers edge := by
  rintro ⟨boundary, -, same, -⟩
  rw [other] at same
  cases same

namespace BoundarySetting.Fits

variable {setting : BoundarySetting} {program : Program} (fits : setting.Fits program)
  {result : BoundaryResult} (classified : setting.classify = .ok result)
include fits classified

theorem covers_iff {connection : Connection} (declared : connection ∈ program.connections) :
    result.report.Covers (setting.index.edgeOf connection.dependency) ↔
      setting.Crosses connection := by
  obtain ⟨edges, controls⟩ := fits.report_eq classified
  rw [BoundaryReport.Covers, edges, controls]
  constructor
  · rintro ⟨boundary, member, same, -⟩
    obtain ⟨other, declaredToo, crosses, rfl⟩ := fits.mem_edges_iff.mp member
    obtain rfl := fits.described.connection_injective declared declaredToo (Option.some.inj same)
    exact crosses
  · intro crosses
    have member : setting.crossing connection ∈ setting.edges :=
      fits.mem_edges_iff.mpr ⟨connection, declared, crosses, rfl⟩
    refine ⟨setting.crossing connection, member, rfl,
      ⟨setting.senderControl (setting.crossing connection), ?_, rfl, rfl, rfl⟩,
      setting.receiverControl (setting.crossing connection), ?_, rfl, rfl, rfl⟩
    · exact List.mem_flatMap.mpr ⟨_, member, List.mem_cons_self⟩
    · exact List.mem_flatMap.mpr ⟨_, member, by simp [BoundarySetting.controls]⟩

/-- From a port to a reaction: the reaction reads the last port, and a connection is covered exactly
if the path leaves the federate of the first port. -/
theorem covered_of_port {port : PortId} (declared : program.Declares (.port port))
    {reader : ReactionId} {target : Nat} {path : List Edge}
    (ends : setting.index.graph.reactionAt? target = some reader)
    (portPath : setting.index.graph.PortPath (setting.index.position (.port port)) target path) :
    (∃ last ∈ port :: setting.index.graph.portsOn path, program.Reads reader last) ∧
    ((∃ edge ∈ path, result.report.Covers edge) ↔
      ∃ other ∈ setting.index.graph.portsOn path,
        setting.federateOfPort other ≠ setting.federateOfPort port) := by
  have described := fits.described
  generalize start : setting.index.position (.port port) = source at portPath
  induction portPath generalizing port with
  | @single edge member zeroDelay =>
    rcases described.edge_of_port member start.symm with
      ⟨reaction, isReader, read, rfl⟩ | ⟨connection, isDeclared, rfl, rfl⟩
    · have isReaction : program.Declares (.reaction reaction.id) := List.mem_map_of_mem isReader
      have same : some reaction.id = some reader :=
        (described.reactionAt?_position isReaction).symm.trans ends
      have noPort : setting.index.graph.portAt?
          (setting.index.edgeOf ⟨.port port, .reaction reaction.id, .source⟩).target = none :=
        described.portAt?_position isReaction
      refine ⟨⟨port, List.mem_cons_self, reaction, isReader, Option.some.inj same, read⟩, ?_⟩
      simpa [DependencyGraph.portsOn, noPort] using BoundaryReport.not_covers rfl
    · have isPort := (fits.declares_ends isDeclared).2
      have noReaction := (described.reactionAt?_position isPort).symm.trans ends
      cases noReaction
  | @cons edge target rest next member zeroDelay passes path ih =>
    rcases described.edge_of_port member start.symm with
      ⟨reaction, isReader, read, rfl⟩ | ⟨connection, isDeclared, rfl, rfl⟩
    · have isReaction : program.Declares (.reaction reaction.id) := List.mem_map_of_mem isReader
      have noPort := (described.portAt?_position isReaction).symm.trans passes
      cases noPort
    · have isPort := (fits.declares_ends isDeclared).2
      have same := (described.portAt?_position isPort).symm.trans passes
      obtain rfl : connection.target = next := Option.some.inj same
      obtain ⟨⟨last, onPath, read⟩, covered⟩ := ih isPort ends rfl
      rw [DependencyGraph.portsOn_cons passes]
      refine ⟨⟨last, List.mem_cons_of_mem _ onPath, read⟩, ?_⟩
      simp only [List.mem_cons, exists_eq_or_imp, fits.covers_iff classified isDeclared, covered,
        Crosses]
      by_cases stays : setting.federateOfPort connection.source =
          setting.federateOfPort connection.target
      · simp [stays]
      · simp [stays, Ne.symm stays]

omit classified in
theorem federateOfReaction_eq {reactor : Reactor} (inside : reactor ∈ program.reactors)
    {id : ReactionId} (ordered : id ∈ Reaction.orderedIds reactor.reactions) :
    setting.federateOfReaction id = setting.partition.federateOf setting.index reactor.id := by
  obtain ⟨reaction, member, rfl⟩ := List.mem_map.mp ordered
  have owned := fits.described.reactionOwner?_eq inside (List.mem_of_mem_filter member)
  rw [federateOfReaction, owned]

/-- On a path between reactions of different federates, the one writes the first port and the other
reads the last one, and a connection is covered exactly if the path leaves the federate of the first
port. -/
theorem covered_of_leadsTo {first second : ReactionId} {path : List Edge}
    (leads : setting.index.graph.LeadsTo first second path)
    (differ : setting.federateOfReaction first ≠ setting.federateOfReaction second) :
    ∃ port ∈ setting.index.graph.portsOn path, program.Writes first port ∧
      (∃ last ∈ setting.index.graph.portsOn path, program.Reads second last) ∧
      ((∃ edge ∈ path, result.report.Covers edge) ↔
        ∃ other ∈ setting.index.graph.portsOn path,
          setting.federateOfPort other ≠ setting.federateOfPort port) := by
  obtain ⟨source, target, starts, ends, portPath⟩ := leads
  have described := fits.described
  have start := described.eq_position starts
  cases portPath with
  | single member =>
    rcases described.edge_of_reaction member start with
      ⟨writer, isWriter, rfl, port, written, rfl⟩ | ⟨reactor, inside, next, neighbours, rfl⟩
    · have isPort := described.declares_touched isWriter (List.mem_append_right _ written)
      have noReaction := (described.reactionAt?_position isPort).symm.trans ends
      cases noReaction
    · -- The next reaction of a reactor is in no other federate.
      have earlier : first ∈ Reaction.orderedIds reactor.reactions := neighbours.subset (by simp)
      have later : next ∈ Reaction.orderedIds reactor.reactions := neighbours.subset (by simp)
      have isReaction := Program.declares_of_ordered inside later
      have same := (described.reactionAt?_position isReaction).symm.trans ends
      obtain rfl : next = second := Option.some.inj same
      have together := (fits.federateOfReaction_eq inside earlier).trans
        (fits.federateOfReaction_eq inside later).symm
      contradiction
  | @cons edge _ rest port member zeroDelay passes path =>
    rcases described.edge_of_reaction member start with
      ⟨writer, isWriter, rfl, next, written, rfl⟩ | ⟨reactor, inside, next, neighbours, rfl⟩
    · have isPort := described.declares_touched isWriter (List.mem_append_right _ written)
      have same := (described.portAt?_position isPort).symm.trans passes
      obtain rfl : next = port := Option.some.inj same
      obtain ⟨read, covered⟩ := fits.covered_of_port classified isPort ends path
      rw [DependencyGraph.portsOn_cons passes]
      refine ⟨next, List.mem_cons_self, ⟨writer, isWriter, rfl, written⟩, read, ?_⟩
      have uncovered : ¬ result.report.Covers
          (setting.index.edgeOf ⟨.reaction writer.id, .port next, .effect⟩) :=
        BoundaryReport.not_covers rfl
      simp [uncovered, covered]
    · have later : next ∈ Reaction.orderedIds reactor.reactions := neighbours.subset (by simp)
      have isReaction := Program.declares_of_ordered inside later
      have noPort := (described.portAt?_position isReaction).symm.trans passes
      cases noPort

theorem covered_iff_not_staysWithin {first second : ReactionId} {path : List Edge}
    (leads : setting.index.graph.LeadsTo first second path)
    (differ : setting.federateOfReaction first ≠ setting.federateOfReaction second) :
    (∃ edge ∈ path, result.report.Covers edge) ↔ ¬ setting.StaysWithin path := by
  obtain ⟨port, onPath, -, -, covered⟩ := fits.covered_of_leadsTo classified leads differ
  rw [covered]
  constructor
  · rintro ⟨other, onPathToo, differs⟩ ⟨federate, same⟩
    exact differs ((same other onPathToo).trans (same port onPath).symm)
  · intro leaves
    by_contra same
    push Not at same
    exact leaves ⟨setting.federateOfPort port, same⟩

/-- Where no connection is covered, one of the two reactions reaches into another federate. -/
theorem covered_or_reaches_out {first second : ReactionId} {path : List Edge}
    (leads : setting.index.graph.LeadsTo first second path)
    (differ : setting.federateOfReaction first ≠ setting.federateOfReaction second) :
    (∃ edge ∈ path, result.report.Covers edge) ∨
      ∃ port ∈ setting.index.graph.portsOn path,
        program.Writes first port ∧
            setting.federateOfPort port ≠ setting.federateOfReaction first ∨
          program.Reads second port ∧
            setting.federateOfPort port ≠ setting.federateOfReaction second := by
  obtain ⟨port, onPath, written, ⟨last, lastOnPath, read⟩, covered⟩ :=
    fits.covered_of_leadsTo classified leads differ
  rw [covered]
  by_cases writes : setting.federateOfPort port = setting.federateOfReaction first
  · by_cases reads : setting.federateOfPort last = setting.federateOfReaction second
    · refine .inl ⟨last, lastOnPath, ?_⟩
      rw [writes, reads]
      exact differ.symm
    · exact .inr ⟨last, lastOnPath, .inr ⟨read, reads⟩⟩
  · exact .inr ⟨port, onPath, .inl ⟨written, writes⟩⟩

end BoundarySetting.Fits

/-- A zero-delay path between reactions of different federates that meets nothing but ports is
covered by a boundary edge exactly if its ports do not all belong to one federate. If it is not
covered, the first reaction writes a port of another federate, or the second one reads one. -/
theorem portPath_covered_iff {program : Program} {index : Index} {partition : Partition}
    (accepted : Index.build program = .ok index) (acyclic : index.graph.cycles.isAcyclic)
    (valid : partition.problems index = []) (policy : Policy) :
    ∃ table setting result, index.graph.priorities = .ok table ∧
      setting = BoundarySetting.mk index index.graph table partition policy ∧
      setting.classify = .ok result ∧
      ∀ first second path, index.graph.LeadsTo first second path →
        setting.federateOfReaction first ≠ setting.federateOfReaction second →
        ((∃ edge ∈ path, result.report.Covers edge) ↔ ¬ setting.StaysWithin path) ∧
        ((∃ edge ∈ path, result.report.Covers edge) ∨
          ∃ port ∈ index.graph.portsOn path,
            program.Writes first port ∧
                setting.federateOfPort port ≠ setting.federateOfReaction first ∨
              program.Reads second port ∧
                setting.federateOfPort port ≠ setting.federateOfReaction second) := by
  have described := (Index.build_eq_ok_iff program index).mp accepted
  have wellFormed := described.graph_wellFormed
  obtain ⟨table, assigned⟩ :=
    wellFormed.exists_priorities_iff.mpr (wellFormed.isAcyclic_cycles_iff.mp acyclic)
  let setting : BoundarySetting := ⟨index, index.graph, table, partition, policy⟩
  have fits : setting.Fits program := ⟨described, rfl⟩
  have classified := setting.classify_eq_ok_iff.mpr ⟨valid, rfl⟩
  refine ⟨table, setting, _, assigned, rfl, classified, fun first second path leads differ => ?_⟩
  exact ⟨fits.covered_iff_not_staysWithin classified leads differ,
    fits.covered_or_reaches_out classified leads differ⟩

/-- The main reactor writes the input of a composite reactor, which hands it on to a reactor inside
it. -/
def Program.intake : Program where
  main :=
    { id := ⟨0⟩, name := "main"
      reactions := [{ id := ⟨0⟩, index := 0, triggers := [.startup], effects := [.port ⟨0⟩] }]
      children := [
        { id := ⟨1⟩, name := "outer", ports := [⟨⟨0⟩, "in", .input⟩]
          children := [
            { id := ⟨2⟩, name := "inner", ports := [⟨⟨1⟩, "in", .input⟩]
              reactions := [{ id := ⟨1⟩, index := 0, triggers := [.port ⟨1⟩] }] }]
          connections := [{ id := ⟨0⟩, source := ⟨0⟩, target := ⟨1⟩ }] }] }

theorem Program.build_intake : Index.build intake = .ok (Index.survey intake).index :=
  rfl

theorem Program.isAcyclic_intake : (Index.survey intake).index.graph.cycles.isAcyclic :=
  ((Index.build_eq_ok_iff _ _).mp build_intake).graph_wellFormed.isAcyclic_cycles_iff.mpr
    (DependencyGraph.acyclic_of_edges_lt [0, 1, 3, 2].idxOf (by decide))

def Program.intakePath : List Edge :=
  [⟨0, 1, .effect⟩, ⟨1, 3, .connection ⟨0⟩ none⟩, ⟨3, 2, .source⟩]

theorem Program.leadsTo_intake :
    (Index.survey intake).index.graph.LeadsTo ⟨0⟩ ⟨1⟩ intakePath := by
  refine ⟨0, 2, by decide, by decide, ?_⟩
  refine @DependencyGraph.PortPath.cons _ ⟨0, 1, .effect⟩ _ _ ⟨0⟩ ?_ ?_ ?_ ?_
  iterate 3 decide
  refine @DependencyGraph.PortPath.cons _ ⟨1, 3, .connection ⟨0⟩ none⟩ _ _ ⟨1⟩ ?_ ?_ ?_ ?_
  iterate 3 decide
  refine @DependencyGraph.PortPath.single _ ⟨3, 2, .source⟩ ?_ ?_
  iterate 2 decide

theorem Program.portsOn_intakePath :
    (Index.survey intake).index.graph.portsOn intakePath = [⟨0⟩, ⟨1⟩] := by
  decide

/-- With the inner reactor in a federate of its own, the connection is covered. -/
theorem portPath_covered_intake : ∃ (index : Index) (setting : BoundarySetting)
    (result : BoundaryResult), Index.build Program.intake = .ok index ∧
      index.graph.cycles.isAcyclic ∧ setting.index = index ∧
      setting.partition.problems index = [] ∧ setting.classify = .ok result ∧
      index.graph.LeadsTo ⟨0⟩ ⟨1⟩ Program.intakePath ∧
      ∃ edge ∈ Program.intakePath, result.report.Covers edge := by
  have valid : (Partition.single.assignReactor ⟨2⟩ "inner").1.problems
      (Index.survey Program.intake).index = [] := by decide +kernel
  obtain ⟨table, setting, result, -, rfl, classified, covered⟩ :=
    portPath_covered_iff Program.build_intake Program.isAcyclic_intake valid {}
  refine ⟨_, _, result, Program.build_intake, Program.isAcyclic_intake, rfl, valid, classified,
    Program.leadsTo_intake, ?_⟩
  refine (covered _ _ _ Program.leadsTo_intake ?_).1.mpr ?_
  · intro same
    cases same
  · rintro ⟨federate, same⟩
    rw [Program.portsOn_intakePath] at same
    have outer := same ⟨0⟩ (by decide)
    have inner := same ⟨1⟩ (by decide)
    cases outer.trans inner.symm

/-- With the composite reactor as a federate of its own, the main reactor writes into another
federate, and no connection is covered. -/
theorem not_covered_intake : ∃ (index : Index) (table : PriorityTable) (setting : BoundarySetting)
    (result : BoundaryResult), Index.build Program.intake = .ok index ∧
      index.graph.cycles.isAcyclic ∧ index.graph.priorities = .ok table ∧
      setting = ⟨index, index.graph, table, (Partition.single.assignReactor ⟨1⟩ "outer").1, {}⟩ ∧
      setting.partition.problems index = [] ∧ setting.classify = .ok result ∧
      index.graph.LeadsTo ⟨0⟩ ⟨1⟩ Program.intakePath ∧
      setting.federateOfReaction ⟨0⟩ ≠ setting.federateOfReaction ⟨1⟩ ∧
      ¬ ∃ edge ∈ Program.intakePath, result.report.Covers edge := by
  have described := (Index.build_eq_ok_iff _ _).mp Program.build_intake
  have wellFormed := described.graph_wellFormed
  obtain ⟨table, assigned⟩ := wellFormed.exists_priorities_iff.mpr
    (wellFormed.isAcyclic_cycles_iff.mp Program.isAcyclic_intake)
  let setting : BoundarySetting := ⟨(Index.survey Program.intake).index,
    (Index.survey Program.intake).index.graph, table,
    (Partition.single.assignReactor ⟨1⟩ "outer").1, {}⟩
  have fits : setting.Fits Program.intake := ⟨described, rfl⟩
  have valid : (Partition.single.assignReactor ⟨1⟩ "outer").1.problems
      (Index.survey Program.intake).index = [] := by decide +kernel
  have classified := setting.classify_eq_ok_iff.mpr ⟨valid, rfl⟩
  have differ : setting.federateOfReaction ⟨0⟩ ≠ setting.federateOfReaction ⟨1⟩ := by
    intro same
    cases same
  refine ⟨_, table, setting, _, Program.build_intake, Program.isAcyclic_intake, assigned, rfl, valid,
    classified, Program.leadsTo_intake, differ, ?_⟩
  rw [fits.covered_iff_not_staysWithin classified Program.leadsTo_intake differ, not_not,
    BoundarySetting.StaysWithin, Program.portsOn_intakePath]
  refine ⟨⟨1⟩, ?_⟩
  simp only [List.forall_mem_cons]
  exact ⟨rfl, rfl, List.forall_mem_nil _⟩

end ReactorCausality
