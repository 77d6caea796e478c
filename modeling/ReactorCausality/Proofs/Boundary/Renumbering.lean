import ReactorCausality.Proofs.Boundary.Circles
import ReactorCausality.Proofs.Boundary.Placing
import ReactorCausality.Proofs.Federation.Renumbering
import ReactorCausality.Rendering.Artifacts

/-!
The classification of boundaries under partitions that number their federates differently. Edges, bounds,
placements and findings stay as they are, but for the numbers (`classify_under`), and what is given
out under names is the same text (`Naming.render_renumber`). So assignments can be made in any order
(`assignments_commute`).

Circles are searched by the numbers of federates. Whether an edge is inside a circle is a matter of the
ways along edges, though, and these lead on however the federates are numbered.
-/
namespace ReactorCausality

open Relation

variable (change : FederateId → FederateId)

/-! ### Renumbering what is reported -/

def BoundaryEdge.renumber (edge : BoundaryEdge) : BoundaryEdge :=
  { edge with
    sender := change edge.sender
    receiver := change edge.receiver }

def ControlReaction.renumber (control : ControlReaction) : ControlReaction :=
  { control with federate := change control.federate }

def BoundaryReport.renumber (report : BoundaryReport) : BoundaryReport :=
  { report with
    edges := report.edges.map (BoundaryEdge.renumber change)
    controls := report.controls.map (ControlReaction.renumber change) }

/-- Diagnostics call federates by their names, so they stay. -/
def BoundaryResult.renumber (result : BoundaryResult) : BoundaryResult :=
  { result with report := result.report.renumber change }

/-! ### Ways between federates -/

namespace BoundaryEdge

variable {change} {edges : List BoundaryEdge} {sender receiver : FederateId}

theorem SendsTo.renumber (sends : SendsTo edges sender receiver) :
    SendsTo (edges.map (BoundaryEdge.renumber change)) (change sender) (change receiver) := by
  obtain ⟨edge, member, zeroDelay, rfl, rfl⟩ := sends
  exact ⟨_, List.mem_map_of_mem member, zeroDelay, rfl, rfl⟩

section Injective

variable (injective : Function.Injective change)
include injective

theorem SendsTo.of_renumber {target : FederateId}
    (sends : SendsTo (edges.map (BoundaryEdge.renumber change)) (change sender) target) :
    ∃ receiver, change receiver = target ∧ SendsTo edges sender receiver := by
  obtain ⟨_, mapped, zeroDelay, sends, rfl⟩ := sends
  obtain ⟨edge, member, rfl⟩ := List.mem_map.mp mapped
  exact ⟨edge.receiver, rfl, edge, member, zeroDelay, injective sends, rfl⟩

/-- Every way along renumbered edges is a way along the edges themselves. -/
theorem reaches_renumber_iff :
    ReflTransGen (SendsTo (edges.map (BoundaryEdge.renumber change))) (change sender)
        (change receiver) ↔
      ReflTransGen (SendsTo edges) sender receiver := by
  refine ⟨fun reaches => ?_, fun reaches => reaches.lift change fun _ _ => SendsTo.renumber⟩
  -- wherever a way leads that begins at a renumbered federate, there is another renumbered one
  have visits : ∀ target, ReflTransGen (SendsTo (edges.map (BoundaryEdge.renumber change)))
      (change sender) target →
        ∃ receiver, change receiver = target ∧ ReflTransGen (SendsTo edges) sender receiver := by
    intro target reaches
    induction reaches with
    | refl => exact ⟨sender, rfl, .refl⟩
    | tail _ sends ih =>
      obtain ⟨through, rfl, reaches⟩ := ih
      obtain ⟨receiver, same, sends⟩ := sends.of_renumber injective
      exact ⟨receiver, same, reaches.tail sends⟩
  obtain ⟨other, same, reaches⟩ := visits _ reaches
  rwa [injective same] at reaches

end Injective

end BoundaryEdge

namespace BoundarySetting

/-- The setting with another partition. -/
def under (setting : BoundarySetting) (other : Partition) : BoundarySetting :=
  { setting with partition := other }

theorem Fits.under {setting : BoundarySetting} {program : Program} (fits : setting.Fits program)
    (other : Partition) : (setting.under other).Fits program :=
  ⟨fits.described, fits.graph_eq⟩

variable {change} {setting : BoundarySetting} {other : Partition}

@[simp]
theorem index_under : (setting.under other).index = setting.index :=
  rfl

@[simp]
theorem partition_under : (setting.under other).partition = other :=
  rfl

theorem first?_under (reactions : List ReactionId) :
    (setting.under other).first? reactions = setting.first? reactions := by
  induction reactions with
  | nil => rfl
  | cons reaction rest ih =>
    rw [first?, first?, ih]
    rfl

theorem last?_under (reactions : List ReactionId) :
    (setting.under other).last? reactions = setting.last? reactions := by
  induction reactions with
  | nil => rfl
  | cons reaction rest ih =>
    rw [last?, last?, ih]
    rfl

section Renumbers

variable (renumbers : setting.partition.Renumbers other change)
include renumbers

/-! ### Edges and control reactions -/

theorem federateOfPort_under (port : PortId) :
    (setting.under other).federateOfPort port = change (setting.federateOfPort port) := by
  rw [federateOfPort, federateOfPort, index_under, partition_under]
  cases setting.index.portOwner? port with
  | none => exact renumbers.unassigned.symm
  | some owner => exact renumbers.federateOf_eq setting.index owner

theorem federateOfReaction_under (reaction : ReactionId) :
    (setting.under other).federateOfReaction reaction =
      change (setting.federateOfReaction reaction) := by
  rw [federateOfReaction, federateOfReaction, index_under, partition_under]
  cases setting.index.reactionOwner? reaction with
  | none => exact renumbers.unassigned.symm
  | some owner => exact renumbers.federateOf_eq setting.index owner

/-- The reactions of a federate stay together. -/
theorem within_under (federate : FederateId) (reactions : List ReactionId) :
    (setting.under other).within (change federate) reactions =
      setting.within federate reactions := by
  simp only [within, federateOfReaction_under renumbers, renumbers.injective.eq_iff]

theorem guardedReaders_under (port : PortId) (federate : FederateId) :
    (setting.under other).guardedReaders port (change federate) =
      setting.guardedReaders port federate :=
  within_under renumbers federate _

theorem feedingWriters_under (port : PortId) (federate : FederateId) :
    (setting.under other).feedingWriters port (change federate) =
      setting.feedingWriters port federate :=
  within_under renumbers federate _

theorem receiverBound_under (connection : Connection) (receiver : FederateId) :
    (setting.under other).receiverBound connection (change receiver) =
      setting.receiverBound connection receiver := by
  rw [receiverBound, receiverBound, declaredOffsets, guardedReaders_under renumbers]
  rfl

theorem edge?_under (connection : Connection) :
    (setting.under other).edge? connection =
      (setting.edge? connection).map (BoundaryEdge.renumber change) := by
  have crosses : decide (change (setting.federateOfPort connection.source) ≠
        change (setting.federateOfPort connection.target)) =
      decide (setting.federateOfPort connection.source ≠
        setting.federateOfPort connection.target) :=
    decide_eq_decide.mpr renumbers.injective.ne_iff
  simp only [edge?, federateOfPort_under renumbers, receiverBound_under renumbers, crosses]
  rw [apply_ite (Option.map (BoundaryEdge.renumber change))]
  rfl

theorem edges_under :
    (setting.under other).edges = setting.edges.map (BoundaryEdge.renumber change) := by
  rw [edges, edges, List.map_filterMap]
  congr 1
  funext entry
  exact edge?_under renumbers entry.connection

theorem senderControl_under (edge : BoundaryEdge) :
    (setting.under other).senderControl (edge.renumber change) =
      (setting.senderControl edge).renumber change := by
  simp only [senderControl, last?_under, BoundaryEdge.renumber, feedingWriters_under renumbers]
  rfl

theorem receiverControl_under (edge : BoundaryEdge) :
    (setting.under other).receiverControl (edge.renumber change) =
      (setting.receiverControl edge).renumber change := by
  simp only [receiverControl, first?_under, BoundaryEdge.renumber, guardedReaders_under renumbers]
  rfl

theorem controls_under (edge : BoundaryEdge) :
    (setting.under other).controls (edge.renumber change) =
      (setting.controls edge).map (ControlReaction.renumber change) := by
  rw [controls, controls, senderControl_under renumbers, receiverControl_under renumbers]
  rfl

/-! ### Findings -/

/-- Findings call federates by their names. -/
theorem finding?_under {circular others : List ConnectionId} {edge : BoundaryEdge}
    (same : edge.connection ∈ others ↔ edge.connection ∈ circular) :
    (setting.under other).finding? others (edge.renumber change) =
      setting.finding? circular edge := by
  have contains : others.contains (edge.renumber change).connection =
      circular.contains edge.connection := by
    rw [Bool.eq_iff_iff, List.contains_iff_mem, List.contains_iff_mem]
    exact same
  rw [finding?, finding?, contains]
  simp only [partition_under, BoundaryEdge.renumber, renumbers.named]
  rfl

variable {program : Program} (fits : setting.Fits program) (built : setting.partition.Built)
  (builtToo : other.Built)
include fits built builtToo

/-- The same edges are inside circles. -/
theorem mem_circularEdges_under {edge : BoundaryEdge} (member : edge ∈ setting.edges) :
    edge.connection ∈ (setting.under other).circularEdges (setting.under other).edges ↔
      edge.connection ∈ setting.circularEdges setting.edges := by
  have mapped : edge.renumber change ∈ (setting.under other).edges :=
    edges_under renumbers ▸ List.mem_map_of_mem member
  -- the components are numbered differently, so both sides are taken back to ways along edges
  rw [fits.mem_circularEdges_edges_iff built member]
  refine ((fits.under other).mem_circularEdges_edges_iff builtToo mapped).trans ?_
  rw [edges_under renumbers]
  exact and_congr_right fun _ => BoundaryEdge.reaches_renumber_iff renumbers.injective

theorem findings_under :
    (setting.under other).findings (setting.under other).edges =
      (setting.findings setting.edges).map fun (edge, finding) => (edge.renumber change, finding) := by
  have found : ∀ edge ∈ setting.edges,
      (setting.under other).finding?
          ((setting.under other).circularEdges (setting.under other).edges) (edge.renumber change) =
        setting.finding? (setting.circularEdges setting.edges) edge := fun edge member =>
    finding?_under renumbers (mem_circularEdges_under renumbers fits built builtToo member)
  rw [findings, findings, List.map_filterMap]
  conv_lhs => rw [edges_under renumbers, List.filterMap_map]
  refine List.filterMap_congr fun edge member => ?_
  rw [Function.comp_apply, ← edges_under renumbers, found edge member, Option.map_map]
  rfl

theorem result_under : (setting.under other).result = setting.result.renumber change := by
  have reported {α : Type} (report : BoundaryEdge → TimingFinding → Option α)
      (same : ∀ edge finding, report (edge.renumber change) finding = report edge finding) :
      ((setting.under other).findings (setting.under other).edges).filterMap
          (fun (edge, finding) => report edge finding) =
        (setting.findings setting.edges).filterMap fun (edge, finding) => report edge finding := by
    rw [findings_under renumbers fits built builtToo, List.filterMap_map]
    exact List.filterMap_congr fun (edge, finding) _ => same edge finding
  have unbounded := reported (fun edge finding => finding.unbounded? edge)
    fun edge finding => by cases finding <;> rfl
  have warnings := reported (fun edge finding => finding.warning? edge)
    fun edge finding => by cases finding <;> rfl
  have controls : (setting.under other).edges.flatMap (setting.under other).controls =
      (setting.edges.flatMap setting.controls).map (ControlReaction.renumber change) := by
    simp only [edges_under renumbers, List.flatMap_map, List.map_flatMap, controls_under renumbers]
  simp only [result, controls, unbounded, warnings]
  rw [edges_under renumbers]
  rfl

/-- A classification differs by the numbers of federates only; where the one partition is refused, so is
the other, with the same problems. -/
theorem classify_under :
    (setting.under other).classify = setting.classify.map (BoundaryResult.renumber change) := by
  rw [classify, classify, index_under, partition_under, renumbers.problems_eq,
    renumbers.isFederated_eq]
  split
  · split
    · rw [result_under renumbers fits built builtToo]
      rfl
    · rfl
  · rfl

end Renumbers

end BoundarySetting

/-! ### Rendering -/

section Rendering

variable {change} {index : Index} {left right : Partition}
  (named : ∀ id, right.federateName (change id) = left.federateName id)
include named

theorem Naming.controlLine_renumber (control : ControlReaction) :
    (mk index right).controlLine (control.renumber change) = (mk index left).controlLine control := by
  simp only [controlLine, ControlReaction.renumber, named]
  rfl

theorem Naming.controlJson_renumber (control : ControlReaction) :
    (mk index right).controlJson (control.renumber change) = (mk index left).controlJson control := by
  simp only [controlJson, ControlReaction.renumber, named]
  rfl

/-- Control reactions are given out under the names of their federates. -/
theorem Naming.render_renumber (target : Target) (table : Option PriorityTable)
    (controls : List ControlReaction) :
    (mk index right).render target table (controls.map (ControlReaction.renumber change)) =
      (mk index left).render target table controls := by
  cases target with
  | text =>
    cases controls with
    | nil => rfl
    | cons control rest =>
      simp only [render, listing, List.map_cons, List.map_map, Function.comp_def,
        controlLine_renumber named]
      rfl
  | json =>
    simp only [render, document, Json.ofList, List.map_map, Function.comp_def,
      controlJson_renumber named]
    rfl

end Rendering

/-- Where nothing is assigned twice, assignments can be made in any order: every reactor belongs to a
federate with the same name, the same assignments are refused, boundaries are classified in the same way
but for the numbers of federates, and what is given out is the same text. -/
theorem assignments_commute {program : Program} {index : Index}
    (accepted : Index.build program = .ok index) (acyclic : index.graph.cycles.isAcyclic)
    (policy : Policy) {assignments others : List Assignment}
    (distinct : (assignments.map Assignment.subject).Nodup) (perm : assignments.Perm others) :
    let left := Partition.ofAssignments assignments
    let right := Partition.ofAssignments others
    (∀ reactor, right.federateName (right.federateOf index reactor) =
      left.federateName (left.federateOf index reactor)) ∧
    right.isFederated index = left.isFederated index ∧
    right.problems index = left.problems index ∧
    ∃ table, index.graph.priorities = .ok table ∧
      let before := BoundarySetting.classify ⟨index, index.graph, table, left, policy⟩
      let after := BoundarySetting.classify ⟨index, index.graph, table, right, policy⟩
      (∃ change : FederateId → FederateId, Function.Injective change ∧
        (∀ id, right.federateName (change id) = left.federateName id) ∧
        after = before.map (BoundaryResult.renumber change)) ∧
      ∀ target shown,
        (after.map fun result =>
          (Naming.mk index right).render target shown result.report.controls) =
        before.map fun result =>
          (Naming.mk index left).render target shown result.report.controls := by
  intro left right
  obtain ⟨change, renumbers⟩ := Partition.exists_renumbers distinct perm
  have described := (Index.build_eq_ok_iff program index).mp accepted
  have wellFormed := described.graph_wellFormed
  obtain ⟨table, assigned⟩ :=
    wellFormed.exists_priorities_iff.mpr (wellFormed.isAcyclic_cycles_iff.mp acyclic)
  refine ⟨renumbers.federateName_federateOf index, renumbers.isFederated_eq index,
    renumbers.problems_eq index, table, assigned, ?_⟩
  intro before after
  have fits : (BoundarySetting.mk index index.graph table left policy).Fits program :=
    ⟨described, rfl⟩
  have classified : after = before.map (BoundaryResult.renumber change) :=
    BoundarySetting.classify_under renumbers fits
      (Partition.built_ofAssignments assignments) (Partition.built_ofAssignments others)
  refine ⟨⟨change, renumbers.injective, renumbers.named, classified⟩, fun target shown => ?_⟩
  rw [classified]
  cases before with
  | error problems => rfl
  | ok result =>
    exact congrArg Except.ok
      (Naming.render_renumber renumbers.named target shown result.report.controls)

/-- Either reactor is a federate of its own, where the one is assigned by its id. -/
def Assignment.sides : List Assignment :=
  [.reactor ⟨1⟩ "left", .path "main.right" "right"]

theorem assignments_commute_exchange : ∃ (index : Index) (table : PriorityTable)
    (before after : BoundaryResult), Index.build Program.exchange = .ok index ∧
      index.graph.cycles.isAcyclic ∧ (Assignment.sides.map Assignment.subject).Nodup ∧
      Assignment.sides.Perm Assignment.sides.reverse ∧
      let left := Partition.ofAssignments Assignment.sides
      let right := Partition.ofAssignments Assignment.sides.reverse
      left.federateOf index ⟨1⟩ = ⟨1⟩ ∧ right.federateOf index ⟨1⟩ = ⟨2⟩ ∧
      BoundarySetting.classify ⟨index, index.graph, table, left, {}⟩ = .ok before ∧
      BoundarySetting.classify ⟨index, index.graph, table, right, {}⟩ = .ok after ∧
      before.report.controls ≠ [] ∧ ∀ target shown,
        (Naming.mk index right).render target shown after.report.controls =
          (Naming.mk index left).render target shown before.report.controls := by
  have distinct : (Assignment.sides.map Assignment.subject).Nodup := by decide
  have perm : Assignment.sides.Perm Assignment.sides.reverse := (List.reverse_perm _).symm
  obtain ⟨-, -, -, table, assigned, ⟨change, -, -, same⟩, texts⟩ :=
    assignments_commute Program.build_exchange Program.isAcyclic_exchange {} distinct perm
  obtain rfl : table = .exchange := Except.ok.inj (assigned.symm.trans Program.priorities_exchange)
  have sides : Partition.ofAssignments Assignment.sides = .sides := by decide +kernel
  have classified := BoundarySetting.classify_exchange {}
  rw [BoundarySetting.exchange, ← sides] at classified
  rw [classified] at same texts
  rw [same] at texts
  obtain ⟨edge, member, -, -⟩ := BoundarySetting.exists_edge_exchange
  refine ⟨_, .exchange, _, _, Program.build_exchange, Program.isAcyclic_exchange, distinct, perm,
    by decide +kernel, by decide +kernel, classified, same, ?_,
    fun target shown => Except.ok.inj (texts target shown)⟩
  exact List.ne_nil_of_mem (List.mem_flatMap.mpr ⟨edge, member, List.mem_cons_self⟩)

end ReactorCausality
