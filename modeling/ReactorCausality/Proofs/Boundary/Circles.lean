import ReactorCausality.Proofs.Boundary.Report
import ReactorCausality.Proofs.Federation.Partition
import ReactorCausality.Proofs.Search.AllComponents

/-!
Circles of federates that wait for each other. A zero-delay edge is inside a circle exactly if a chain
of zero-delay edges, however long, leads from its receiver back to its sender
(`mem_circularEdges_iff`).
-/
namespace ReactorCausality

open BreadthFirst Relation

namespace Component

variable {count : Nat} {next : Nat → List Nat}

/-- An edge is inside a cyclic component if there is a way back along it. -/
theorem exists_isCyclic_iff {source target : Nat} (less : source < count)
    (leads : Leads next (List.range count) source target) :
    (∃ members ∈ all count next, isCyclic next members ∧ source ∈ members ∧ target ∈ members) ↔
      ReflTransGen (Leads next (List.range count)) target source := by
  simp only [mem_all_iff]
  constructor
  · rintro ⟨members, component, -, isSource, isTarget⟩
    exact ((component.exactly source isSource target).mp isTarget).2.2
  · intro back
    -- the component of the source will do: the way back leads from the target into it
    obtain ⟨members, component, isSource⟩ : ∃ members,
        IsComponent count next members ∧ source ∈ members := exists_isComponent less
    refine ⟨members, component, component.isCyclic_iff.mpr ?_, isSource, ?_⟩
    · exact ⟨source, isSource, .head' leads back⟩
    · exact (component.exactly source isSource target).mpr
        ⟨List.mem_range.mp leads.2, .single leads, back⟩

end Component

/-- One of the edges leads from one federate to another without a delay. -/
def BoundaryEdge.SendsTo (edges : List BoundaryEdge) (sender receiver : FederateId) : Prop :=
  ∃ edge ∈ edges, edge.isZeroDelay ∧ edge.sender = sender ∧ edge.receiver = receiver

namespace BoundarySetting

variable {edges : List BoundaryEdge} {count : Nat}

section Named

variable (named : ∀ edge ∈ edges, edge.sender.number < count ∧ edge.receiver.number < count)
include named

theorem leads_receivers_iff {sender receiver : FederateId} :
    Leads (receivers edges) (List.range count) sender.number receiver.number ↔
      BoundaryEdge.SendsTo edges sender receiver := by
  simp only [Leads, receivers, List.mem_map, List.mem_filter, Bool.and_eq_true, beq_iff_eq,
    List.mem_range]
  constructor
  · rintro ⟨⟨edge, ⟨member, zeroDelay, sends⟩, receives⟩, -⟩
    exact ⟨edge, member, zeroDelay, congrArg FederateId.mk sends, congrArg FederateId.mk receives⟩
  · rintro ⟨edge, member, zeroDelay, rfl, rfl⟩
    exact ⟨⟨edge, ⟨member, zeroDelay, rfl⟩, rfl⟩, (named edge member).2⟩

theorem reaches_receivers_iff {sender receiver : FederateId} :
    ReflTransGen (Leads (receivers edges) (List.range count)) sender.number receiver.number ↔
      ReflTransGen (BoundaryEdge.SendsTo edges) sender receiver := by
  constructor
  · intro reaches
    exact reaches.lift FederateId.mk fun _ _ => (leads_receivers_iff named).mp
  · intro reaches
    exact reaches.lift FederateId.number fun _ _ => (leads_receivers_iff named).mpr

end Named

section InBounds

variable {setting : BoundarySetting} (inBounds : setting.partition.InBounds)
include inBounds

/-- Every port, known or not, belongs to a federate with a name. -/
theorem federateOfPort_lt (port : PortId) :
    (setting.federateOfPort port).number < setting.partition.names.length := by
  rw [federateOfPort]
  split
  · exact inBounds.federateOf_lt setting.index _
  · exact inBounds.named

theorem ends_lt_of_mem_edges {edge : BoundaryEdge} (member : edge ∈ setting.edges) :
    edge.sender.number < setting.partition.names.length ∧
      edge.receiver.number < setting.partition.names.length := by
  obtain ⟨entry, -, isEdge⟩ := List.mem_filterMap.mp member
  obtain ⟨-, made⟩ := Option.ite_none_right_eq_some.mp isEdge
  cases made
  exact ⟨federateOfPort_lt inBounds _, federateOfPort_lt inBounds _⟩

end InBounds

/-- The chain back closes a circle with the edge itself, so it does not matter which circles there
are and how the components are numbered. -/
theorem mem_circularEdges_iff {setting : BoundarySetting}
    (named : ∀ edge ∈ edges, edge.sender.number < setting.partition.names.length ∧
      edge.receiver.number < setting.partition.names.length)
    (distinct : (edges.map BoundaryEdge.connection).Nodup) {edge : BoundaryEdge}
    (member : edge ∈ edges) : edge.connection ∈ setting.circularEdges edges ↔
      edge.isZeroDelay ∧
        ReflTransGen (BoundaryEdge.SendsTo edges) edge.receiver edge.sender := by
  have own : edge.connection ∈ setting.circularEdges edges ↔ edge ∈ edges.filter fun edge =>
      edge.isZeroDelay && ((Component.all setting.partition.names.length (receivers edges)).filter
        (Component.isCyclic (receivers edges))).any fun circle =>
          circle.contains edge.sender.number && circle.contains edge.receiver.number := by
    -- only ids are listed, but no other edge has this one
    refine ⟨fun circular => ?_, List.mem_map_of_mem⟩
    obtain ⟨other, listed, same⟩ := List.mem_map.mp circular
    obtain rfl := List.inj_on_of_nodup_map distinct (List.mem_filter.mp listed).1 member same
    exact listed
  simp only [own, List.mem_filter, member, true_and, Bool.and_eq_true, List.any_eq_true,
    List.contains_iff_mem, and_assoc]
  refine and_congr_right fun zeroDelay => ?_
  rw [← reaches_receivers_iff named]
  refine Component.exists_isCyclic_iff (named edge member).1 ?_
  exact (leads_receivers_iff named).mpr ⟨edge, member, zeroDelay, rfl, rfl⟩

namespace Fits

variable {setting : BoundarySetting} {program : Program} (fits : setting.Fits program)
include fits

theorem mem_circularEdges_edges_iff (built : setting.partition.Built) {edge : BoundaryEdge}
    (member : edge ∈ setting.edges) :
    edge.connection ∈ setting.circularEdges setting.edges ↔ edge.isZeroDelay ∧
      ReflTransGen (BoundaryEdge.SendsTo setting.edges) edge.receiver edge.sender := by
  exact mem_circularEdges_iff (fun other => ends_lt_of_mem_edges built.inBounds)
    fits.nodup_connections member

end Fits

end BoundarySetting

end ReactorCausality
