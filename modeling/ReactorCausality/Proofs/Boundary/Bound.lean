import ReactorCausality.Proofs.Boundary.Placing
import ReactorCausality.Proofs.Boundary.Timing

/-!
Waits without a finite bound. A receiver waits without any bound if nothing is known that could bound
the wait (`Fits.bound_eq_none_iff`), and such a wait is always reported. It waits for `forever` if that
is what the network takes or what the offsets say (`Fits.bound_eq_forever_iff`); a wait like that
counts as bounded, and nothing is reported about it.
-/
namespace ReactorCausality

def Program.DeclaresOffset (program : Program) (id : ReactionId) (offset : TimeValue) : Prop :=
  ∃ reaction ∈ program.reactions, reaction.id = id ∧ reaction.safeToProcess = some offset

namespace BoundarySetting

/-- A reaction that waits behind the edge declares the offset. -/
def OffsetBehind (setting : BoundarySetting) (program : Program) (edge : BoundaryEdge)
    (offset : TimeValue) : Prop :=
  ∃ id, setting.ReadsBehind program edge id ∧ program.DeclaresOffset id offset

/-- One of the durations that bound the wait behind the edge never ends. The default offset is among
them where no reaction declares one. -/
def EndlessBehind (setting : BoundarySetting) (program : Program) (edge : BoundaryEdge) : Prop :=
  setting.policy.networkLatency = some .forever ∨ setting.OffsetBehind program edge .forever ∨
    (∀ offset, ¬ setting.OffsetBehind program edge offset) ∧
      setting.policy.defaultOffset = some .forever

end BoundarySetting

/-- What is reported about waits without a finite bound, and where they come from. -/
structure BoundaryResult.ReportsUnbounded (result : BoundaryResult) (setting : BoundarySetting)
    (program : Program) : Prop where
  unbounded : ∀ edge ∈ result.report.edges, edge.bound = none ↔
    setting.policy.networkLatency = none ∧ setting.policy.defaultOffset = none ∧
      ∀ offset, ¬ setting.OffsetBehind program edge offset
  failed : ∀ edge ∈ result.report.edges,
    edge.Unsettled result.report.edges setting.policy.coordination →
    edge.connection ∈ result.report.unresolved ∧ result.Reports edge .error .e0200
  warned : ∀ edge ∈ result.report.edges, edge.bound = none →
    ¬ edge.Unsettled result.report.edges setting.policy.coordination →
    result.Reports edge .warning .w0200
  bounded : setting.policy.coordination = .decentralized →
    Diagnostic.anyError result.diagnostics = false →
    ∀ edge ∈ result.report.edges, edge.isZeroDelay →
      ∃ bound, edge.bound = some bound ∧ (bound = .forever ↔ setting.EndlessBehind program edge)
  endless : ∀ edge ∈ result.report.edges, edge.bound = some .forever ↔
    setting.EndlessBehind program edge ∧ (edge.isPhysical ∨ edge.delay ≠ some .forever)
  /-- A wait that never ends counts as bounded. -/
  silent : ∀ edge ∈ result.report.edges, edge.bound = some .forever →
    edge.connection ∉ result.report.unresolved ∧
      ∀ diagnostic ∈ result.diagnostics, diagnostic.involved ≠ edge.involved

namespace BoundarySetting

variable {setting : BoundarySetting} {program : Program} {edge : BoundaryEdge}

theorem longer_eq_none_iff {left right : Option TimeValue} :
    longer left right = none ↔ left = none ∧ right = none := by
  cases left <;> cases right <;> simp [longer]

theorem longer_eq_forever_iff {left right : Option TimeValue} :
    longer left right = some .forever ↔ left = some .forever ∨ right = some .forever := by
  cases left <;> cases right <;> simp [longer, TimeValue.max_eq_forever_iff]

theorem verdict?_of_forever (endless : edge.bound = some .forever) : setting.verdict? edge = none := by
  have notZero : TimeValue.forever.isZero = false := by decide
  simp [verdict?, finding?, endless, notZero]

namespace Fits

variable (fits : setting.Fits program)
include fits

theorem mem_declaredOffsets_iff {offset : TimeValue} :
    offset ∈ setting.declaredOffsets edge.target edge.receiver ↔
      setting.OffsetBehind program edge offset := by
  have declares (id : ReactionId) : ((setting.index.reaction? id).bind fun entry =>
      entry.reaction.safeToProcess) = some offset ↔ program.DeclaresOffset id offset := by
    constructor
    · intro found
      obtain ⟨entry, isEntry, declares⟩ := Option.bind_eq_some_iff.mp found
      refine ⟨entry.reaction, ?_, by simpa using List.find?_some isEntry, declares⟩
      exact fits.described.map_reactions ▸ List.mem_map_of_mem (List.mem_of_find?_eq_some isEntry)
    · rintro ⟨reaction, declared, rfl, declares⟩
      obtain ⟨entry, listed, rfl⟩ := List.mem_map.mp (fits.described.map_reactions ▸ declared)
      rw [fits.described.distinct.reaction?_of_mem listed, Option.bind_some, declares]
  rw [declaredOffsets, List.mem_filterMap, OffsetBehind]
  simp only [fits.mem_guardedReaders_iff, declares]

theorem declaredOffsets_eq_nil_iff : setting.declaredOffsets edge.target edge.receiver = [] ↔
    ∀ offset, ¬ setting.OffsetBehind program edge offset := by
  simp only [List.eq_nil_iff_forall_not_mem, fits.mem_declaredOffsets_iff]

variable (member : edge ∈ setting.edges)
include member

theorem bound_eq : edge.bound =
    (longer setting.policy.networkLatency
      ((setting.declaredOffsets edge.target edge.receiver).max?.or
        setting.policy.defaultOffset)).map fun base =>
      if edge.isPhysical then base else base.sub (edge.delay.getD .zero) := by
  obtain ⟨connection, -, -, rfl⟩ := fits.mem_edges_iff.mp member
  rfl

/-- The wait is unbounded exactly if nothing is known that could bound it. -/
theorem bound_eq_none_iff : edge.bound = none ↔ setting.policy.networkLatency = none ∧
    setting.policy.defaultOffset = none ∧
      ∀ offset, ¬ setting.OffsetBehind program edge offset := by
  rw [fits.bound_eq member, Option.map_eq_none_iff, longer_eq_none_iff, Option.or_eq_none_iff,
    List.max?_eq_none_iff, fits.declaredOffsets_eq_nil_iff]
  exact and_congr_right fun _ => and_comm

theorem bound_eq_forever_iff : edge.bound = some .forever ↔
    setting.EndlessBehind program edge ∧ (edge.isPhysical ∨ edge.delay ≠ some .forever) := by
  have endless : longer setting.policy.networkLatency
      ((setting.declaredOffsets edge.target edge.receiver).max?.or setting.policy.defaultOffset) =
        some .forever ↔ setting.EndlessBehind program edge := by
    rw [longer_eq_forever_iff, Option.or_eq_some_iff, TimeValue.max?_eq_forever_iff,
      fits.mem_declaredOffsets_iff, List.max?_eq_none_iff, fits.declaredOffsets_eq_nil_iff,
      EndlessBehind]
  have delayed : edge.delay.getD .zero ≠ .forever ↔ edge.delay ≠ some .forever := by
    cases edge.delay with
    | none => decide
    | some delay => simp
  rw [← endless, fits.bound_eq member, Option.map_eq_some_iff]
  cases edge.isPhysical with
  | true => simp
  | false => simp [TimeValue.sub_eq_forever_iff, delayed]

omit member in
theorem reportsUnbounded_result (built : setting.partition.Built) :
    setting.result.ReportsUnbounded setting program where
  unbounded edge member := fits.bound_eq_none_iff member
  failed edge member unsettled := by
    have found := isSome_unbounded?_iff.mpr
      ((fits.exists_unresolvable_iff built member).mpr unsettled)
    exact ⟨(fits.mem_unresolved_iff member).mpr found, (fits.reports_error_iff member).mpr found⟩
  warned edge member isUnbounded settled := by
    rw [fits.reports_warning_iff member, exists_warning?_iff]
    exact .inl ⟨(fits.verdict?_eq_arbitrated_iff built member).mpr ⟨isUnbounded, settled⟩, rfl⟩
  bounded decentralized noError edge member zeroDelay := by
    obtain ⟨logical, immediate⟩ : edge.isPhysical = false ∧ edge.delay = none := by
      simpa [BoundaryEdge.isZeroDelay] using zeroDelay
    cases bound : edge.bound with
    | none =>
      -- without a bound, the edge would be an error
      have found := isSome_unbounded?_iff.mpr ((fits.exists_unresolvable_iff built member).mpr
        ⟨logical, immediate, bound, .inl decentralized⟩)
      have unresolved := List.ne_nil_of_mem ((fits.mem_unresolved_iff member).mpr found)
      simp [anyError_diagnostics_iff.mpr unresolved] at noError
    | some value =>
      refine ⟨value, rfl, ?_⟩
      simpa [bound, logical, immediate] using fits.bound_eq_forever_iff member
  endless edge member := fits.bound_eq_forever_iff member
  silent edge member isEndless := by
    have verdict : setting.verdict? edge = none := verdict?_of_forever isEndless
    refine ⟨fun unresolved => ?_, fun diagnostic listed same => ?_⟩
    · obtain ⟨reason, unsettled⟩ :=
        isSome_unbounded?_iff.mp ((fits.mem_unresolved_iff member).mp unresolved)
      simp [verdict] at unsettled
    · have found := (fits.mem_diagnostics_iff member).mp ⟨listed, same⟩
      simp [warning?, unbounded?, verdict] at found

end Fits

end BoundarySetting

/-- A wait without any bound is always reported: as an error if nobody can settle it, and otherwise with
a warning. So if there is no error under decentralized coordination, every zero-delay edge has a bound.
It is `forever` where one of the durations that it is computed from is, and then nothing is
reported. -/
theorem unbounded_waits_reported {program : Program} {index : Index} {partition : Partition}
    (accepted : Index.build program = .ok index) (acyclic : index.graph.cycles.isAcyclic)
    (built : partition.Built) (valid : partition.problems index = []) (policy : Policy) :
    ∃ table, index.graph.priorities = .ok table ∧
      let setting : BoundarySetting := ⟨index, index.graph, table, partition, policy⟩
      ∃ result, setting.classify = .ok result ∧ result.ReportsUnbounded setting program := by
  obtain ⟨table, assigned, -, fits, classified⟩ :=
    BoundarySetting.exists_classified accepted acyclic valid policy
  exact ⟨table, assigned, _, classified, fits.reportsUnbounded_result built⟩

theorem unbounded_waits_reported_exchange : ∃ (index : Index) (table : PriorityTable)
    (result : BoundaryResult) (edge : BoundaryEdge), Index.build Program.exchange = .ok index ∧
      index.graph.cycles.isAcyclic ∧ Partition.sides.Built ∧ Partition.sides.problems index = [] ∧
      index.graph.priorities = .ok table ∧
      BoundarySetting.classify ⟨index, index.graph, table, .sides, ⟨.decentralized, none, none⟩⟩ =
        .ok result ∧
      edge ∈ result.report.edges ∧ edge.bound = none ∧
      edge.connection ∈ result.report.unresolved ∧ result.Reports edge .error .e0200 := by
  obtain ⟨table, assigned, result, classified, reported⟩ :=
    unbounded_waits_reported Program.build_exchange Program.isAcyclic_exchange
      Partition.built_sides Partition.problems_sides ⟨.decentralized, none, none⟩
  obtain ⟨rfl, rfl⟩ := BoundarySetting.eq_exchange assigned classified
  have member : (BoundarySetting.exchange ⟨.decentralized, none, none⟩).crossing
      { id := ⟨0⟩, source := ⟨0⟩, target := ⟨2⟩ } ∈
        (BoundarySetting.exchange ⟨.decentralized, none, none⟩).edges :=
    BoundarySetting.mem_edges_exchange (by decide) (by decide +kernel)
  obtain ⟨unresolved, error⟩ := reported.failed _ member ⟨rfl, rfl, by decide +kernel, .inl rfl⟩
  exact ⟨_, _, _, _, Program.build_exchange, Program.isAcyclic_exchange, Partition.built_sides,
    Partition.problems_sides, assigned, classified, member, by decide +kernel, unresolved, error⟩

/-- Where the network takes `forever`, nothing is reported about a zero-delay wait, not even under
decentralized coordination. -/
theorem endless_wait_unreported_exchange : ∃ (index : Index) (table : PriorityTable)
    (result : BoundaryResult) (edge : BoundaryEdge), Index.build Program.exchange = .ok index ∧
      index.graph.cycles.isAcyclic ∧ Partition.sides.Built ∧ Partition.sides.problems index = [] ∧
      index.graph.priorities = .ok table ∧
      BoundarySetting.classify
        ⟨index, index.graph, table, .sides, ⟨.decentralized, some .forever, none⟩⟩ = .ok result ∧
      edge ∈ result.report.edges ∧ edge.isZeroDelay ∧ edge.bound = some .forever ∧
      edge.connection ∉ result.report.unresolved ∧ ¬ result.Reports edge .error .e0200 ∧
      ¬ result.Reports edge .warning .w0200 := by
  let setting := BoundarySetting.exchange ⟨.decentralized, some .forever, none⟩
  let connection : Connection := { id := ⟨0⟩, source := ⟨0⟩, target := ⟨2⟩ }
  have member : setting.crossing connection ∈ setting.edges :=
    BoundarySetting.mem_edges_exchange (by decide) (by decide +kernel)
  have endless : (setting.crossing connection).bound = some .forever := by decide +kernel
  obtain ⟨settled, silent⟩ := ((BoundarySetting.fits_exchange _).reportsUnbounded_result
    Partition.built_sides).silent _ member endless
  refine ⟨_, _, setting.result, _, Program.build_exchange, Program.isAcyclic_exchange,
    Partition.built_sides, Partition.problems_sides, Program.priorities_exchange,
    BoundarySetting.classify_exchange _, member, rfl, endless, settled, ?_, ?_⟩
  · rintro ⟨diagnostic, listed, -, -, same⟩
    exact silent diagnostic listed same
  · rintro ⟨diagnostic, listed, -, -, same⟩
    exact silent diagnostic listed same

end ReactorCausality
