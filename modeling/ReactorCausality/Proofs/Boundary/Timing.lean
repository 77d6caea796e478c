import ReactorCausality.Proofs.Boundary.Circles
import ReactorCausality.Proofs.Time.Value

/-!
Timing findings are exact. Which edges nobody can settle, and which ones a warning is given for, can be
read off the report: it depends on the delay and the bound of the edge, on the coordination, and on
whether the zero-delay edges lead from its receiver back to its sender (`Fits.timing_result`). No edge
has two findings.
-/
namespace ReactorCausality

open Relation

namespace BoundaryEdge

/-- Nobody can settle how long the receiver waits. -/
structure Unsettled (edge : BoundaryEdge) (edges : List BoundaryEdge) (coordination : Coordination) :
    Prop where
  isLogical : edge.isPhysical = false
  isImmediate : edge.delay = none
  isUnbounded : edge.bound = none
  isOpen : coordination = .decentralized ∨ ReflTransGen (SendsTo edges) edge.receiver edge.sender

theorem unsettled_iff {edge : BoundaryEdge} {edges : List BoundaryEdge}
    {coordination : Coordination} : edge.Unsettled edges coordination ↔
      edge.isZeroDelay ∧ edge.bound = none ∧
        (coordination = .decentralized ∨
          ReflTransGen (SendsTo edges) edge.receiver edge.sender) := by
  simp only [isZeroDelay, Bool.and_eq_true, Bool.not_eq_true', Option.isNone_iff_eq_none, and_assoc]
  exact ⟨fun ⟨isLogical, isImmediate, isUnbounded, isOpen⟩ =>
    ⟨isLogical, isImmediate, isUnbounded, isOpen⟩,
    fun ⟨isLogical, isImmediate, isUnbounded, isOpen⟩ =>
      ⟨isLogical, isImmediate, isUnbounded, isOpen⟩⟩

/-- What a diagnostic about the edge names. -/
def involved (edge : BoundaryEdge) : List Involved :=
  [⟨.connection edge.connection, edge.name⟩]

end BoundaryEdge

/-- A diagnostic of the result is about the edge. -/
def BoundaryResult.Reports (result : BoundaryResult) (edge : BoundaryEdge) (severity : Severity)
    (code : DiagnosticCode) : Prop :=
  ∃ diagnostic ∈ result.diagnostics, diagnostic.severity = severity ∧ diagnostic.code = some code ∧
    diagnostic.involved = edge.involved

/-- What is found about timing can be read off the report. -/
structure BoundaryResult.TimingExact (result : BoundaryResult) (coordination : Coordination) :
    Prop where
  unsettled : ∀ edge ∈ result.report.edges, edge.connection ∈ result.report.unresolved ↔
    edge.Unsettled result.report.edges coordination
  arbitrated : ∀ edge ∈ result.report.edges, result.Reports edge .warning .w0200 ↔
    edge.bound = none ∧ edge.connection ∉ result.report.unresolved
  absorbed : ∀ edge ∈ result.report.edges, result.Reports edge .warning .w0201 ↔
    edge.bound = some .zero ∧ edge.isPhysical = false ∧ edge.delay.isSome
  listed : result.report.unresolved = (result.report.edges.filter fun edge =>
    edge.connection ∈ result.report.unresolved).map BoundaryEdge.connection
  /-- The warnings come first, and both they and the errors follow the order of the edges. -/
  ordered : ∃ warnings errors, result.diagnostics = warnings ++ errors ∧
    (∀ warning ∈ warnings, warning.severity = .warning ∧
      (warning.code = some .w0200 ∨ warning.code = some .w0201)) ∧
    (warnings.map Diagnostic.involved).Sublist (result.report.edges.map BoundaryEdge.involved) ∧
    (∀ error ∈ errors, error.severity = .error ∧ error.code = some .e0200) ∧
    errors.map Diagnostic.involved = (result.report.edges.filter fun edge =>
      edge.connection ∈ result.report.unresolved).map BoundaryEdge.involved
  single : (result.diagnostics.map Diagnostic.involved).Nodup

theorem map_filterMap_eq {α β γ : Type} {found : α → Option β} {name : α → γ} {key : β → γ}
    (named : ∀ item value, found item = some value → key value = name item) (items : List α) :
    (items.filterMap found).map key = (items.filter fun item => (found item).isSome).map name := by
  induction items with
  | nil => rfl
  | cons item rest ih =>
    cases value : found item with
    | none => simp [value, ih]
    | some value' => simp [value, ih, named item value' value]

namespace BoundarySetting

variable {setting : BoundarySetting} {edge : BoundaryEdge}

/-- What is found about an edge among all edges. -/
def verdict? (setting : BoundarySetting) (edge : BoundaryEdge) : Option TimingFinding :=
  setting.finding? (setting.circularEdges setting.edges) edge

def warning? (setting : BoundarySetting) (edge : BoundaryEdge) : Option Diagnostic :=
  (setting.verdict? edge).bind (TimingFinding.warning? edge)

def unbounded? (setting : BoundarySetting) (edge : BoundaryEdge) : Option UnboundedEdge :=
  (setting.verdict? edge).bind (TimingFinding.unbounded? edge)

theorem unresolved_eq : setting.result.report.unresolved =
    (setting.edges.filterMap setting.unbounded?).map UnboundedEdge.connection := by
  simp only [result, findings, List.filterMap_filterMap]
  congr 2
  funext edge
  rw [unbounded?, verdict?, Option.bind_map]
  rfl

theorem diagnostics_eq : setting.result.diagnostics = setting.edges.filterMap setting.warning? ++
    (setting.edges.filterMap setting.unbounded?).map UnboundedEdge.diagnostic := by
  simp only [result, findings, List.filterMap_filterMap, AnalysisError.diagnostics]
  congr 2
  · funext edge
    rw [warning?, verdict?, Option.bind_map]
    rfl
  · congr 1
    funext edge
    rw [unbounded?, verdict?, Option.bind_map]
    rfl

theorem unbounded?_eq_some_iff {unbounded : UnboundedEdge} :
    setting.unbounded? edge = some unbounded ↔ ∃ reason,
      setting.verdict? edge = some (.unresolvable reason) ∧
        unbounded = ⟨edge.connection, edge.name, reason.message⟩ := by
  rw [unbounded?]
  cases setting.verdict? edge with
  | none => simp
  | some finding => cases finding <;> simp [TimingFinding.unbounded?, eq_comm]

theorem verdict?_eq_absorbed_iff : setting.verdict? edge = some .absorbed ↔
    edge.bound = some .zero ∧ edge.isPhysical = false ∧ edge.delay.isSome := by
  rw [verdict?, finding?]
  cases bound : edge.bound with
  | none => split_ifs <;> simp
  | some bound =>
    rw [Option.some.injEq, ← TimeValue.isZero_iff]
    cases physical : edge.isPhysical <;> cases delay : edge.delay <;>
      simp [BoundaryEdge.isZeroDelay, physical, delay]

namespace Fits

variable {program : Program} (fits : setting.Fits program) (built : setting.partition.Built)
  (member : edge ∈ setting.edges)
include fits built member

theorem exists_unresolvable_iff : (∃ reason, setting.verdict? edge = some (.unresolvable reason)) ↔
    edge.Unsettled setting.edges setting.policy.coordination := by
  have circular := fits.mem_circularEdges_edges_iff built member
  rw [BoundaryEdge.unsettled_iff, verdict?, finding?]
  cases bound : edge.bound with
  | some bound => split <;> simp_all
  | none =>
    -- a circle only makes a difference to the reason where coordination is decentralized
    by_cases zeroDelay : edge.isZeroDelay
    · by_cases back : ReflTransGen (BoundaryEdge.SendsTo setting.edges) edge.receiver edge.sender
      · simp [circular, zeroDelay, back]
      · by_cases decentralized : setting.policy.coordination = .decentralized <;>
          simp [circular, zeroDelay, back, decentralized]
    · simp [zeroDelay]

theorem verdict?_eq_arbitrated_iff : setting.verdict? edge = some .arbitrated ↔
    edge.bound = none ∧ ¬ edge.Unsettled setting.edges setting.policy.coordination := by
  rw [← fits.exists_unresolvable_iff built member, verdict?, finding?]
  cases bound : edge.bound with
  | some bound =>
    dsimp only
    split <;> simp
  | none => split_ifs <;> simp

end Fits

/-! ### What is reported -/

theorem of_warning? {diagnostic : Diagnostic} (found : setting.warning? edge = some diagnostic) :
    diagnostic.severity = .warning ∧
      (diagnostic.code = some .w0200 ∨ diagnostic.code = some .w0201) ∧
      diagnostic.involved = edge.involved := by
  obtain ⟨finding, -, warns⟩ := Option.bind_eq_some_iff.mp found
  cases finding with
  | unresolvable reason => cases warns
  | arbitrated => cases warns; exact ⟨rfl, .inl rfl, rfl⟩
  | absorbed => cases warns; exact ⟨rfl, .inr rfl, rfl⟩

theorem involved_of_unbounded? {unbounded : UnboundedEdge}
    (found : setting.unbounded? edge = some unbounded) :
    unbounded.diagnostic.involved = edge.involved := by
  obtain ⟨reason, -, rfl⟩ := unbounded?_eq_some_iff.mp found
  rfl

theorem exists_warning?_iff {code : DiagnosticCode} :
    (∃ diagnostic, setting.warning? edge = some diagnostic ∧ diagnostic.severity = .warning ∧
      diagnostic.code = some code) ↔
      setting.verdict? edge = some .arbitrated ∧ code = .w0200 ∨
        setting.verdict? edge = some .absorbed ∧ code = .w0201 := by
  rw [warning?]
  cases setting.verdict? edge with
  | none => simp
  | some finding => cases finding <;> simp [TimingFinding.warning?, eq_comm]

theorem involved_warnings : (setting.edges.filterMap setting.warning?).map Diagnostic.involved =
    (setting.edges.filter fun edge => (setting.warning? edge).isSome).map BoundaryEdge.involved :=
  map_filterMap_eq (fun _ _ found => (of_warning? found).2.2) _

theorem involved_errors :
    ((setting.edges.filterMap setting.unbounded?).map UnboundedEdge.diagnostic).map
      Diagnostic.involved = (setting.edges.filter fun edge =>
        (setting.unbounded? edge).isSome).map BoundaryEdge.involved := by
  rw [List.map_map]
  exact map_filterMap_eq (fun _ _ => involved_of_unbounded?) _

theorem anyError_diagnostics_iff :
    Diagnostic.anyError setting.result.diagnostics ↔ setting.result.report.unresolved ≠ [] := by
  have noError : (setting.edges.filterMap setting.warning?).any Diagnostic.isError = false := by
    refine List.any_eq_false.mpr fun warning listed => ?_
    obtain ⟨edge, -, found⟩ := List.mem_filterMap.mp listed
    simp [Diagnostic.isError, (of_warning? found).1]
  rw [Diagnostic.anyError, diagnostics_eq, unresolved_eq, List.any_append, noError]
  cases setting.edges.filterMap setting.unbounded? with
  | nil => simp
  | cons unbounded rest => simp [Diagnostic.isError, UnboundedEdge.diagnostic]

theorem isSome_unbounded?_iff : (setting.unbounded? edge).isSome ↔
    ∃ reason, setting.verdict? edge = some (.unresolvable reason) := by
  simp [Option.isSome_iff_exists, unbounded?_eq_some_iff]

namespace Fits

variable {program : Program} (fits : setting.Fits program)
include fits

theorem eq_of_involved {other : BoundaryEdge} (member : edge ∈ setting.edges)
    (memberToo : other ∈ setting.edges) (same : edge.involved = other.involved) : edge = other := by
  refine List.inj_on_of_nodup_map fits.nodup_connections member memberToo ?_
  simp_all [BoundaryEdge.involved]

theorem nodup_involved : (setting.edges.map BoundaryEdge.involved).Nodup := by
  refine (List.nodup_map_iff_inj_on (List.Nodup.of_map _ fits.nodup_connections)).mpr ?_
  exact fun edge member other memberToo => fits.eq_of_involved member memberToo

section Member

variable (member : edge ∈ setting.edges)
include member

theorem mem_unresolved_iff : edge.connection ∈ setting.result.report.unresolved ↔
    (setting.unbounded? edge).isSome := by
  rw [unresolved_eq, List.mem_map]
  constructor
  · rintro ⟨unbounded, listed, same⟩
    obtain ⟨other, memberToo, found⟩ := List.mem_filterMap.mp listed
    obtain ⟨reason, -, rfl⟩ := unbounded?_eq_some_iff.mp found
    obtain rfl := List.inj_on_of_nodup_map fits.nodup_connections memberToo member same
    exact Option.isSome_iff_exists.mpr ⟨_, found⟩
  · intro isSome
    obtain ⟨unbounded, found⟩ := Option.isSome_iff_exists.mp isSome
    refine ⟨unbounded, List.mem_filterMap.mpr ⟨edge, member, found⟩, ?_⟩
    obtain ⟨reason, -, rfl⟩ := unbounded?_eq_some_iff.mp found
    rfl

/-- The diagnostics about an edge come from the verdict on it. -/
theorem mem_diagnostics_iff {diagnostic : Diagnostic} :
    (diagnostic ∈ setting.result.diagnostics ∧ diagnostic.involved = edge.involved) ↔
      setting.warning? edge = some diagnostic ∨
        ∃ unbounded, setting.unbounded? edge = some unbounded ∧ unbounded.diagnostic = diagnostic := by
  rw [diagnostics_eq, List.mem_append, List.mem_filterMap, List.mem_map]
  constructor
  · rintro ⟨⟨other, memberToo, found⟩ | ⟨unbounded, listed, rfl⟩, same⟩
    · obtain rfl :=
        fits.eq_of_involved memberToo member ((of_warning? found).2.2.symm.trans same)
      exact .inl found
    · obtain ⟨other, memberToo, found⟩ := List.mem_filterMap.mp listed
      obtain rfl :=
        fits.eq_of_involved memberToo member ((involved_of_unbounded? found).symm.trans same)
      exact .inr ⟨unbounded, found, rfl⟩
  · rintro (found | ⟨unbounded, found, rfl⟩)
    · exact ⟨.inl ⟨edge, member, found⟩, (of_warning? found).2.2⟩
    · exact ⟨.inr ⟨unbounded, List.mem_filterMap.mpr ⟨edge, member, found⟩, rfl⟩,
        involved_of_unbounded? found⟩

theorem reports_iff {severity : Severity} {code : DiagnosticCode} :
    setting.result.Reports edge severity code ↔ ∃ diagnostic,
      (setting.warning? edge = some diagnostic ∨
        ∃ unbounded, setting.unbounded? edge = some unbounded ∧ unbounded.diagnostic = diagnostic) ∧
      diagnostic.severity = severity ∧ diagnostic.code = some code := by
  simp only [← fits.mem_diagnostics_iff member, BoundaryResult.Reports]
  exact exists_congr fun diagnostic => by tauto

theorem reports_warning_iff {code : DiagnosticCode} :
    setting.result.Reports edge .warning code ↔ ∃ diagnostic,
      setting.warning? edge = some diagnostic ∧ diagnostic.severity = .warning ∧
        diagnostic.code = some code := by
  rw [fits.reports_iff member]
  refine exists_congr fun diagnostic => and_congr_left ?_
  rintro ⟨isWarning, -⟩
  refine or_iff_left ?_
  rintro ⟨unbounded, -, rfl⟩
  cases isWarning

theorem reports_error_iff :
    setting.result.Reports edge .error .e0200 ↔ (setting.unbounded? edge).isSome := by
  rw [fits.reports_iff member, Option.isSome_iff_exists]
  constructor
  · rintro ⟨diagnostic, warning | ⟨unbounded, found, -⟩, isError, -⟩
    · cases (of_warning? warning).1.symm.trans isError
    · exact ⟨unbounded, found⟩
  · rintro ⟨unbounded, found⟩
    exact ⟨unbounded.diagnostic, .inr ⟨unbounded, found, rfl⟩, rfl, rfl⟩

end Member

theorem filter_unresolved : (setting.result.report.edges.filter fun edge =>
    edge.connection ∈ setting.result.report.unresolved) =
      setting.edges.filter fun edge => (setting.unbounded? edge).isSome := by
  refine List.filter_congr fun edge member => ?_
  rw [Bool.eq_iff_iff, decide_eq_true_eq, fits.mem_unresolved_iff member]

/-- Nobody can settle an edge with an error, and such an edge has no warning, so no two diagnostics
are about one edge. -/
theorem nodup_diagnostics : (setting.result.diagnostics.map Diagnostic.involved).Nodup := by
  rw [diagnostics_eq, List.map_append, involved_warnings, involved_errors]
  have part (found : BoundaryEdge → Bool) :
      ((setting.edges.filter found).map BoundaryEdge.involved).Nodup :=
    fits.nodup_involved.sublist (List.filter_sublist.map _)
  refine List.nodup_append.mpr ⟨part _, part _, ?_⟩
  rintro _ warned _ failed rfl
  obtain ⟨edge, isWarned, rfl⟩ := List.mem_map.mp warned
  obtain ⟨other, isFailed, same⟩ := List.mem_map.mp failed
  obtain ⟨member, warning⟩ := List.mem_filter.mp isWarned
  obtain ⟨memberToo, unbounded⟩ := List.mem_filter.mp isFailed
  obtain rfl := fits.eq_of_involved memberToo member same
  obtain ⟨reason, verdict⟩ := isSome_unbounded?_iff.mp unbounded
  simp [warning?, verdict, TimingFinding.warning?] at warning

theorem timing_result (built : setting.partition.Built) :
    setting.result.TimingExact setting.policy.coordination where
  unsettled edge member := by
    rw [fits.mem_unresolved_iff member, isSome_unbounded?_iff]
    exact fits.exists_unresolvable_iff built member
  arbitrated edge member := by
    rw [fits.reports_warning_iff member, exists_warning?_iff,
      fits.verdict?_eq_arbitrated_iff built member, fits.mem_unresolved_iff member,
      isSome_unbounded?_iff, fits.exists_unresolvable_iff built member]
    simp
  absorbed edge member := by
    rw [fits.reports_warning_iff member, exists_warning?_iff, verdict?_eq_absorbed_iff]
    simp
  listed := by
    rw [fits.filter_unresolved, unresolved_eq]
    refine map_filterMap_eq (fun edge unbounded found => ?_) _
    obtain ⟨reason, -, rfl⟩ := unbounded?_eq_some_iff.mp found
    rfl
  ordered := by
    refine ⟨_, _, diagnostics_eq, fun warning listed => ?_, ?_, fun error listed => ?_, ?_⟩
    · obtain ⟨edge, -, found⟩ := List.mem_filterMap.mp listed
      obtain ⟨severity, code, -⟩ := of_warning? found
      exact ⟨severity, code⟩
    · rw [involved_warnings]
      exact List.filter_sublist.map _
    · obtain ⟨unbounded, -, rfl⟩ := List.mem_map.mp listed
      exact ⟨rfl, rfl⟩
    · rw [involved_errors, fits.filter_unresolved]
  single := fits.nodup_diagnostics

end Fits

end BoundarySetting

end ReactorCausality
