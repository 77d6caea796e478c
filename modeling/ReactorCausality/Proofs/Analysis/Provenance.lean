import ReactorCausality.Analysis.Run
import ReactorCausality.Proofs.Boundary.Report
import ReactorCausality.Proofs.Program.Interchange

/-!
What digests are about. A JSON document can be told from its text, so different programs have different
canonical texts, however deep they nest, and so have different priorities and control reactions. Analyses
with the same digests are therefore about the same program and come to the same, or else two different texts
with one digest are at hand (`provenance_identifies`).
-/
namespace ReactorCausality

open Function

/-! ### Documents and their texts -/

namespace Json

mutual

theorem eq_of_outline_eq : (left : Json) → {right : Json} → left.outline = right.outline → left = right
  | .null, right, same => by cases right <;> simp_all [outline]
  | .bool value, right, same => by cases right <;> simp_all [outline]
  | .nat value, right, same => by cases right <;> simp_all [outline]
  | .string text, right, same => by cases right <;> simp_all [outline]
  | .array elements, right, same => by
    cases right <;> simp only [outline, reduceCtorEq, Outline.array.injEq] at same
    rw [eq_of_outlines_eq elements same]
  | .object members, right, same => by
    cases right <;> simp only [outline, reduceCtorEq, Outline.object.injEq] at same
    rw [eq_of_memberOutlines_eq members same]

theorem eq_of_outlines_eq : (left : List Json) → {right : List Json} →
    outlines left = outlines right → left = right
  | [], right, same => by cases right <;> simp_all [outlines]
  | element :: rest, right, same => by
    cases right <;> simp only [outlines, reduceCtorEq, List.cons.injEq] at same
    rw [eq_of_outline_eq element same.1, eq_of_outlines_eq rest same.2]

theorem eq_of_memberOutlines_eq : (left : List (String × Json)) → {right : List (String × Json)} →
    memberOutlines left = memberOutlines right → left = right
  | [], right, same => by cases right <;> simp_all [memberOutlines]
  | (key, value) :: rest, right, same => by
    cases right <;> simp only [memberOutlines, reduceCtorEq, List.cons.injEq, Prod.mk.injEq,
      Option.some.injEq] at same
    rw [same.1.1, eq_of_outline_eq value same.1.2, eq_of_memberOutlines_eq rest same.2]

end

theorem compact_injective : Injective compact := by
  intro left right same
  have read := Outline.read_compact left
  rw [same, Outline.read_compact] at read
  exact (eq_of_outline_eq right (congrArg Outline.Document.root read)).symm

section Encodings

variable {α : Type} {encode : α → Json} (injective : Injective encode)
include injective

theorem ofList_injective : Injective (ofList encode) := fun _ _ same =>
  List.map_injective_iff.mpr injective (array.inj same)

theorem ofOption_injective (visible : ∀ value, encode value ≠ .null) : Injective (ofOption encode) := by
  intro left right same
  cases left <;> cases right
  · rfl
  · exact absurd same.symm (visible _)
  · exact absurd same (visible _)
  · exact congrArg some (injective same)

end Encodings

end Json

/-- Values that are read back from their documents have different documents. -/
theorem Decoder.injective_of_recovers {α : Type} {decoder : Nat → Decoder α} {encode : α → Json}
    (recovers : ∀ value depth, Recovers (decoder depth) depth (encode value) value) :
    Injective encode := by
  intro left right same
  have isLeft := recovers left (encode left).nesting
  have isRight := recovers right (encode left).nesting
  rw [Recovers, if_pos le_rfl] at isLeft
  rw [Recovers, ← same, if_pos le_rfl] at isRight
  exact Except.ok.inj (isLeft.symm.trans isRight)

/-- Nothing of a program is lost in its text, even where the text nests too deep to be read. -/
theorem Program.canonicalText_injective : Injective canonicalText :=
  Json.compact_injective.comp (Decoder.injective_of_recovers Program.recovers)

/-! ### Priorities and control reactions -/

theorem EntityId.toJson_injective {kind : Entity} : Injective (toJson : EntityId kind → Json) :=
  Decoder.injective_of_recovers fun id _ => id.recovers

theorem TimeValue.toJson_injective : Injective toJson :=
  Decoder.injective_of_recovers fun value _ => Decoder.recovers_time value

theorem FederateId.toJson_injective : Injective toJson := by
  rintro ⟨left⟩ ⟨right⟩ same
  exact congrArg mk (Json.nat.inj same)

theorem PriorityEntry.toJson_injective : Injective toJson := by
  rintro ⟨left, rank, level⟩ ⟨right, rank', level'⟩ same
  simp only [toJson, Json.array.injEq, List.cons.injEq, Json.nat.injEq, and_true] at same
  obtain ⟨reaction, rfl, rfl⟩ := same
  rw [EntityId.toJson_injective reaction]

theorem Side.word_injective : Injective word := by
  intro left right
  cases left <;> cases right <;> decide

theorem ControlKind.word_injective : Injective word := by
  intro left right
  cases left <;> cases right <;> decide

theorem Placing.toJson_injective : Injective toJson := by
  intro left right same
  cases left <;> cases right <;>
    simp_all [toJson, EntityId.toJson_injective.eq_iff]

theorem ControlReaction.toJson_injective : Injective toJson := by
  intro left right same
  simp only [toJson, Json.object.injEq, List.cons.injEq, Prod.mk.injEq, Json.string.injEq, true_and,
    and_true] at same
  obtain ⟨bound, connection, edge, federate, kind, placement, port, side⟩ := same
  have bound := Json.ofOption_injective TimeValue.toJson_injective (fun _ => nofun) bound
  cases left
  cases right
  simp_all [EntityId.toJson_injective.eq_iff, FederateId.toJson_injective.eq_iff,
    ControlKind.word_injective.eq_iff, Placing.toJson_injective.eq_iff, Side.word_injective.eq_iff]

/-- The control reactions of a report; there are none if there is no report. -/
def reportedControls (boundaries : Option BoundaryReport) : List ControlReaction :=
  (boundaries.map BoundaryReport.controls).getD []

theorem canonicalOutput_eq_iff {table table' : PriorityTable}
    {boundaries boundaries' : Option BoundaryReport} :
    canonicalOutput table boundaries = canonicalOutput table' boundaries' ↔
      table.entries = table'.entries ∧ reportedControls boundaries = reportedControls boundaries' := by
  have entries := Json.ofList_injective PriorityEntry.toJson_injective
  have controls := Json.ofList_injective ControlReaction.toJson_injective
  simp only [canonicalOutput, Json.compact_injective.eq_iff, Json.object.injEq, List.cons.injEq,
    Prod.mk.injEq, entries.eq_iff, controls.eq_iff, true_and, and_true]
  exact and_comm

/-! ### Digests -/

/-- Two different texts with one digest. -/
def Digest.Collide (left right : String) : Prop :=
  left ≠ right ∧ ofText left = ofText right

theorem Digest.ofText_eq_iff {left right : String} :
    ofText left = ofText right ↔ left = right ∨ Collide left right := by
  by_cases same : left = right <;> simp [Collide, same]

namespace AnalysisState

/-- What an analysis has come to, if it has priorities: the priorities by rank, and the control
reactions. -/
def output? (state : AnalysisState) : Option (List PriorityEntry × List ControlReaction) :=
  state.priorities.map fun table => (table.entries, reportedControls state.boundaries)

theorem outputHash_eq_iff {left right : AnalysisState} :
    (left.priorities.map fun table => canonicalOutput table left.boundaries).map Digest.ofText =
        (right.priorities.map fun table => canonicalOutput table right.boundaries).map Digest.ofText ↔
      left.output? = right.output? ∨ ∃ table table', left.priorities = some table ∧
        right.priorities = some table' ∧
        Digest.Collide (canonicalOutput table left.boundaries)
          (canonicalOutput table' right.boundaries) := by
  cases hasLeft : left.priorities <;> cases hasRight : right.priorities <;>
    simp [output?, hasLeft, hasRight, Digest.ofText_eq_iff, canonicalOutput_eq_iff]

end AnalysisState

/-- Canonical texts tell programs from each other, and they tell what an analysis comes to: two of them are
the same exactly if the same reactions have the same ranks and levels and the same control reactions have to
be added. Two analyses with the same digests had the same program and came to the same, unless two texts
that differ have one digest. -/
theorem provenance_identifies :
    Injective Program.canonicalText ∧
    (∀ (table table' : PriorityTable) (boundaries boundaries' : Option BoundaryReport),
      canonicalOutput table boundaries = canonicalOutput table' boundaries' ↔
        table.entries = table'.entries ∧
          reportedControls boundaries = reportedControls boundaries') ∧
    ∀ (left right : AnalysisState) (provenance provenance' : Provenance),
      left.recordProvenance.provenance = some provenance →
      right.recordProvenance.provenance = some provenance' →
      (provenance.modelHash = provenance'.modelHash ↔ left.program = right.program ∨
        Digest.Collide left.program.canonicalText right.program.canonicalText) ∧
      (provenance.outputHash = provenance'.outputHash ↔ left.output? = right.output? ∨
        ∃ table table', left.priorities = some table ∧ right.priorities = some table' ∧
          Digest.Collide (canonicalOutput table left.boundaries)
            (canonicalOutput table' right.boundaries)) := by
  refine ⟨Program.canonicalText_injective, fun _ _ _ _ => canonicalOutput_eq_iff, ?_⟩
  rintro left right _ _ ⟨⟩ ⟨⟩
  refine ⟨?_, AnalysisState.outputHash_eq_iff⟩
  rw [Provenance.of, Provenance.of, Digest.ofText_eq_iff, Program.canonicalText_injective.eq_iff]

/-- No report and an empty one make no difference to what an analysis comes to. -/
theorem provenance_identifies_exchange :
    (Program.mk { id := ⟨0⟩, name := "\"" }).canonicalText ≠
        (Program.mk { id := ⟨0⟩, name := "\\\"" }).canonicalText ∧
      ∃ left right : AnalysisState, left.priorities = some .exchange ∧ left.boundaries = none ∧
        right.boundaries = some {} ∧ left.output? = right.output? := by
  obtain ⟨tellApart, outputs, analyses⟩ := provenance_identifies
  let left : AnalysisState :=
    { AnalysisState.fresh .exchange .sides {} with priorities := some .exchange }
  let right : AnalysisState := { left with boundaries := some {} }
  have same := (outputs .exchange .exchange none (some {})).mpr ⟨rfl, rfl⟩
  have digests := (analyses left right _ _ rfl rfl).2.mp (congrArg (some ∘ Digest.ofText) same)
  refine ⟨tellApart.ne (by decide), left, right, rfl, rfl, rfl, digests.resolve_right ?_⟩
  rintro ⟨_, _, ⟨⟩, ⟨⟩, differ, -⟩
  exact differ same

end ReactorCausality
