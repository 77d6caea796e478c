import ReactorCausality.Boundary.Classification

/-!
When boundaries are classified, and which diagnostics that may give.
-/
namespace ReactorCausality

namespace BoundarySetting

variable {setting : BoundarySetting} {result : BoundaryResult}

theorem classify_eq_error (invalid : setting.partition.problems setting.index ≠ []) :
    setting.classify = .error (setting.partition.problems setting.index) := by
  rw [classify]
  split
  · contradiction
  · rfl

theorem classify_eq_ok_iff : setting.classify = .ok result ↔
    setting.partition.problems setting.index = [] ∧
      result = if setting.partition.isFederated setting.index then setting.result else {} := by
  by_cases valid : setting.partition.problems setting.index = []
  · have classified : setting.classify =
        .ok (if setting.partition.isFederated setting.index then setting.result else {}) := by
      rw [classify, valid]
      simp only [apply_ite Except.ok]
    rw [classified, Except.ok.injEq, and_iff_right valid]
    exact eq_comm
  · simp [classify_eq_error valid, valid]

/-- The diagnostics of a classification are about timing. -/
theorem code_of_mem_diagnostics (classified : setting.classify = .ok result) :
    ∀ diagnostic ∈ result.diagnostics, diagnostic.code = some .w0200 ∨
      diagnostic.code = some .w0201 ∨ diagnostic.code = some .e0200 := by
  intro diagnostic member
  obtain ⟨-, rfl⟩ := classify_eq_ok_iff.mp classified
  split at member
  · rcases List.mem_append.mp member with warning | error
    · obtain ⟨⟨edge, finding⟩, -, found⟩ := List.mem_filterMap.mp warning
      cases finding with
      | unresolvable reason => cases found
      | arbitrated => cases found; exact .inl rfl
      | absorbed => cases found; exact .inr (.inl rfl)
    · obtain ⟨edge, -, rfl⟩ := List.mem_map.mp error
      exact .inr (.inr rfl)
  · cases member

end BoundarySetting

end ReactorCausality
