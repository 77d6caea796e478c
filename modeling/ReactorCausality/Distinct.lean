/-!
Lists without repetitions. Of equal elements the one that stands first stays, so what is mentioned
in some order is listed in the order of its first mentions.
-/
namespace ReactorCausality

variable {α : Type} [DecidableEq α]

/-- The elements of a list without repetitions, each where it stands first. -/
def distinct : List α → List α
  | [] => []
  | a :: rest => a :: (distinct rest).filter fun b => b ≠ a

theorem mem_distinct {a : α} {list : List α} : a ∈ distinct list ↔ a ∈ list := by
  induction list with
  | nil => simp [distinct]
  | cons b rest ih => by_cases same : a = b <;> simp [distinct, ih, same]

theorem nodup_distinct (list : List α) : (distinct list).Nodup := by
  induction list with
  | nil => simp [distinct]
  | cons b rest ih =>
    refine List.nodup_cons.mpr ⟨by simp, ih.filter _⟩

end ReactorCausality
