/-!
Computations that may fail. One that consists of two gives a result exactly if both do, and it fails
exactly if the first fails, or else the second. What goes through the items of a list and gets a result
for each does not fail at all.
-/
namespace ReactorCausality

variable {α β ε δ : Type}

theorem bind_eq_ok_iff {x : Except ε α} {f : α → Except ε β} {value : β} :
    (x >>= f) = .ok value ↔ ∃ found, x = .ok found ∧ f found = .ok value := by
  cases x <;> simp [bind, Except.bind]

theorem bind_eq_error_iff {x : Except ε α} {f : α → Except ε β} {fault : ε} :
    (x >>= f) = .error fault ↔ x = .error fault ∨ ∃ found, x = .ok found ∧ f found = .error fault := by
  cases x <;> simp [bind, Except.bind]

theorem mapError_eq_ok_iff {x : Except ε α} {f : ε → δ} {value : α} :
    x.mapError f = .ok value ↔ x = .ok value := by
  cases x with
  | error fault => exact ⟨nofun, nofun⟩
  | ok found =>
    change Except.ok found = _ ↔ _
    simp

theorem mapError_eq_error_iff {x : Except ε α} {f : ε → δ} {fault : δ} :
    x.mapError f = .error fault ↔ ∃ found, x = .error found ∧ f found = fault := by
  cases x with
  | error found =>
    change Except.error (f found) = _ ↔ _
    simp
  | ok found => exact ⟨nofun, nofun⟩

theorem mapM_eq_some {f : α → Option β} {g : α → β} {items : List α}
    (each : ∀ item ∈ items, f item = some (g item)) : items.mapM f = some (items.map g) := by
  induction items with
  | nil => rfl
  | cons item rest ih =>
    have first := each item List.mem_cons_self
    have others := ih fun other member => each other (List.mem_cons_of_mem _ member)
    simp [List.mapM_cons, first, others]

theorem foldlM_eq_some {f : β → α → Option β} {g : β → α → β} {items : List α}
    (each : ∀ item ∈ items, ∀ before, f before item = some (g before item)) (start : β) :
    items.foldlM f start = some (items.foldl g start) := by
  induction items generalizing start with
  | nil => rfl
  | cons item rest ih =>
    have first := each item List.mem_cons_self start
    have others := ih fun other member => each other (List.mem_cons_of_mem _ member)
    simp [List.foldlM_cons, first, others]

end ReactorCausality
