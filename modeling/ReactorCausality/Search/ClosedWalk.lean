import ReactorCausality.Search.BreadthFirst

/-!
Shortest closed walks. A shortest walk from a vertex back to itself is a shortest way to a vertex
that leads back to the start, with the start put behind it.
-/
namespace ReactorCausality

namespace ClosedWalk

variable {α : Type} [DecidableEq α]

/-- A shortest closed walk through a start inside the given vertices, beginning and ending at the
start. Where there is none, the start alone. -/
def shortest (next : α → List α) (members : List α) (start : α) : List α :=
  let inside := fun vertex => (next vertex).filter fun successor => successor ∈ members
  match (BreadthFirst.visits inside members start).find?
      fun visit => start ∈ inside visit.vertex with
  | some visit => visit.path ++ [start]
  | none => [start]

end ClosedWalk

end ReactorCausality
