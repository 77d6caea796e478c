/-!
Breadth-first search. The search keeps the vertices it has not met and a queue of visits, each with
the way by which it came. A visit hands its vertex's unmet successors to the queue, so a vertex is
visited once, and by a shortest way. Every round takes one visit from the queue, and whatever is
put there is no longer unmet; so the search ends.
-/
namespace ReactorCausality

def without {α : Type} [DecidableEq α] (vertices : List α) (vertex : α) : List α :=
  vertices.filter fun other => other ≠ vertex

/-- One vertex less is fewer vertices. -/
theorem length_without_lt {α : Type} [DecidableEq α] {vertices : List α} {vertex : α}
    (member : vertex ∈ vertices) : (without vertices vertex).length < vertices.length :=
  List.length_filter_lt_length_iff_exists.mpr ⟨vertex, member, by simp⟩

/-- A vertex that a search has come to, and the vertices before it on the way, the latest first. -/
structure Visit (α : Type) where
  vertex : α
  trail : List α
  deriving DecidableEq, Repr

namespace Visit

variable {α : Type}

/-- The way from the start of the search to the vertex, both included. -/
def path (visit : Visit α) : List α :=
  (visit.vertex :: visit.trail).reverse

def extend (visit : Visit α) (successor : α) : Visit α :=
  ⟨successor, visit.vertex :: visit.trail⟩

end Visit

namespace BreadthFirst

variable {α : Type} [DecidableEq α]

/-- What is still to do: the vertices that have not been met, and the visits to come. -/
structure Frontier (α : Type) where
  unmet : List α
  queue : List (Visit α)

/-- Meets the successors of a visit, in order, and queues those that have not been met. -/
def meet (visit : Visit α) (frontier : Frontier α) : List α → Frontier α
  | [] => frontier
  | successor :: rest =>
    if successor ∈ frontier.unmet then
      meet visit
        ⟨without frontier.unmet successor, frontier.queue ++ [visit.extend successor]⟩ rest
    else meet visit frontier rest

def Frontier.size (frontier : Frontier α) : Nat :=
  frontier.unmet.length + frontier.queue.length

/-- Whatever is queued is no longer unmet, so meeting successors leaves no more rounds. -/
theorem size_meet (visit : Visit α) (frontier : Frontier α) (successors : List α) :
    (meet visit frontier successors).size ≤ frontier.size := by
  fun_induction meet visit frontier successors with
  | case1 => exact Nat.le_refl _
  | case2 frontier successor rest unmet ih =>
    refine Nat.le_trans ih ?_
    have := length_without_lt unmet
    simp only [Frontier.size, List.length_append, List.length_singleton]
    omega
  | case3 frontier successor rest met ih => exact ih

def visitsFrom (next : α → List α) (frontier : Frontier α) : List (Visit α) :=
  match frontier with
  | ⟨_, []⟩ => []
  | ⟨unmet, visit :: queue⟩ =>
    visit :: visitsFrom next (meet visit ⟨unmet, queue⟩ (next visit.vertex))
termination_by frontier.size
decreasing_by
  have := size_meet visit ⟨unmet, queue⟩ (next visit.vertex)
  simp only [Frontier.size, List.length_cons] at this ⊢
  omega

/-- The visits of a search from a start, inside the given vertices, in order. The first is the
start itself. -/
def visits (next : α → List α) (vertices : List α) (start : α) : List (Visit α) :=
  visitsFrom next ⟨without vertices start, [⟨start, []⟩]⟩

/-- The vertices that can be reached from a start, without the start, the nearest first. -/
def reachable (next : α → List α) (vertices : List α) (start : α) : List α :=
  (visits next vertices start).tail.map Visit.vertex

end BreadthFirst

end ReactorCausality
