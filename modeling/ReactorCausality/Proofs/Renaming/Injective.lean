import Mathlib.Data.List.Basic
import ReactorCausality.Distinct
import ReactorCausality.Search.BreadthFirst

/-!
Lists along injective maps. Where elements are only told apart, nothing depends on what they are: of
the images of elements the same ones are repeated, found first, looked up and searched in turn.
-/
namespace ReactorCausality

variable {α β : Type} [DecidableEq α] [DecidableEq β] {f : α → β}
  (injective : Function.Injective f)
include injective

theorem distinct_map (list : List α) : distinct (list.map f) = (distinct list).map f := by
  induction list with
  | nil => rfl
  | cons a rest ih => simp [distinct, ih, List.filter_map, Function.comp_def, injective.eq_iff]

theorem idxOf_map (list : List α) (a : α) : (list.map f).idxOf (f a) = list.idxOf a := by
  induction list with
  | nil => rfl
  | cons b rest ih => simp [List.idxOf_cons, ih, Bool.cond_eq_ite, injective.eq_iff]

theorem contains_map (list : List α) (a : α) : (list.map f).contains (f a) = list.contains a := by
  simp [List.contains_eq_mem, injective.eq_iff]

theorem lookup_map {ν : Type} (pairs : List (α × ν)) (key : α) :
    (pairs.map fun pair => (f pair.1, pair.2)).lookup (f key) = pairs.lookup key := by
  induction pairs with
  | nil => rfl
  | cons pair rest ih =>
    rw [List.map_cons, List.lookup_cons, List.lookup_cons, ih]
    simp [beq_eq_decide, injective.eq_iff]

/-! ### Searches -/

def Visit.map {α β : Type} (f : α → β) (visit : Visit α) : Visit β :=
  ⟨f visit.vertex, visit.trail.map f⟩

theorem without_map (vertices : List α) (vertex : α) :
    without (vertices.map f) (f vertex) = (without vertices vertex).map f := by
  simp [without, List.filter_map, Function.comp_def, injective.eq_iff]

namespace BreadthFirst

def Frontier.map {α β : Type} (f : α → β) (frontier : Frontier α) : Frontier β :=
  ⟨frontier.unmet.map f, frontier.queue.map (Visit.map f)⟩

theorem meet_map (visit : Visit α) (frontier : Frontier α) (successors : List α) :
    meet (visit.map f) (frontier.map f) (successors.map f) =
      (meet visit frontier successors).map f := by
  fun_induction meet visit frontier successors with
  | case1 => rfl
  | case2 frontier successor rest unmet ih =>
    have unmet' : f successor ∈ (frontier.map f).unmet := List.mem_map_of_mem unmet
    rw [List.map_cons, meet, if_pos unmet', ← ih]
    simp [Frontier.map, without_map injective, Visit.map, Visit.extend]
  | case3 frontier successor rest met ih =>
    have met' : f successor ∉ (frontier.map f).unmet := fun unmet =>
      met ((List.mem_map_of_injective injective).mp unmet)
    rw [List.map_cons, meet, if_neg met', ih]

variable {next : α → List α} {next' : β → List β}
  (commutes : ∀ vertex, next' (f vertex) = (next vertex).map f)
include commutes

theorem visitsFrom_map (frontier : Frontier α) :
    visitsFrom next' (frontier.map f) = (visitsFrom next frontier).map (Visit.map f) := by
  fun_induction visitsFrom next frontier with
  | case1 unmet => rw [Frontier.map, List.map_nil, visitsFrom]
  | case2 unmet visit queue ih =>
    have met := meet_map injective visit ⟨unmet, queue⟩ (next visit.vertex)
    rw [← commutes] at met
    rw [List.map_cons, ← ih, ← met, Frontier.map, List.map_cons, visitsFrom]
    rfl

/-- A search comes to the images of the vertices, in the same order. -/
theorem reachable_map (vertices : List α) (start : α) :
    reachable next' (vertices.map f) (f start) = (reachable next vertices start).map f := by
  have visited := visitsFrom_map injective commutes ⟨without vertices start, [⟨start, []⟩]⟩
  rw [reachable, reachable, visits, visits, without_map injective]
  simp only [Frontier.map, List.map_cons, List.map_nil, Visit.map] at visited
  rw [visited, ← List.map_tail, List.map_map, List.map_map]
  rfl

end BreadthFirst

end ReactorCausality
