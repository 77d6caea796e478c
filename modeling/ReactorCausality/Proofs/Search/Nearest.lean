import Mathlib.Data.List.Perm.Subperm
import Mathlib.Logic.Function.Iterate
import Mathlib.Order.Bounds.Basic
import ReactorCausality.Proofs.Search.BreadthFirst

/-!
How far away the vertices are that breadth-first search finds, and how soon it has found them. It lists
them by the lengths of the shortest ways to them (`listsNearest_reachable`). A search that remembers what
it has seen, and does not know what there is to see, lists the same vertices in the same order and has
done so after one round for each of them and one for the start (`finds_reachable`).
-/
namespace ReactorCausality

/-- A way of so many steps, at least one, leads from a start to something. -/
inductive LeadsIn {α : Type} (follows : α → α → Prop) (start : α) : Nat → α → Prop where
  | single {target : α} (step : follows start target) : LeadsIn follows start 1 target
  | tail {count : Nat} {middle target : α} (before : LeadsIn follows start count middle)
      (step : follows middle target) : LeadsIn follows start (count + 1) target

namespace LeadsIn

variable {α β : Type} {follows : α → α → Prop} {count : Nat} {source middle target : α}

theorem head (step : follows source middle) (leads : LeadsIn follows middle count target) :
    LeadsIn follows source (count + 1) target := by
  induction leads with
  | single next => exact .tail (.single step) next
  | tail _ next ih => exact .tail ih next

theorem lift {other : β → β → Prop} (f : α → β)
    (kept : ∀ source target, follows source target → other (f source) (f target))
    (leads : LeadsIn follows source count target) : LeadsIn other (f source) count (f target) := by
  induction leads with
  | single step => exact .single (kept _ _ step)
  | tail _ step ih => exact .tail ih (kept _ _ step)

theorem swap (leads : LeadsIn (Function.swap follows) source count target) :
    LeadsIn follows target count source := by
  induction leads with
  | single step => exact .single step
  | tail _ step ih => exact ih.head step

theorem swap_iff : LeadsIn (Function.swap follows) source count target ↔
    LeadsIn follows target count source :=
  ⟨swap, @swap _ (Function.swap follows) _ _ _⟩

theorem exists_iff :
    (∃ count, LeadsIn follows source count target) ↔ Relation.TransGen follows source target := by
  constructor
  · rintro ⟨count, leads⟩
    induction leads with
    | single step => exact .single step
    | tail _ step ih => exact ih.tail step
  · intro reaches
    induction reaches with
    | single step => exact ⟨1, .single step⟩
    | tail _ step ih =>
      obtain ⟨count, leads⟩ := ih
      exact ⟨count + 1, leads.tail step⟩

end LeadsIn

/-- What can be reached from a start, without the start, each thing once and the nearest first. How many
steps the ways to it take is given for everything. -/
structure ListsNearest {α : Type} (start : α) (lengths : α → Set Nat) (found : List α) : Prop where
  distinct : found.Nodup
  exactly : ∀ vertex, vertex ∈ found ↔ vertex ≠ start ∧ (lengths vertex).Nonempty
  ascending : found.Pairwise fun near far => ∀ short long,
    IsLeast (lengths near) short → IsLeast (lengths far) long → short ≤ long

namespace BreadthFirst

variable {α : Type} {next : α → List α} {vertices : List α} {start : α}

namespace Explores

variable {visits : List (Visit α)} (explores : Explores next vertices start visits)
include explores

theorem leadsIn_trail {visit : Visit α} (member : visit ∈ visits) : visit = ⟨start, []⟩ ∨
    LeadsIn (Leads next vertices) start visit.trail.length visit.vertex := by
  refine explores.induction (motive := fun visit => visit = ⟨start, []⟩ ∨
    LeadsIn (Leads next vertices) start visit.trail.length visit.vertex) (.inl rfl) ?_ visit member
  rintro parent - vertex leads - (rfl | before)
  · exact .inr (.single leads)
  · exact .inr (before.tail leads)

theorem exists_of_leadsIn {count : Nat} {vertex : α}
    (leads : LeadsIn (Leads next vertices) start count vertex) :
    ∃ visit ∈ visits, visit.vertex = vertex ∧ visit.trail.length ≤ count := by
  induction leads with
  | single step => exact explores.closed ⟨start, []⟩ explores.start_mem _ step
  | tail _ step ih =>
    obtain ⟨parent, isVisited, rfl, near⟩ := ih
    obtain ⟨visit, member, rfl, nearToo⟩ := explores.closed parent isVisited _ step
    exact ⟨visit, member, rfl, nearToo.trans (Nat.add_le_add_right near 1)⟩

/-- No way to a vertex is shorter than the one by which the search came. -/
theorem isLeast_trail {visit : Visit α} (member : visit ∈ visits) (differs : visit.vertex ≠ start) :
    IsLeast { count | LeadsIn (Leads next vertices) start count visit.vertex }
      visit.trail.length := by
  constructor
  · rcases explores.leadsIn_trail member with rfl | leads
    · exact absurd rfl differs
    · exact leads
  · intro count leads
    obtain ⟨other, isVisited, same, near⟩ := explores.exists_of_leadsIn leads
    rwa [explores.eq_of_vertex_eq isVisited member same] at near

end Explores

variable [DecidableEq α]

theorem listsNearest_reachable (next : α → List α) (vertices : List α) (start : α) :
    ListsNearest start (fun vertex => { count | LeadsIn (Leads next vertices) start count vertex })
      (reachable next vertices start) where
  distinct := nodup_reachable next vertices start
  exactly vertex := by
    rw [mem_reachable_iff]
    refine and_congr_right fun differs => ?_
    rw [Relation.reflTransGen_iff_eq_or_transGen, or_iff_right differs]
    exact LeadsIn.exists_iff.symm
  ascending := by
    have explores := explores_visits next vertices start
    refine List.pairwise_map.mpr (explores.ascending.tail.imp_of_mem ?_)
    intro near far isNear isFar trail_le short long isShort isLong
    have isLeast (visit : Visit α) (found : visit ∈ (visits next vertices start).tail) :=
      explores.isLeast_trail (List.mem_of_mem_tail found)
        (mem_reachable_iff.mp (List.mem_map_of_mem found)).1
    rwa [isShort.unique (isLeast near isNear), isLong.unique (isLeast far isFar)]

/-! ### A search that remembers what it has seen -/

/-- What has been seen, what is listed, and whose successors are still to be met. -/
structure Sweep (α : Type) where
  seen : List α
  order : List α
  queue : List α

namespace Sweep

def ofStart (vertex : α) : Sweep α :=
  ⟨[vertex], [], [vertex]⟩

/-- A vertex that has not been seen is listed and queued. -/
def meet (sweep : Sweep α) (vertex : α) : Sweep α :=
  if vertex ∈ sweep.seen then sweep
  else ⟨vertex :: sweep.seen, sweep.order ++ [vertex], sweep.queue ++ [vertex]⟩

/-- Meets the successors of the first vertex in the queue. -/
def round (next : α → List α) (sweep : Sweep α) : Sweep α :=
  match sweep.queue with
  | [] => sweep
  | vertex :: queue => (next vertex).foldl meet { sweep with queue }

/-- After so many rounds nothing is left in the queue, and something has been listed. -/
def Finds (next : α → List α) (start : α) (rounds : Nat) (found : List α) : Prop :=
  ((round next)^[rounds] (ofStart start)).queue = [] ∧
    ((round next)^[rounds] (ofStart start)).order = found

/-- The search stands where one inside the given vertices stands when it has made some visits. -/
structure Mirrors (vertices : List α) (start : α) (done : List (Visit α)) (frontier : Frontier α)
    (sweep : Sweep α) : Prop where
  seen : ∀ vertex ∈ vertices, vertex ∈ frontier.unmet ↔ vertex ∉ sweep.seen
  order : start :: sweep.order = (done ++ frontier.queue).map Visit.vertex
  queue : sweep.queue = frontier.queue.map Visit.vertex

theorem mirrors_meet {done : List (Visit α)} {frontier : Frontier α} {sweep : Sweep α}
    {visit : Visit α} {successors : List α} (known : successors ⊆ vertices)
    (mirrors : Mirrors vertices start done frontier sweep) :
    Mirrors vertices start done (BreadthFirst.meet visit frontier successors)
      (successors.foldl meet sweep) := by
  fun_induction BreadthFirst.meet visit frontier successors generalizing sweep with
  | case1 => exact mirrors
  | case2 frontier successor rest unmet ih =>
    obtain ⟨isKnown, restKnown⟩ := List.cons_subset.mp known
    have notSeen := (mirrors.seen successor isKnown).mp unmet
    rw [List.foldl_cons, meet, if_neg notSeen]
    refine ih restKnown ⟨fun vertex member => ?_, ?_, ?_⟩
    · rw [mem_without, mirrors.seen vertex member, List.mem_cons, not_or, and_comm]
    · rw [← List.cons_append, mirrors.order]
      simp [Visit.extend]
    · simp [mirrors.queue, Visit.extend]
  | case3 frontier successor rest met ih =>
    obtain ⟨isKnown, restKnown⟩ := List.cons_subset.mp known
    have seen := not_not.mp (mt (mirrors.seen successor isKnown).mpr met)
    rw [List.foldl_cons, meet, if_pos seen]
    exact ih restKnown mirrors

/-- Every round makes one visit, and after the last one nothing is left in the queue. -/
theorem mirrors_visitsFrom {done : List (Visit α)} {frontier : Frontier α} {sweep : Sweep α}
    (known : ∀ vertex, next vertex ⊆ vertices)
    (mirrors : Mirrors vertices start done frontier sweep) :
    ∃ unmet, Mirrors vertices start (done ++ visitsFrom next frontier) ⟨unmet, []⟩
      ((round next)^[(visitsFrom next frontier).length] sweep) := by
  fun_induction visitsFrom next frontier generalizing done sweep with
  | case1 unmet => exact ⟨unmet, by simpa using mirrors⟩
  | case2 unmet visit queue ih =>
    have begins : round next sweep =
        (next visit.vertex).foldl meet { sweep with queue := queue.map Visit.vertex } := by
      rw [round, mirrors.queue]
      rfl
    rw [List.length_cons, Function.iterate_succ_apply, begins, List.append_cons]
    refine ih (mirrors_meet (known visit.vertex) ⟨mirrors.seen, ?_, rfl⟩)
    rw [mirrors.order, List.append_cons]

end Sweep

theorem length_visits_le (next : α → List α) (vertices : List α) (start : α) :
    (visits next vertices start).length ≤ vertices.length + 1 := by
  have explores := explores_visits next vertices start
  have included : (visits next vertices start).map Visit.vertex ⊆ start :: vertices := by
    intro vertex visited
    rw [explores.mem_vertices_iff, Relation.reflTransGen_iff_eq_or_transGen,
      Relation.TransGen.tail'_iff] at visited
    rcases visited with rfl | ⟨_, -, leads⟩
    · exact List.mem_cons_self
    · exact List.mem_cons_of_mem _ leads.2
  simpa using (explores.distinct.subperm included).length_le

/-- The search comes to an end, also if ways lead back to where they come from. -/
theorem finds_reachable (known : ∀ vertex, next vertex ⊆ vertices) (start : α) :
    ∃ rounds ≤ vertices.length + 1,
      Sweep.Finds next start rounds (reachable next vertices start) := by
  have begins : Sweep.Mirrors vertices start [] ⟨without vertices start, [⟨start, []⟩]⟩
      (.ofStart start) := ⟨by simp +contextual [mem_without, Sweep.ofStart], rfl, rfl⟩
  obtain ⟨unmet, ends⟩ := Sweep.mirrors_visitsFrom known begins
  refine ⟨_, length_visits_le next vertices start, ends.queue, ?_⟩
  rw [reachable, List.map_tail]
  simpa [visits] using congrArg List.tail ends.order

end BreadthFirst

end ReactorCausality
