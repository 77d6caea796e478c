import Mathlib.Data.List.Chain
import Mathlib.Data.List.Nodup
import Mathlib.Logic.Relation
import ReactorCausality.Search.BreadthFirst

/-!
Breadth-first search meets exactly what can be reached, each vertex once and by a shortest way.
-/
namespace ReactorCausality

theorem mem_without {α : Type} [DecidableEq α] {vertices : List α} {vertex other : α} :
    other ∈ without vertices vertex ↔ other ∈ vertices ∧ other ≠ vertex := by
  simp [without]

namespace BreadthFirst

variable {α : Type} {next : α → List α} {vertices : List α} {start : α}

/-- A search inside the vertices may go from one vertex to another. -/
def Leads (next : α → List α) (vertices : List α) (source target : α) : Prop :=
  target ∈ next source ∧ target ∈ vertices

/-- A visit is the one of the start, or it extends one of the others. -/
def Extends (next : α → List α) (vertices : List α) (start : α) (visits : List (Visit α))
    (visit : Visit α) : Prop :=
  visit = ⟨start, []⟩ ∨
    ∃ parent ∈ visits, Leads next vertices parent.vertex visit.vertex ∧
      visit = parent.extend visit.vertex

/-- Whatever follows the vertex of a visit is visited, at most one step further on. -/
def Covers (next : α → List α) (vertices : List α) (visits : List (Visit α)) (visit : Visit α) :
    Prop :=
  ∀ vertex, Leads next vertices visit.vertex vertex →
    ∃ other ∈ visits, other.vertex = vertex ∧ other.trail.length ≤ visit.trail.length + 1

/-- The visits of a complete search, the nearest first. -/
structure Explores (next : α → List α) (vertices : List α) (start : α)
    (visits : List (Visit α)) : Prop where
  begins : visits.head? = some ⟨start, []⟩
  origin : ∀ visit ∈ visits, Extends next vertices start visits visit
  distinct : (visits.map Visit.vertex).Nodup
  ascending : visits.Pairwise fun earlier later => earlier.trail.length ≤ later.trail.length
  closed : ∀ visit ∈ visits, Covers next vertices visits visit

theorem Extends.mono {visits more : List (Visit α)} {visit : Visit α} (included : visits ⊆ more)
    (origin : Extends next vertices start visits visit) :
    Extends next vertices start more visit := by
  rcases origin with first | ⟨parent, member, leads, extended⟩
  · exact .inl first
  · exact .inr ⟨parent, included member, leads, extended⟩

theorem Covers.mono {visits more : List (Visit α)} {visit : Visit α} (included : visits ⊆ more)
    (covers : Covers next vertices visits visit) : Covers next vertices more visit := by
  intro vertex leads
  obtain ⟨other, member, same, near⟩ := covers vertex leads
  exact ⟨other, included member, same, near⟩

/-! ### The search -/

/-- What is true of a search between two rounds: `done` has been visited, and what follows is in
the queue or has been visited. -/
private structure Invariant (next : α → List α) (vertices : List α) (start : α)
    (done : List (Visit α)) (frontier : Frontier α) : Prop where
  begins : (done ++ frontier.queue).head? = some ⟨start, []⟩
  origin : ∀ visit ∈ done ++ frontier.queue,
    Extends next vertices start (done ++ frontier.queue) visit
  distinct : ((done ++ frontier.queue).map Visit.vertex).Nodup
  ascending : (done ++ frontier.queue).Pairwise
    fun earlier later => earlier.trail.length ≤ later.trail.length
  unmet : ∀ vertex, vertex ∈ frontier.unmet ↔
    vertex ∈ vertices ∧ vertex ∉ (done ++ frontier.queue).map Visit.vertex
  /-- All that wait are about equally far away, so what is queued next belongs at the end. -/
  near : ∀ visit ∈ done ++ frontier.queue, ∀ waiting ∈ frontier.queue,
    visit.trail.length ≤ waiting.trail.length + 1
  closed : ∀ visit ∈ done, Covers next vertices (done ++ frontier.queue) visit

private theorem finish {done : List (Visit α)} {unmet : List α}
    (inv : Invariant next vertices start done ⟨unmet, []⟩) :
    Explores next vertices start done := by
  obtain ⟨begins, origin, distinct, ascending, -, -, closed⟩ := inv
  simp only [List.append_nil] at begins origin distinct ascending closed
  exact ⟨begins, origin, distinct, ascending, closed⟩

section Search

variable [DecidableEq α]

/-- Meeting the successors of a visit queues those that have not been met, each once. -/
theorem meet_eq (visit : Visit α) (frontier : Frontier α) (successors : List α) :
    ∃ fresh : List α, fresh.Nodup ∧
      (∀ vertex, vertex ∈ fresh ↔ vertex ∈ successors ∧ vertex ∈ frontier.unmet) ∧
      (meet visit frontier successors).queue = frontier.queue ++ fresh.map visit.extend ∧
      ∀ vertex, vertex ∈ (meet visit frontier successors).unmet ↔
        vertex ∈ frontier.unmet ∧ vertex ∉ fresh := by
  fun_induction meet visit frontier successors with
  | case1 frontier => exact ⟨[], by simp⟩
  | case2 frontier successor rest unmet ih =>
    obtain ⟨fresh, distinct, exactly, queue, left⟩ := ih
    simp only [mem_without] at exactly left
    refine ⟨successor :: fresh, ?_, ?_, ?_, ?_⟩
    · exact List.nodup_cons.mpr ⟨fun member => ((exactly successor).mp member).2.2 rfl, distinct⟩
    · intro vertex
      by_cases same : vertex = successor <;> simp [exactly, same, unmet]
    · simp [queue]
    · intro vertex
      by_cases same : vertex = successor <;> simp [left, same]
  | case3 frontier successor rest met ih =>
    obtain ⟨fresh, distinct, exactly, queue, left⟩ := ih
    refine ⟨fresh, distinct, fun vertex => ?_, queue, left⟩
    by_cases same : vertex = successor <;> simp [exactly, same, met]

private theorem invariant_start :
    Invariant next vertices start [] ⟨without vertices start, [⟨start, []⟩]⟩ where
  begins := rfl
  origin visit member := .inl (by simpa using member)
  distinct := by simp
  ascending := by simp
  unmet := by simp [mem_without]
  near := by simp
  closed := by simp

private theorem advance {done queue : List (Visit α)} {unmet : List α} {visit : Visit α}
    (inv : Invariant next vertices start done ⟨unmet, visit :: queue⟩) :
    Invariant next vertices start (done ++ [visit])
      (meet visit ⟨unmet, queue⟩ (next visit.vertex)) := by
  obtain ⟨fresh, freshDistinct, exactly, queued, left⟩ :=
    meet_eq visit ⟨unmet, queue⟩ (next visit.vertex)
  have all : done ++ [visit] ++ (meet visit ⟨unmet, queue⟩ (next visit.vertex)).queue =
      (done ++ visit :: queue) ++ fresh.map visit.extend := by simp [queued]
  have included : done ++ visit :: queue ⊆ (done ++ visit :: queue) ++ fresh.map visit.extend :=
    List.subset_append_left _ _
  have isVisited : visit ∈ done ++ visit :: queue := by simp
  -- nothing that has been met is further away than what is queued now
  have farthest (other : Visit α) (member : other ∈ done ++ visit :: queue) :
      other.trail.length ≤ visit.trail.length + 1 :=
    inv.near other member visit List.mem_cons_self
  have length_extend (vertex : α) : (visit.extend vertex).trail.length = visit.trail.length + 1 :=
    rfl
  constructor
  · rw [all, List.head?_append_of_ne_nil _ (by simp)]
    exact inv.begins
  · rw [all]
    intro other member
    rcases List.mem_append.mp member with old | new
    · exact (inv.origin other old).mono included
    · obtain ⟨vertex, isFresh, rfl⟩ := List.mem_map.mp new
      obtain ⟨follows, notMet⟩ := (exactly vertex).mp isFresh
      exact .inr ⟨visit, included isVisited, ⟨follows, ((inv.unmet vertex).mp notMet).1⟩, rfl⟩
  · rw [all, List.map_append, List.map_map]
    refine List.nodup_append'.mpr ⟨inv.distinct, by simpa [Function.comp_def, Visit.extend], ?_⟩
    intro vertex old new
    obtain ⟨other, isFresh, rfl⟩ := List.mem_map.mp new
    exact ((inv.unmet _).mp ((exactly other).mp isFresh).2).2 old
  · rw [all]
    refine List.pairwise_append.mpr ⟨inv.ascending, ?_, ?_⟩
    · exact List.pairwise_map.mpr (List.pairwise_of_forall fun _ _ => Nat.le_refl _)
    · intro other member new isNew
      obtain ⟨vertex, -, rfl⟩ := List.mem_map.mp isNew
      exact farthest other member
  · rw [all]
    intro vertex
    rw [left, inv.unmet]
    simp only [List.map_append, List.mem_append, List.map_map, not_or, and_assoc]
    simp [Function.comp_def, Visit.extend]
  · rw [all, queued]
    intro other member waiting isWaiting
    have old (waiting : Visit α) (isOld : waiting ∈ queue) :
        visit.trail.length ≤ waiting.trail.length :=
      List.rel_of_pairwise_cons (List.pairwise_append.mp inv.ascending).2.1 isOld
    have bound : other.trail.length ≤ visit.trail.length + 1 := by
      rcases List.mem_append.mp member with isOld | isNew
      · exact farthest other isOld
      · obtain ⟨vertex, -, rfl⟩ := List.mem_map.mp isNew
        exact Nat.le_refl _
    rcases List.mem_append.mp isWaiting with isOld | isNew
    · have := old waiting isOld
      omega
    · obtain ⟨vertex, -, rfl⟩ := List.mem_map.mp isNew
      rw [length_extend]
      omega
  · rw [all]
    intro other member
    rcases List.mem_append.mp member with isOld | isLast
    · exact (inv.closed other isOld).mono included
    · rw [List.mem_singleton.mp isLast]
      intro vertex leads
      by_cases met : vertex ∈ (done ++ visit :: queue).map Visit.vertex
      · obtain ⟨other, isVisited, rfl⟩ := List.mem_map.mp met
        exact ⟨other, included isVisited, rfl, farthest other isVisited⟩
      · have isFresh := (exactly vertex).mpr ⟨leads.1, (inv.unmet vertex).mpr ⟨leads.2, met⟩⟩
        exact ⟨visit.extend vertex, List.mem_append_right _ (List.mem_map_of_mem isFresh), rfl,
          Nat.le_refl _⟩

private theorem explores_visitsFrom {done : List (Visit α)} {frontier : Frontier α}
    (inv : Invariant next vertices start done frontier) :
    Explores next vertices start (done ++ visitsFrom next frontier) := by
  fun_induction visitsFrom next frontier generalizing done with
  | case1 unmet => simpa using finish inv
  | case2 unmet visit queue ih => simpa using ih (advance inv)

theorem explores_visits (next : α → List α) (vertices : List α) (start : α) :
    Explores next vertices start (visits next vertices start) :=
  explores_visitsFrom invariant_start

end Search

/-! ### What is found -/

namespace Explores

variable {visits : List (Visit α)} (explores : Explores next vertices start visits)
include explores

theorem start_mem : ⟨start, []⟩ ∈ visits :=
  List.mem_of_head? explores.begins

theorem eq_of_vertex_eq {visit other : Visit α} (member : visit ∈ visits)
    (otherMember : other ∈ visits) (same : visit.vertex = other.vertex) : visit = other :=
  List.inj_on_of_nodup_map explores.distinct member otherMember same

/-- What is true of the first visit and of every visit that extends one of which it is true is true
of all visits. -/
theorem induction {motive : Visit α → Prop} (first : motive ⟨start, []⟩)
    (extend : ∀ parent ∈ visits, ∀ vertex, Leads next vertices parent.vertex vertex →
      parent.extend vertex ∈ visits → motive parent → motive (parent.extend vertex)) :
    ∀ visit ∈ visits, motive visit := by
  intro visit member
  induction length : visit.trail.length using Nat.strong_induction_on generalizing visit with
  | _ steps ih =>
    rcases explores.origin visit member with rfl | ⟨parent, isParent, leads, extended⟩
    · exact first
    · have shorter : parent.trail.length < steps := by
        rw [← length, extended]
        exact Nat.lt_succ_self _
      have isVisited : parent.extend visit.vertex ∈ visits := extended ▸ member
      rw [extended]
      exact extend parent isParent _ leads isVisited (ih _ shorter parent isParent rfl)

theorem mem_vertices_iff {vertex : α} : vertex ∈ visits.map Visit.vertex ↔
    Relation.ReflTransGen (Leads next vertices) start vertex := by
  constructor
  · intro visited
    obtain ⟨visit, member, rfl⟩ := List.mem_map.mp visited
    refine explores.induction (motive := fun visit =>
      Relation.ReflTransGen (Leads next vertices) start visit.vertex) .refl ?_ visit member
    exact fun parent _ vertex leads _ reached => reached.tail leads
  · intro reached
    induction reached with
    | refl => exact List.mem_map_of_mem explores.start_mem
    | tail _ leads ih =>
      obtain ⟨visit, member, rfl⟩ := List.mem_map.mp ih
      obtain ⟨other, otherMember, rfl, -⟩ := explores.closed visit member _ leads
      exact List.mem_map_of_mem otherMember

theorem isChain_path {visit : Visit α} (member : visit ∈ visits) :
    visit.path.IsChain (Leads next vertices) ∧ ∃ rest, visit.path = start :: rest := by
  refine explores.induction (motive := fun visit =>
    visit.path.IsChain (Leads next vertices) ∧ ∃ rest, visit.path = start :: rest)
    ⟨by simp [Visit.path], [], rfl⟩ ?_ visit member
  rintro parent - vertex leads - ⟨chain, rest, begins⟩
  have longer : (parent.extend vertex).path = parent.path ++ [vertex] := by
    simp [Visit.path, Visit.extend]
  rw [longer]
  refine ⟨List.isChain_append.mpr ⟨chain, by simp, ?_⟩, rest ++ [vertex], by simp [begins]⟩
  simpa [Visit.path] using leads

theorem nearer_of_mem_trail {visit : Visit α} (member : visit ∈ visits) :
    ∀ vertex ∈ visit.trail, ∃ earlier ∈ visits, earlier.vertex = vertex ∧
      earlier.trail.length < visit.trail.length := by
  refine explores.induction (motive := fun visit => ∀ vertex ∈ visit.trail,
    ∃ earlier ∈ visits, earlier.vertex = vertex ∧ earlier.trail.length < visit.trail.length)
    (by simp) ?_ visit member
  intro parent isParent _ _ _ ih vertex passed
  rcases List.mem_cons.mp passed with rfl | passed
  · exact ⟨parent, isParent, rfl, Nat.lt_succ_self _⟩
  · obtain ⟨earlier, isEarlier, same, shorter⟩ := ih vertex passed
    exact ⟨earlier, isEarlier, same, Nat.lt_succ_of_lt shorter⟩

theorem nodup_path {visit : Visit α} (member : visit ∈ visits) : visit.path.Nodup := by
  have fresh (visit : Visit α) (member : visit ∈ visits) : visit.vertex ∉ visit.trail := by
    intro passed
    obtain ⟨earlier, isEarlier, same, nearer⟩ :=
      explores.nearer_of_mem_trail member visit.vertex passed
    rw [explores.eq_of_vertex_eq isEarlier member same] at nearer
    exact Nat.lt_irrefl _ nearer
  refine explores.induction (motive := fun visit => visit.path.Nodup) (by simp [Visit.path]) ?_
    visit member
  intro parent _ vertex _ isVisited distinct
  exact List.nodup_reverse.mpr
    (List.nodup_cons.mpr ⟨fresh _ isVisited, List.nodup_reverse.mp distinct⟩)

/-- Wherever a way from the start ends, the search has come to, and not by a longer way. -/
theorem exists_of_isChain {walk : List α} (chain : (start :: walk).IsChain (Leads next vertices)) :
    ∃ visit ∈ visits, (start :: walk).getLast? = some visit.vertex ∧
      visit.trail.length ≤ walk.length := by
  induction walk using List.reverseRecOn with
  | nil => exact ⟨⟨start, []⟩, explores.start_mem, rfl, Nat.le_refl _⟩
  | append_singleton walk last ih =>
    rw [← List.cons_append, List.isChain_append] at chain
    obtain ⟨begins, -, joined⟩ := chain
    obtain ⟨other, isVisited, ends, near⟩ := ih begins
    obtain ⟨visit, member, rfl, nearToo⟩ := explores.closed other isVisited last (joined _ ends _ rfl)
    refine ⟨visit, member, ?_, ?_⟩
    · rw [← List.cons_append, List.getLast?_concat]
    · rw [List.length_append, List.length_singleton]
      omega

end Explores

section Reachable

variable [DecidableEq α]

/-- What is reachable from a start is everything but the start to which there is a way. -/
theorem mem_reachable_iff {vertex : α} : vertex ∈ reachable next vertices start ↔
    vertex ≠ start ∧ Relation.ReflTransGen (Leads next vertices) start vertex := by
  have explores := explores_visits next vertices start
  obtain ⟨rest, visits_eq⟩ := List.head?_eq_some_iff.mp explores.begins
  have distinct := explores.distinct
  rw [← explores.mem_vertices_iff, reachable]
  rw [visits_eq, List.map_cons] at distinct ⊢
  have notStart : start ∉ rest.map Visit.vertex := (List.nodup_cons.mp distinct).1
  rw [List.tail_cons, List.mem_cons]
  constructor
  · exact fun member => ⟨fun same => notStart (same ▸ member), .inr member⟩
  · rintro ⟨differs, same | member⟩
    · exact absurd same differs
    · exact member

theorem nodup_reachable (next : α → List α) (vertices : List α) (start : α) :
    (reachable next vertices start).Nodup := by
  have distinct := (explores_visits next vertices start).distinct
  rw [reachable, List.map_tail]
  exact distinct.tail

end Reachable

end BreadthFirst

end ReactorCausality
