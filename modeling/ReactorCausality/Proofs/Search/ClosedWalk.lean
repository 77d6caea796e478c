import ReactorCausality.Proofs.Search.BreadthFirst
import ReactorCausality.Search.ClosedWalk

/-!
The closed walk that is found is one, passes through no vertex twice, and is as short as any.
-/
namespace ReactorCausality

def Linked {α : Type} (step : α → α → Prop) (first second : α) : Prop :=
  Relation.ReflTransGen step first second ∧ Relation.ReflTransGen step second first

namespace Linked

variable {α : Type} {step : α → α → Prop} {first second third : α}

theorem trans (linked : Linked step first second) (more : Linked step second third) :
    Linked step first third :=
  ⟨linked.1.trans more.1, more.2.trans linked.2⟩

end Linked

namespace ClosedWalk

open BreadthFirst

variable {α : Type} {next : α → List α} {members : List α} {start : α}

/-- A walk that leaves a vertex and comes back to it. -/
structure IsClosed (step : α → α → Prop) (start : α) (walk : List α) : Prop where
  steps : walk.IsChain step
  returns : ∃ between, walk = start :: (between ++ [start])

/-! ### Closed walks -/

section Closed

variable {step : α → α → Prop} {walk : List α}

/-- A closed walk is one for every vertex on it. -/
theorem IsClosed.rotate {first : α} (closed : IsClosed step first walk) (passes : start ∈ walk) :
    ∃ other, IsClosed step start other ∧ other.length = walk.length := by
  by_cases same : start = first
  · exact ⟨walk, same ▸ closed, rfl⟩
  · obtain ⟨steps, between, rfl⟩ := closed
    obtain ⟨before, after, rfl⟩ : ∃ before after, between = before ++ start :: after :=
      List.append_of_mem (by simpa [same] using passes)
    have parts : (first :: (before ++ start :: after ++ [first])) =
        (first :: before) ++ start :: (after ++ [first]) := by simp
    rw [parts, List.isChain_split] at steps
    refine ⟨(start :: after) ++ first :: (before ++ [start]), ⟨?_, after ++ first :: before, ?_⟩, ?_⟩
    · exact List.isChain_split.mpr ⟨steps.2, steps.1⟩
    · simp
    · simp [Nat.add_comm, Nat.add_left_comm]

theorem exists_isClosed (reaches : Relation.TransGen step start start) :
    ∃ walk, IsClosed step start walk := by
  obtain ⟨last, there, back⟩ := Relation.TransGen.tail'_iff.mp reaches
  obtain ⟨between, chain, ends⟩ := List.exists_isChain_cons_of_relationReflTransGen there
  refine ⟨start :: (between ++ [start]), ?_, between, rfl⟩
  rw [← List.cons_append]
  refine List.isChain_append.mpr ⟨chain, by simp, ?_⟩
  intro source isLast target isStart
  rw [List.getLast?_eq_some_getLast (by simp), ends] at isLast
  cases isLast
  cases isStart
  exact back

theorem IsClosed.linked (closed : IsClosed step start walk) :
    ∀ vertex ∈ walk, Linked step start vertex := by
  obtain ⟨steps, between, rfl⟩ := closed
  intro vertex passes
  have ordered : (start :: (between ++ [start])).Pairwise (Relation.ReflTransGen step) :=
    (steps.imp fun _ _ => Relation.ReflTransGen.single).pairwise
  constructor
  · rcases List.mem_cons.mp passes with rfl | passes
    · exact .refl
    · exact List.rel_of_pairwise_cons ordered passes
  · rw [← List.cons_append] at passes ordered
    rcases List.mem_append.mp passes with passes | isLast
    · exact (List.pairwise_append.mp ordered).2.2 vertex passes start (by simp)
    · rw [List.mem_singleton.mp isLast]

end Closed

/-! ### The search -/

variable [DecidableEq α]

private theorem leads_inside : Leads
    (fun vertex => (next vertex).filter fun successor => successor ∈ members) members =
      Leads next members := by
  funext source target
  simp [Leads]

/-- From the vertex of a visit that leads back to the start, the way of the visit is closed. -/
theorem isClosed_path_concat {visit : Visit α}
    (visited : visit ∈ visits (fun vertex => (next vertex).filter fun successor =>
      successor ∈ members) members start)
    (returns : start ∈ (next visit.vertex).filter fun successor => successor ∈ members) :
    IsClosed (Leads next members) start (visit.path ++ [start]) := by
  have explores := explores_visits
    (fun vertex => (next vertex).filter fun successor => successor ∈ members) members start
  obtain ⟨chain, rest, begins⟩ := explores.isChain_path visited
  refine ⟨?_, rest, by simp [begins]⟩
  have last : visit.path.getLast? = some visit.vertex := by simp [Visit.path]
  rw [← leads_inside]
  refine List.isChain_append.mpr ⟨chain, by simp, ?_⟩
  intro source isLast target isStart
  cases last.symm.trans isLast
  cases isStart
  exact ⟨returns, by simpa using (List.mem_filter.mp returns).2⟩

/-- Where there is a closed walk, the one that is found passes through no vertex twice and is as
short as any. -/
theorem shortest_of_isClosed {walk : List α}
    (closed : IsClosed (Leads next members) start walk) :
    IsClosed (Leads next members) start (shortest next members start) ∧
      (shortest next members start).tail.Nodup ∧
      (shortest next members start).length ≤ walk.length := by
  let inside := fun vertex => (next vertex).filter fun successor => successor ∈ members
  have explores : Explores inside members start (visits inside members start) :=
    explores_visits inside members start
  obtain ⟨steps, between, rfl⟩ := closed
  rw [← List.cons_append, ← leads_inside, List.isChain_append] at steps
  obtain ⟨way, -, back⟩ := steps
  obtain ⟨visit, member, ends, near⟩ := explores.exists_of_isChain way
  have returns : start ∈ inside visit.vertex := (back _ ends _ rfl).1
  obtain ⟨found, isFirst⟩ : ∃ found, (visits inside members start).find?
      (fun visit => start ∈ inside visit.vertex) = some found := by
    rw [← Option.isSome_iff_exists, List.find?_isSome]
    exact ⟨visit, member, by simpa using returns⟩
  have shortest_eq : shortest next members start = found.path ++ [start] := by
    simp only [shortest]
    rw [isFirst]
  have isVisited := List.mem_of_find?_eq_some isFirst
  obtain ⟨-, rest, begins⟩ := explores.isChain_path isVisited
  have returnsToo : start ∈ inside found.vertex := by simpa using List.find?_some isFirst
  rw [shortest_eq]
  refine ⟨isClosed_path_concat isVisited returnsToo, ?_, ?_⟩
  · have distinct := explores.nodup_path isVisited
    rw [begins] at distinct ⊢
    rw [List.cons_append, List.tail_cons]
    exact (List.perm_append_singleton start rest).nodup_iff.mpr distinct
  · -- the search comes to no later visit on a shorter way
    obtain ⟨-, before, after, visits_eq, skipped⟩ := List.find?_eq_some_iff_append.mp isFirst
    have nearest : found.trail.length ≤ visit.trail.length := by
      rw [visits_eq] at member
      rcases List.mem_append.mp member with isEarlier | isLater
      · exact absurd returns (by simpa using skipped visit isEarlier)
      · rcases List.mem_cons.mp isLater with rfl | isLater
        · exact Nat.le_refl _
        · have ascending := visits_eq ▸ explores.ascending
          exact List.rel_of_pairwise_cons (List.pairwise_append.mp ascending).2.1 isLater
    simp only [Visit.path, List.length_append, List.length_reverse, List.length_cons,
      List.length_nil]
    omega

/-- Where there is no closed walk, the start is left alone. -/
theorem shortest_eq_singleton (none : ∀ walk, ¬ IsClosed (Leads next members) start walk) :
    shortest next members start = [start] := by
  simp only [shortest]
  split
  · next found isFirst =>
    have closed := isClosed_path_concat (List.mem_of_find?_eq_some isFirst)
      (by simpa using List.find?_some isFirst)
    exact absurd closed (none _)
  · rfl

end ClosedWalk

end ReactorCausality
