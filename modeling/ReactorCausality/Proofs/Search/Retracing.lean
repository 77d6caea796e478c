import Mathlib.Data.PFun
import ReactorCausality.Proofs.Search.ClosedWalk

/-!
Closed walks retraced. A search need not keep the ways by which it comes to the vertices: it is enough to
remember from which vertex it met each, and to go back from there when it meets the start again. Going back
ends at the start and never comes to a vertex of which nothing is remembered, whatever the order of the
successors and however often one is named, and the closed walk is the same (`close_eq`). It is a shortest
one, and where there is none the start is left alone (`closes_shortest`).
-/
namespace ReactorCausality

namespace ClosedWalk

open BreadthFirst

/-- What has been seen, from where each seen vertex but the start was met, and the vertices whose
successors are still to be met. -/
structure Search (α : Type) where
  seen : List α
  parents : List (α × α)
  queue : List α

namespace Search

variable {α : Type} [DecidableEq α]

def ofStart (start : α) : Search α :=
  ⟨[start], [], [start]⟩

/-- Meets the successors of a vertex in order, and says whether it has met the start, behind which it meets
no more. -/
def meet (members : List α) (start vertex : α) (search : Search α) : List α → Search α × Bool
  | [] => (search, false)
  | successor :: rest =>
    if successor ∉ members then meet members start vertex search rest
    else if successor = start then (search, true)
    else if successor ∈ search.seen then meet members start vertex search rest
    else
      meet members start vertex
        ⟨successor :: search.seen, (successor, vertex) :: search.parents,
          search.queue ++ [successor]⟩ rest

/-- Goes back from a vertex to the start, for the walk that leads from there over the vertex and on. There is
none if a vertex on the way back was met from nowhere, or if going back does not end. -/
def retrace (parents : List (α × α)) (start : α) : α × List α →. List α :=
  PFun.fix fun (vertex, walk) =>
    if vertex = start then .some (.inl (start :: walk))
    else (parents.lookup vertex : Part α).map fun parent => .inr (parent, vertex :: walk)

/-- The closed walk that is found, or the start alone when nothing is left in the queue. There is none if
the search does not end, or if the walk cannot be retraced. -/
def close (next : α → List α) (members : List α) (start : α) : Search α →. List α :=
  PFun.fix fun search =>
    match search.queue with
    | [] => .some (.inl [start])
    | vertex :: queue =>
      let (after, returns) := meet members start vertex { search with queue } (next vertex)
      if returns then (retrace after.parents start (vertex, [start])).map .inl
      else .some (.inr after)

/-! ### What is remembered -/

/-- Whatever is on the way of a visit was met from what is before it there. -/
def Records (search : Search α) (visit : Visit α) : Prop :=
  (visit.vertex :: visit.trail).IsChain fun vertex parent =>
    vertex ∈ search.seen ∧ search.parents.lookup vertex = some parent

/-- The search stands where one inside the members stands that keeps the ways. -/
structure Mirrors (members : List α) (frontier : Frontier α) (search : Search α) : Prop where
  seen : ∀ vertex ∈ members, vertex ∈ frontier.unmet ↔ vertex ∉ search.seen
  queue : search.queue = frontier.queue.map Visit.vertex
  records : ∀ visit ∈ frontier.queue, search.Records visit

variable {next : α → List α} {members : List α} {start : α}

/-- What is met later is no vertex on a way that is remembered. -/
theorem Records.push {search : Search α} {visit : Visit α} (records : search.Records visit)
    {successor : α} (fresh : successor ∉ search.seen) (vertex : α) (queue : List α) :
    Records ⟨successor :: search.seen, (successor, vertex) :: search.parents, queue⟩ visit := by
  refine List.IsChain.imp ?_ records
  rintro met parent ⟨isSeen, isParent⟩
  have differs : met ≠ successor := fun same => fresh (same ▸ isSeen)
  refine ⟨List.mem_cons_of_mem _ isSeen, ?_⟩
  rw [List.lookup_cons, beq_eq_false_iff_ne.mpr differs]
  exact isParent

/-- A search meets the start exactly if the start is a successor, and else it stands again where the other
stands. -/
theorem mirrors_meet {frontier : Frontier α} {search : Search α} {visit : Visit α}
    (mirrors : Mirrors members frontier search) (records : search.Records visit) (start : α)
    (successors : List α) :
    (start ∈ successors.filter (· ∈ members) ∧
      ∃ after, meet members start visit.vertex search successors = (after, true) ∧
        after.Records visit) ∨
    (start ∉ successors.filter (· ∈ members) ∧
      ∃ after, meet members start visit.vertex search successors = (after, false) ∧
        Mirrors members (BreadthFirst.meet visit frontier (successors.filter (· ∈ members))) after) := by
  induction successors generalizing frontier search with
  | nil => exact .inr ⟨by simp, search, rfl, mirrors⟩
  | cons successor rest ih =>
    by_cases inside : successor ∈ members
    · have filtered : (successor :: rest).filter (· ∈ members) =
          successor :: rest.filter (· ∈ members) := by simp [inside]
      rw [meet, if_neg (not_not.mpr inside), filtered, BreadthFirst.meet]
      by_cases isStart : successor = start
      · rw [if_pos isStart]
        exact .inl ⟨List.mem_cons.mpr (.inl isStart.symm), search, rfl, records⟩
      · rw [if_neg isStart, List.mem_cons, or_iff_right (Ne.symm isStart)]
        by_cases isSeen : successor ∈ search.seen
        · have met := (mirrors.seen successor inside).not.mpr (not_not.mpr isSeen)
          rw [if_pos isSeen, if_neg met]
          exact ih mirrors records
        · rw [if_neg isSeen, if_pos ((mirrors.seen successor inside).mpr isSeen)]
          refine ih ⟨fun vertex member => ?_, ?_, ?_⟩ (records.push isSeen _ _)
          · rw [mem_without, mirrors.seen vertex member, List.mem_cons, not_or, and_comm]
          · simp [mirrors.queue, Visit.extend]
          · intro queued member
            rcases List.mem_append.mp member with old | new
            · exact (mirrors.records queued old).push isSeen _ _
            · rw [List.mem_singleton.mp new]
              exact .cons_cons ⟨List.mem_cons_self, List.lookup_cons_self⟩ (records.push isSeen _ _)
    · have filtered : (successor :: rest).filter (· ∈ members) = rest.filter (· ∈ members) := by
        simp [inside]
      rw [meet, if_pos inside, filtered]
      exact ih mirrors records

/-- Going back from a visit leads along its way, since the start is met nowhere else on it. -/
theorem retrace_eq {search : Search α} {visit : Visit α} (records : search.Records visit)
    (distinct : visit.path.Nodup) (begins : ∃ rest, visit.path = start :: rest) (walk : List α) :
    retrace search.parents start (visit.vertex, walk) = .some (visit.path ++ walk) := by
  obtain ⟨vertex, trail⟩ := visit
  induction trail generalizing vertex walk with
  | nil =>
    obtain ⟨rest, begins⟩ := begins
    obtain ⟨rfl, -⟩ := List.cons.inj begins
    refine Part.eq_some_iff.mpr (PFun.fix_stop ?_)
    simp [Visit.path]
  | cons parent trail ih =>
    have path_eq : Visit.path ⟨vertex, parent :: trail⟩ = Visit.path ⟨parent, trail⟩ ++ [vertex] := by
      simp [Visit.path]
    obtain ⟨⟨-, isParent⟩, records⟩ := List.isChain_cons_cons.mp records
    rw [path_eq] at distinct begins ⊢
    obtain ⟨distinct, -, apart⟩ := List.nodup_append'.mp distinct
    have begins : ∃ rest, Visit.path ⟨parent, trail⟩ = start :: rest := by
      obtain ⟨rest, begins⟩ := begins
      have first := congrArg List.head? begins
      rw [List.head?_append_of_ne_nil _ (by simp [Visit.path])] at first
      exact List.head?_eq_some_iff.mp first
    have isLater : vertex ≠ start := by
      obtain ⟨rest, begins⟩ := begins
      rintro rfl
      exact apart (begins ▸ List.mem_cons_self) List.mem_cons_self
    have goesBack : retrace search.parents start (vertex, walk) =
        retrace search.parents start (parent, vertex :: walk) :=
      PFun.fix_fwd_eq (by simp [isLater, isParent])
    rw [goesBack, ih _ parent records distinct begins, List.append_assoc]
    rfl

/-- The search ends, finds what it remembers, and gives the closed walk back that leads over the first visit
from which the start can be reached. -/
theorem close_of_mirrors {frontier : Frontier α} {search : Search α}
    (mirrors : Mirrors members frontier search)
    (ways : ∀ visit ∈ visitsFrom (fun vertex => (next vertex).filter (· ∈ members)) frontier,
      visit.path.Nodup ∧ ∃ rest, visit.path = start :: rest) :
    close next members start search =
      .some (match (visitsFrom (fun vertex => (next vertex).filter (· ∈ members)) frontier).find?
          fun visit => start ∈ (next visit.vertex).filter (· ∈ members) with
        | some visit => visit.path ++ [start]
        | none => [start]) := by
  fun_induction visitsFrom (fun vertex => (next vertex).filter (· ∈ members)) frontier
    generalizing search with
  | case1 unmet =>
    refine Part.eq_some_iff.mpr (PFun.fix_stop ?_)
    simp [mirrors.queue]
  | case2 unmet visit queue ih =>
    obtain ⟨⟨distinct, begins⟩, others⟩ := List.forall_mem_cons.mp ways
    have popped : Mirrors members ⟨unmet, queue⟩ { search with queue := queue.map Visit.vertex } :=
      ⟨mirrors.seen, rfl, fun other member => mirrors.records other (List.mem_cons_of_mem _ member)⟩
    rcases mirrors_meet popped (mirrors.records visit List.mem_cons_self) start (next visit.vertex) with
      ⟨returns, after, meets, records⟩ | ⟨returns, after, meets, stands⟩
    · rw [List.find?_cons_of_pos (by simpa using returns)]
      refine Part.eq_some_iff.mpr (PFun.fix_stop ?_)
      simp [mirrors.queue, meets, retrace_eq records distinct begins]
    · rw [List.find?_cons_of_neg (by simpa using returns), ← ih stands others]
      exact PFun.fix_fwd_eq (by simp [mirrors.queue, meets])

theorem close_eq (next : α → List α) (members : List α) (start : α) :
    close next members start (.ofStart start) = .some (shortest next members start) := by
  have explores := explores_visits (fun vertex => (next vertex).filter (· ∈ members)) members start
  refine close_of_mirrors ⟨?_, rfl, ?_⟩ fun visit member => ?_
  · simp +contextual [mem_without, ofStart]
  · simp [Records]
  · obtain ⟨-, begins⟩ := explores.isChain_path member
    exact ⟨explores.nodup_path member, begins⟩

end Search

variable {α : Type}

/-- A closed walk inside the members on which no vertex but the start is met twice, as short as any. -/
structure IsShortest (next : α → List α) (members : List α) (start : α) (walk : List α) : Prop where
  closed : IsClosed (Leads next members) start walk
  inside : ∀ vertex ∈ walk, vertex ∈ members
  distinct : walk.tail.Nodup
  shortest : ∀ other, IsClosed (Leads next members) start other → walk.length ≤ other.length

theorem IsClosed.mem_members {next : α → List α} {members walk : List α} {start : α}
    (closed : IsClosed (Leads next members) start walk) : ∀ vertex ∈ walk, vertex ∈ members := by
  obtain ⟨steps, between, rfl⟩ := closed
  have later : ∀ vertex ∈ between ++ [start], vertex ∈ members := by
    intro vertex passes
    obtain ⟨front, rest, split⟩ := List.append_of_mem passes
    rw [split, ← List.cons_append] at steps
    obtain ⟨-, -, joined⟩ := List.isChain_append.mp steps
    exact (joined _ (List.getLast?_eq_some_getLast (List.cons_ne_nil _ _)) vertex rfl).2
  intro vertex passes
  rcases List.mem_cons.mp passes with rfl | passes
  · exact later vertex (by simp)
  · exact later vertex passes

variable [DecidableEq α]

/-- A search that retraces its closed walk ends, and never misses what it goes back by. The walk is a
shortest one where there is any, and else it is the start alone. -/
theorem closes_shortest (next : α → List α) (members : List α) (start : α) :
    Search.close next members start (.ofStart start) = .some (shortest next members start) ∧
    ((∃ walk, IsClosed (Leads next members) start walk) →
      IsShortest next members start (shortest next members start)) ∧
    ((∀ walk, ¬ IsClosed (Leads next members) start walk) →
      shortest next members start = [start]) := by
  refine ⟨Search.close_eq next members start, ?_, shortest_eq_singleton⟩
  rintro ⟨walk, closed⟩
  obtain ⟨isClosed, distinct, -⟩ := shortest_of_isClosed closed
  exact ⟨isClosed, isClosed.mem_members, distinct, fun _ other => (shortest_of_isClosed other).2.2⟩

/-- Four vertices stand in a circle with loops, doubled edges and a shortcut, and a fifth is led to by none.
The search takes the shortcut back to the first vertex and leaves the fifth alone. -/
theorem closes_shortest_shortcut :
    let next := fun vertex : Nat =>
      if vertex = 3 then [3, 0] else if vertex = 2 then [3, 2, 3] else [1, 1, 2]
    Search.close next [4, 3, 2, 1, 0] 0 (.ofStart 0) = .some [0, 2, 3, 0] ∧
      IsShortest next [4, 3, 2, 1, 0] 0 [0, 2, 3, 0] ∧
      Search.close next [4, 3, 2, 1, 0] 4 (.ofStart 4) = .some [4] := by
  intro next
  obtain ⟨found, isShortest, -⟩ := closes_shortest next [4, 3, 2, 1, 0] 0
  obtain ⟨alone, -, isAlone⟩ := closes_shortest next [4, 3, 2, 1, 0] 4
  have walk_eq : shortest next [4, 3, 2, 1, 0] 0 = [0, 2, 3, 0] := by decide +kernel
  have closed : IsClosed (Leads next [4, 3, 2, 1, 0]) 0 [0, 2, 3, 0] := by
    refine ⟨?_, [2, 3], rfl⟩
    simp [Leads, next]
  have unreached (walk : List Nat) : ¬ IsClosed (Leads next [4, 3, 2, 1, 0]) 4 walk := by
    rintro ⟨steps, between, rfl⟩
    rw [← List.cons_append] at steps
    obtain ⟨-, -, joined⟩ := List.isChain_append.mp steps
    obtain ⟨leads, -⟩ := joined _ (List.getLast?_eq_some_getLast (List.cons_ne_nil _ _)) 4 rfl
    dsimp only [next] at leads
    split_ifs at leads <;> simp at leads
  rw [walk_eq] at found isShortest
  rw [isAlone unreached] at alone
  exact ⟨found, isShortest ⟨_, closed⟩, alone⟩

end ClosedWalk

end ReactorCausality
