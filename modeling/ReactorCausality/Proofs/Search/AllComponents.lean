import Mathlib.Data.List.Permutation
import ReactorCausality.Proofs.Search.Closing

/-!
The search for components is correct (`all_spec`). Its steps keep the invariant and come to an end, and
what has been met stays met. So when all vertices have been visited, every vertex is in a component that
has been found.
-/
namespace ReactorCausality

namespace Component

open BreadthFirst Relation

namespace Search

variable {count : Nat} {next : Nat → List Nat} {search : Search} {vertex : Nat}

/-! ### Steps and runs -/

namespace Invariant

variable (inv : Invariant count next search)
include inv

theorem step? {after : Search} (steps : search.step? next = some after) :
    Invariant count next after := by
  unfold Search.step? at steps
  split at steps
  · contradiction
  · next vertex successor rest below onWay => exact Option.some.inj steps ▸ inv.follow onWay
  · next vertex below onWay => exact Option.some.inj steps ▸ inv.leave onWay

theorem run : Invariant count next (search.run next) := by
  fun_induction Search.run next search with
  | case1 => exact inv
  | case2 search after steps ih => exact ih (inv.step? steps)

/-- With the way at its end, no vertex is open. -/
theorem stack_eq_nil (atEnd : search.frames = []) : search.stack = [] := by
  refine List.eq_nil_iff_forall_not_mem.mpr fun vertex isOpen => ?_
  obtain ⟨ahead, isAhead, -⟩ := inv.returns vertex isOpen
  simp [way, atEnd] at isAhead

end Invariant

theorem step?_eq_none_iff : search.step? next = none ↔ search.frames = [] := by
  unfold step?
  split <;> simp_all

theorem frames_run : (search.run next).frames = [] := by
  fun_induction run next search with
  | case1 search atEnd => exact step?_eq_none_iff.mp atEnd
  | case2 search after steps ih => exact ih

/-- What has been met stays met. -/
theorem isMet_of_step? {after : Search} (steps : search.step? next = some after)
    (isMet : search.IsMet vertex) : after.IsMet vertex := by
  unfold step? at steps
  split at steps
  · contradiction
  · cases steps
    unfold follow
    split
    · next isUnmet => exact (isMet_meet_iff _ (isUnmet_iff.mp isUnmet).1 _).mpr (.inr isMet)
    · split <;> exact isMet
  · cases steps
    rwa [IsMet, (leave_eq _ _).1]

theorem isMet_run (isMet : search.IsMet vertex) : (search.run next).IsMet vertex := by
  fun_induction run next search with
  | case1 => exact isMet
  | case2 search after steps ih => exact ih (isMet_of_step? steps isMet)

/-- A search that is at the end of its way. -/
structure IsDone (count : Nat) (next : Nat → List Nat) (search : Search) : Prop where
  invariant : Invariant count next search
  atEnd : search.frames = []

namespace IsDone

variable (isDone : IsDone count next search)
include isDone

theorem visit (root : Nat) : IsDone count next (search.visit next root) ∧
    (root < count → (search.visit next root).IsMet root) ∧
    ∀ vertex, search.IsMet vertex → (search.visit next root).IsMet vertex := by
  have unmet_iff : search.isUnmet root ↔ root < count ∧ ¬ search.IsMet root :=
    isDone.invariant.sizes.1 ▸ isUnmet_iff
  unfold Search.visit
  split
  · next isUnmet =>
    obtain ⟨less, isNew⟩ := unmet_iff.mp isUnmet
    have isMet_meet {vertex : Nat} := isMet_meet_iff next (isUnmet_iff.mp isUnmet).1 vertex
    have met : Invariant count next (search.meet next root) := by
      refine isDone.invariant.meet less isNew fun ahead isAhead => ?_
      simp [way, isDone.atEnd] at isAhead
    exact ⟨⟨met.run, frames_run⟩, fun _ => isMet_run (isMet_meet.mpr (.inl rfl)),
      fun vertex isMet => isMet_run (isMet_meet.mpr (.inr isMet))⟩
  · next isNotUnmet =>
    refine ⟨isDone, fun less => ?_, fun _ isMet => isMet⟩
    by_contra isNew
    exact isNotUnmet (unmet_iff.mpr ⟨less, isNew⟩)

theorem foldl_visit (roots : List Nat) : IsDone count next (roots.foldl (Search.visit next) search) ∧
    ∀ vertex, search.IsMet vertex ∨ vertex ∈ roots ∧ vertex < count →
      (roots.foldl (Search.visit next) search).IsMet vertex := by
  induction roots generalizing search with
  | nil => exact ⟨isDone, fun vertex isMet => isMet.resolve_right (by simp)⟩
  | cons root rest ih =>
    obtain ⟨visited, isMetRoot, isMetStill⟩ := isDone.visit root
    obtain ⟨done, isMet⟩ := ih visited
    refine ⟨done, fun vertex either => isMet vertex ?_⟩
    rcases either with isMetBefore | ⟨isRoot, less⟩
    · exact .inl (isMetStill vertex isMetBefore)
    · rcases List.mem_cons.mp isRoot with rfl | isLater
      · exact .inl (isMetRoot less)
      · exact .inr ⟨isLater, less⟩

end IsDone

end Search

/-! ### All components -/

variable (count : Nat) (next : Nat → List Nat)

theorem isDone_search : (search count next).IsDone count next :=
  (Search.IsDone.foldl_visit ⟨Search.invariant_start count next, rfl⟩ _).1

theorem stack_search : (search count next).stack = [] :=
  (isDone_search count next).invariant.stack_eq_nil (isDone_search count next).atEnd

/-- Every vertex is in what the search has found. -/
theorem mem_flatten_search_iff {vertex : Nat} :
    vertex ∈ (search count next).components.flatten ↔ vertex < count := by
  have inv := (isDone_search count next).invariant
  have isMet_iff : (search count next).IsMet vertex ↔
      vertex ∈ (search count next).components.flatten := by
    rw [inv.isMet, stack_search, List.mem_nil_iff, false_or]
  rw [← isMet_iff]
  refine ⟨inv.lt_of_isMet, fun less => ?_⟩
  exact (Search.IsDone.foldl_visit ⟨Search.invariant_start count next, rfl⟩ _).2 vertex
    (.inr ⟨List.mem_range.mpr less, less⟩)

variable {count next}

/-- Every vertex is in a component. -/
theorem exists_isComponent {vertex : Nat} (less : vertex < count) :
    ∃ members, IsComponent count next members ∧ vertex ∈ members := by
  obtain ⟨members, isListed, inside⟩ :=
    List.mem_flatten.mp ((mem_flatten_search_iff count next).mpr less)
  exact ⟨members, (isDone_search count next).invariant.listed.isComponent members isListed, inside⟩

/-- What is listed are the components. -/
theorem mem_all_iff {members : List Nat} :
    members ∈ all count next ↔ IsComponent count next members := by
  have listed := (isDone_search count next).invariant.listed
  rw [all, List.mem_reverse]
  refine ⟨listed.isComponent members, fun component => ?_⟩
  obtain ⟨vertex, inside⟩ := List.exists_mem_of_ne_nil members component.nonempty
  have less : vertex < count := ((component.exactly vertex inside vertex).mp inside).1
  obtain ⟨others, isListed, insideToo⟩ :=
    List.mem_flatten.mp ((mem_flatten_search_iff count next).mpr less)
  exact component.eq_of_mem (listed.isComponent others isListed) inside insideToo ▸ isListed

variable (count next)

theorem pairwise_disjoint_all : (all count next).Pairwise List.Disjoint := by
  rw [all, List.pairwise_reverse]
  refine (isDone_search count next).invariant.listed.pairwise_disjoint.imp ?_
  exact fun disjoint vertex inside insideToo => disjoint insideToo inside

/-- The components are a partition of the vertices. -/
theorem perm_flatten_all : (all count next).flatten.Perm (List.range count) := by
  have listed := (isDone_search count next).invariant.listed
  have reversed : (all count next).Perm (search count next).components := List.reverse_perm _
  refine reversed.flatten.trans ?_
  refine (List.perm_ext_iff_of_nodup listed.nodup_flatten List.nodup_range).mpr fun vertex => ?_
  rw [mem_flatten_search_iff, List.mem_range]

/-- An edge leads to a component that is listed no later. -/
theorem pairwise_not_leads_all : (all count next).Pairwise fun earlier later =>
    ∀ source ∈ earlier, ∀ target ∈ later, ¬ Leads next (List.range count) source target :=
  List.pairwise_reverse.mpr (isDone_search count next).invariant.listed.pairwise_not_leads

/-- No search goes on for ever. -/
theorem wellFounded_step? : WellFounded fun after before : Search =>
    before.step? next = some after := by
  refine Subrelation.wf (r := InvImage (Prod.Lex (· < ·) (· < ·))
    fun search : Search => (search.unmet, search.pending)) ?_ (InvImage.wf _ (WellFoundedRelation.wf))
  intro after before steps
  rcases Search.step?_descends steps with fewer | ⟨same, less⟩
  · exact Prod.Lex.left _ _ fewer
  · exact (Prod.lex_iff).mpr (.inr ⟨same, less⟩)

section Bounded

variable {count next} (bounded : ∀ vertex < count, ∀ successor ∈ next vertex, successor < count)
include bounded

theorem reflTransGen_leads_iff {source target : Nat} (less : source < count) :
    ReflTransGen (Leads next (List.range count)) source target ↔
      ReflTransGen (fun vertex successor => successor ∈ next vertex) source target := by
  refine ⟨fun reaches => ReflTransGen.mono (fun _ _ leads => leads.1) _ _ reaches, fun reaches => ?_⟩
  have both : ReflTransGen (Leads next (List.range count)) source target ∧ target < count := by
    induction reaches with
    | refl => exact ⟨.refl, less⟩
    | tail _ isEdge ih =>
      have isLess := bounded _ ih.2 _ isEdge
      exact ⟨ih.1.tail ⟨isEdge, List.mem_range.mpr isLess⟩, isLess⟩
  exact both.1

theorem exists_mem_all_iff {vertex other : Nat} (less : vertex < count) (lessToo : other < count) :
    (∃ members ∈ all count next, vertex ∈ members ∧ other ∈ members) ↔
      ReflTransGen (fun vertex successor => successor ∈ next vertex) vertex other ∧
        ReflTransGen (fun vertex successor => successor ∈ next vertex) other vertex := by
  rw [← reflTransGen_leads_iff bounded less, ← reflTransGen_leads_iff bounded lessToo]
  constructor
  · rintro ⟨members, isListed, inside, insideToo⟩
    exact (((mem_all_iff.mp isListed).exactly vertex inside other).mp insideToo).2
  · intro linked
    obtain ⟨members, component, inside⟩ := exists_isComponent less
    exact ⟨members, mem_all_iff.mpr component, inside,
      (component.exactly vertex inside other).mpr ⟨lessToo, linked⟩⟩

/-- For every graph whose edges stay below the bound, the search comes to its end with no vertex open.
What it has found is a partition of the vertices into ascending lists, two vertices are in one list if
each can be reached from the other, and an edge between two lists leads to the one listed earlier. -/
theorem all_spec :
    WellFounded (fun after before : Search => before.step? next = some after) ∧
    ((search count next).frames = [] ∧ (search count next).stack = []) ∧
    (all count next).flatten.Perm (List.range count) ∧
    (∀ members ∈ all count next, members ≠ [] ∧ members.Pairwise (· < ·)) ∧
    (∀ vertex < count, ∀ other < count,
      (∃ members ∈ all count next, vertex ∈ members ∧ other ∈ members) ↔
        ReflTransGen (fun vertex successor => successor ∈ next vertex) vertex other ∧
          ReflTransGen (fun vertex successor => successor ∈ next vertex) other vertex) ∧
    ∀ i (less : i < (all count next).length) j (lessToo : j < (all count next).length),
      ∀ source ∈ (all count next)[i], ∀ target ∈ (all count next)[j], target ∈ next source →
        i ≠ j → j < i := by
  refine ⟨wellFounded_step? next, ⟨(isDone_search count next).atEnd, stack_search count next⟩,
    perm_flatten_all count next, fun members isListed => ?_,
    fun vertex less other lessToo => exists_mem_all_iff bounded less lessToo, ?_⟩
  · have component := mem_all_iff.mp isListed
    exact ⟨component.nonempty, component.ascending⟩
  · intro i less j lessToo source isSource target isTarget isEdge differ
    by_contra notLess
    have later : i < j := by omega
    have component := mem_all_iff.mp (List.getElem_mem less)
    have sourceLess := ((component.exactly source isSource source).mp isSource).1
    have targetLess := bounded source sourceLess target isEdge
    exact List.pairwise_iff_getElem.mp (pairwise_not_leads_all count next) i j less lessToo later
      source isSource target isTarget ⟨isEdge, List.mem_range.mpr targetLess⟩

end Bounded

/-- Two vertices on a cycle with an edge that is there twice, and one behind them that leads to itself. -/
def cycleAndLoop : Nat → List Nat
  | 0 => [1, 1]
  | 1 => [0, 2]
  | 2 => [2]
  | _ => []

theorem all_cycleAndLoop :
    (∀ vertex < 3, ∀ successor ∈ cycleAndLoop vertex, successor < 3) ∧
      all 3 cycleAndLoop = [[2], [0, 1]] ∧
      ReflTransGen (fun vertex successor => successor ∈ cycleAndLoop vertex) 1 0 ∧
      ¬ (ReflTransGen (fun vertex successor => successor ∈ cycleAndLoop vertex) 0 2 ∧
        ReflTransGen (fun vertex successor => successor ∈ cycleAndLoop vertex) 2 0) := by
  have bounded : ∀ vertex < 3, ∀ successor ∈ cycleAndLoop vertex, successor < 3 := by decide
  have all_eq : all 3 cycleAndLoop = [[2], [0, 1]] := by cbv
  obtain ⟨-, -, -, -, share, -⟩ := all_spec bounded
  rw [all_eq] at share
  refine ⟨bounded, all_eq, ((share 0 (by decide) 1 (by decide)).mp (by simp)).2, fun both => ?_⟩
  have := (share 0 (by decide) 2 (by decide)).mpr both
  simp at this

end Component

end ReactorCausality
