import Mathlib.Logic.Relation
import ReactorCausality.Proofs.Index.Contents

/-!
The tree that an index lays out. One entry contains another if the reactor of the other is a child
of its own, and the entries of an index are those that the main reactor leads to from container to
contained. So the parents in the index of a program without repeated ids are the reactors of the
tree that have the children.
-/
namespace ReactorCausality

open Relation

namespace Reactor

theorem sizeOf_lt_of_mem_children {reactor child : Reactor} (isChild : child ∈ reactor.children) :
    sizeOf child < sizeOf reactor := by
  have smaller := List.sizeOf_lt_of_mem isChild
  cases reactor
  simp only [Reactor.mk.sizeOf_spec] at smaller ⊢
  omega

/-- What a reactor has if all its children have it is what every reactor has. -/
@[elab_as_elim]
theorem induction_on_children {motive : Reactor → Prop} (reactor : Reactor)
    (step : ∀ reactor, (∀ child ∈ reactor.children, motive child) → motive reactor) :
    motive reactor :=
  step reactor fun child _ => induction_on_children child step
termination_by reactor
decreasing_by exact sizeOf_lt_of_mem_children ‹_›

theorem entriesAll_eq_flatMap (parent : ReactorId) (depth : Nat) (path : String)
    (reactors : List Reactor) :
    entriesAll parent depth path reactors =
      reactors.flatMap fun child =>
        child.entries (some parent) depth s!"{path}.{child.name}" := by
  induction reactors with
  | nil => simp [entriesAll]
  | cons child rest ih => simp [entriesAll, ih]

end Reactor

namespace ReactorEntry

def ofMain (program : Program) : ReactorEntry :=
  ⟨program.main, none, 0, program.main.name⟩

/-- The entry of a child of the reactor. -/
def ofChild (entry : ReactorEntry) (child : Reactor) : ReactorEntry :=
  ⟨child, some entry.reactor.id, entry.depth + 1, s!"{entry.name}.{child.name}"⟩

def Contains (entry other : ReactorEntry) : Prop :=
  ∃ child ∈ entry.reactor.children, other = entry.ofChild child

theorem Contains.depth {entry other : ReactorEntry} (contains : entry.Contains other) :
    other.depth = entry.depth + 1 := by
  obtain ⟨child, -, rfl⟩ := contains
  rfl

theorem Contains.parent {entry other : ReactorEntry} (contains : entry.Contains other) :
    other.parent = some entry.reactor.id := by
  obtain ⟨child, -, rfl⟩ := contains
  rfl

/-- The entry and those of everything below its reactor. -/
def subtree (entry : ReactorEntry) : List ReactorEntry :=
  entry.reactor.entries entry.parent entry.depth entry.name

theorem subtree_eq (entry : ReactorEntry) :
    entry.subtree = entry :: entry.reactor.children.flatMap fun child =>
      (entry.ofChild child).subtree := by
  obtain ⟨⟨id, name, ports, reactions, connections, children, modes, mode⟩, parent, depth, path⟩ :=
    entry
  simp [subtree, ofChild, Reactor.entries, Reactor.entriesAll_eq_flatMap]

theorem mem_subtree_iff_eq_or_contains {entry other : ReactorEntry} : other ∈ entry.subtree ↔
    other = entry ∨ ∃ below, entry.Contains below ∧ other ∈ below.subtree := by
  rw [subtree_eq, List.mem_cons, List.mem_flatMap]
  refine or_congr_right ?_
  constructor
  · rintro ⟨child, listed, inside⟩
    exact ⟨entry.ofChild child, ⟨child, listed, rfl⟩, inside⟩
  · rintro ⟨_, ⟨child, listed, rfl⟩, inside⟩
    exact ⟨child, listed, inside⟩

theorem mem_subtree_iff {entry other : ReactorEntry} :
    other ∈ entry.subtree ↔ ReflTransGen Contains entry other := by
  constructor
  · intro inside
    obtain ⟨reactor, parent, depth, name⟩ := entry
    induction reactor using Reactor.induction_on_children generalizing parent depth name with
    | step reactor ih =>
      rcases mem_subtree_iff_eq_or_contains.mp inside with rfl | ⟨_, contains, further⟩
      · exact .refl
      · obtain ⟨child, listed, rfl⟩ := contains
        exact .head ⟨child, listed, rfl⟩ (ih child listed _ _ _ further)
  · intro leads
    induction leads using ReflTransGen.head_induction_on with
    | refl => exact mem_subtree_iff_eq_or_contains.mpr (.inl rfl)
    | head contains _ ih => exact mem_subtree_iff_eq_or_contains.mpr (.inr ⟨_, contains, ih⟩)

end ReactorEntry

namespace Index

variable {index : Index} {program : Program} {entry other : ReactorEntry}

/-- Equal ids of reactors are those of one entry. -/
theorem DistinctIds.entry_injective (distinct : index.DistinctIds) (listed : entry ∈ index.reactors)
    (otherListed : other ∈ index.reactors) (same : entry.reactor.id = other.reactor.id) :
    entry = other :=
  List.inj_on_of_nodup_map distinct.reactors listed otherListed same

namespace LaysOut

variable (laidOut : index.LaysOut program)
include laidOut

theorem reactors_eq_subtree : index.reactors = (ReactorEntry.ofMain program).subtree :=
  laidOut.reactors

theorem mem_reactors_iff :
    entry ∈ index.reactors ↔ ReflTransGen ReactorEntry.Contains (.ofMain program) entry := by
  rw [laidOut.reactors_eq_subtree, ReactorEntry.mem_subtree_iff]

theorem mem_reactors_of_contains (listed : entry ∈ index.reactors)
    (contains : entry.Contains other) : other ∈ index.reactors :=
  laidOut.mem_reactors_iff.mpr ((laidOut.mem_reactors_iff.mp listed).tail contains)

theorem exists_contains_of_parent (listed : other ∈ index.reactors) {id : ReactorId}
    (parent : other.parent = some id) :
    ∃ entry ∈ index.reactors, entry.Contains other ∧ entry.reactor.id = id := by
  rcases (laidOut.mem_reactors_iff.mp listed).cases_tail with rfl | ⟨entry, leads, contains⟩
  · contradiction
  · rw [contains.parent, Option.some.injEq] at parent
    exact ⟨entry, laidOut.mem_reactors_iff.mpr leads, contains, parent⟩

/-- The parent in the index is the reactor that has the child. -/
theorem parent?_eq_some_iff (distinct : index.DistinctIds) (listed : entry ∈ index.reactors)
    (otherListed : other ∈ index.reactors) :
    index.parent? other.reactor.id = some entry.reactor.id ↔ entry.Contains other := by
  rw [parent?, distinct.reactor?_of_mem otherListed, Option.bind_some]
  constructor
  · intro parent
    obtain ⟨container, containerListed, contains, same⟩ :=
      laidOut.exists_contains_of_parent otherListed parent
    rwa [← distinct.entry_injective containerListed listed same]
  · exact ReactorEntry.Contains.parent

/-- A child lies deeper than its container, so it is another reactor and has another id. -/
theorem id_ne_of_contains (distinct : index.DistinctIds) (listed : entry ∈ index.reactors)
    (contains : entry.Contains other) : other.reactor.id ≠ entry.reactor.id := by
  intro same
  have one := distinct.entry_injective (laidOut.mem_reactors_of_contains listed contains) listed same
  have deeper := contains.depth
  rw [one] at deeper
  omega

end LaysOut

end Index

end ReactorCausality
