import Mathlib.Data.Fintype.EquivFin
import ReactorCausality.Proofs.Federation.Inheritance
import ReactorCausality.Proofs.Index.Names

/-!
Assignments by hierarchical name. Such an assignment goes to every reactor with the name that has none by
its id, wherever it stands in the tree. So it does what an assignment of one of them by its id does exactly
if the others have assignments by their ids (`paths_mean_reactors`), as they have where there are no others.
-/
namespace ReactorCausality

namespace Partition

/-- Whatever federate a reactor is assigned to, its hierarchical name says the same as its id. -/
def PathMeans (partition : Partition) (index : Index) (program : Program) (reactor : Reactor) : Prop :=
  ∀ name, ∀ other ∈ program.reactors,
    (partition.assignPath (index.reactorName reactor.id) name).1.federateOf index other.id =
      (partition.assignReactor reactor.id name).1.federateOf index other.id

theorem assigned?_assignPath (partition : Partition) (index : Index) (path name : String)
    (reactor : ReactorId) :
    (partition.assignPath path name).1.assigned? index reactor =
      (partition.byReactor.lookup reactor).or
        (if index.reactorName reactor = path then some (partition.assignPath path name).2
          else partition.byPath.lookup (index.reactorName reactor)) := by
  obtain ⟨byReactor, byPath, -⟩ := federate_eq partition name
  simp only [assigned?, assignPath, lookup_put, byReactor, byPath]

/-- A reactor that is not a namesake, or is assigned by its id, does not notice the difference. -/
theorem assigned?_assignPath_eq {partition : Partition} {index : Index} {reactor other : ReactorId}
    (unassigned : partition.assigned? index reactor = none) (name : String)
    (only : index.reactorName other = index.reactorName reactor →
      other = reactor ∨ (partition.byReactor.lookup other).isSome) :
    (partition.assignPath (index.reactorName reactor) name).1.assigned? index other =
      (partition.assignReactor reactor name).1.assigned? index other := by
  rw [assigned?_assignPath, assigned?_assignReactor]
  by_cases isReactor : other = reactor
  · rw [isReactor, (Option.or_eq_none_iff.mp unassigned).1, if_pos rfl, if_pos rfl, Option.none_or]
    rfl
  · rw [if_neg isReactor, assigned?]
    by_cases namesake : index.reactorName other = index.reactorName reactor
    · obtain ⟨unit, byId⟩ := Option.isSome_iff_exists.mp ((only namesake).resolve_left isReactor)
      rw [byId, Option.some_or, Option.some_or]
    · rw [if_neg namesake]

theorem federate_of_notMem {partition : Partition} {name : String} (isNew : name ∉ partition.names) :
    (partition.federate name).2.number = partition.names.length := by
  rw [federate_number, numberOf, names_federate, if_neg isNew, List.idxOf_append_of_notMem isNew]
  simp

end Partition

namespace Index.Describes

variable {index : Index} {program : Program} (described : index.Describes program)
include described

section Lineage

variable {reactor other : Reactor} {above otherAbove : List Reactor}
  (lineage : program.Lineage reactor above) (another : program.Lineage other otherAbove)
include lineage another

theorem reactor_injective (same : other.id = reactor.id) : other = reactor := by
  have one : some (ReactorEntry.below otherAbove other) = some (.below above reactor) := by
    rw [← described.reactor?_eq lineage, ← described.reactor?_eq another, same]
  exact congrArg ReactorEntry.reactor (Option.some.inj one)

/-- What is above a reactor has a shorter name, so the way up does not lead to a namesake. -/
theorem eq_of_namesake_above (namesake : index.reactorName other.id = index.reactorName reactor.id)
    (isAbove : reactor.id ∈ (other :: otherAbove).map Reactor.id) : other = reactor := by
  obtain ⟨same, member, sameId⟩ := List.mem_map.mp isAbove
  rcases List.mem_cons.mp member with rfl | further
  · exact described.reactor_injective lineage another sameId
  · obtain ⟨sameAbove, sameLineage, shorter⟩ := another.exists_length_path_lt further
    rw [← described.reactorName_eq another, ← described.reactorName_eq sameLineage, namesake,
      sameId] at shorter
    exact absurd shorter (Nat.lt_irrefl _)

end Lineage

theorem pathMeans_of_namesakes {partition : Partition} {reactor : Reactor}
    (unassigned : partition.assigned? index reactor.id = none)
    (only : ∀ other ∈ program.reactors, index.reactorName other.id = index.reactorName reactor.id →
      other = reactor ∨ (partition.byReactor.lookup other.id).isSome) :
    partition.PathMeans index program reactor := by
  intro name other known
  obtain ⟨above, lineage⟩ := described.mem_program_reactors_iff.mp known
  rw [described.federateOf_eq lineage, described.federateOf_eq lineage, ← List.head?_filterMap,
    ← List.head?_filterMap, List.filterMap_congr fun id isAbove => ?_]
  obtain ⟨ancestor, onWay, rfl⟩ := List.mem_map.mp isAbove
  have ancestorKnown := described.mem_program_reactors_iff.mpr (lineage.exists_lineage_of_mem onWay)
  exact Partition.assigned?_assignPath_eq unassigned name fun namesake =>
    (only ancestor ancestorKnown namesake).imp_left (congrArg Reactor.id)

/-- A namesake that has no assignment by its id goes to a new federate with the name, but not with the
reactor. -/
theorem namesakes_of_pathMeans {partition : Partition} (built : partition.Built) {reactor : Reactor}
    (known : reactor ∈ program.reactors) (means : partition.PathMeans index program reactor)
    {other : Reactor} (otherKnown : other ∈ program.reactors)
    (namesake : index.reactorName other.id = index.reactorName reactor.id) :
    other = reactor ∨ (partition.byReactor.lookup other.id).isSome := by
  obtain ⟨above, lineage⟩ := described.mem_program_reactors_iff.mp known
  obtain ⟨otherAbove, another⟩ := described.mem_program_reactors_iff.mp otherKnown
  obtain ⟨fresh, isFresh⟩ := Infinite.exists_notMem_finset partition.names.toFinset
  have isNew : fresh ∉ partition.names := fun member => isFresh (List.mem_toFinset.mpr member)
  -- Under a new name the namesake would be with nobody else, while by the id it does not move at all.
  by_contra neither
  obtain ⟨differ, notById⟩ := not_or.mp neither
  rw [Option.not_isSome_iff_eq_none] at notById
  have goes : (partition.assignPath (index.reactorName reactor.id) fresh).1.federateOf index other.id =
      (partition.federate fresh).2 := by
    refine (described.followsTree _).nearest _ _ another other.id _ (.here _) ?_
    rw [Partition.assigned?_assignPath, notById, Option.none_or, if_pos namesake]
    rfl
  have stays := (described.moves partition reactor.id fresh).outside _ _ another fun leads =>
    differ (described.eq_of_namesake_above lineage another namesake leads.mem)
  have same := means fresh other otherKnown
  rw [goes, stays] at same
  have less := built.inBounds.federateOf_lt index other.id
  rw [← same, Partition.federate_of_notMem isNew] at less
  exact Nat.lt_irrefl _ less

end Index.Describes

/-- Where the names of siblings are apart, a hierarchical name is that of one reactor only. Anywhere, it
says the same as the id of an unassigned reactor exactly if all other reactors with the name have
assignments by their ids. -/
theorem paths_mean_reactors {program : Program} {index : Index}
    (accepted : Index.build program = .ok index) :
    (program.NamesApart → ∀ reactor ∈ program.reactors, ∀ other ∈ program.reactors,
      index.reactorName other.id = index.reactorName reactor.id → other = reactor) ∧
    ∀ partition : Partition, partition.Built → ∀ reactor ∈ program.reactors,
      partition.assigned? index reactor.id = none →
      (partition.PathMeans index program reactor ↔ ∀ other ∈ program.reactors,
        index.reactorName other.id = index.reactorName reactor.id →
        other = reactor ∨ (partition.byReactor.lookup other.id).isSome) := by
  have described := (Index.build_eq_ok_iff program index).mp accepted
  constructor
  · intro apart reactor known other otherKnown namesake
    obtain ⟨above, lineage⟩ := described.mem_program_reactors_iff.mp known
    obtain ⟨otherAbove, another⟩ := described.mem_program_reactors_iff.mp otherKnown
    rw [described.reactorName_eq lineage, described.reactorName_eq another] at namesake
    exact described.path_injective apart another lineage namesake
  · intro partition built reactor known unassigned
    exact ⟨fun means other => described.namesakes_of_pathMeans built known means,
      described.pathMeans_of_namesakes unassigned⟩

/-- No two names around the mailroom are the same, so its name says which reactor is meant. -/
theorem paths_mean_reactors_delivery : ∃ index, Index.build .delivery = .ok index ∧
    Program.delivery.NamesApart ∧ Reactor.mailroom ∈ Program.delivery.reactors ∧
    Partition.single.Built ∧ Partition.single.assigned? index ⟨1⟩ = none ∧
    Partition.single.PathMeans index .delivery .mailroom := by
  have accepted : Index.build .delivery = .ok (Index.survey .delivery).index := rfl
  have apart : Program.delivery.NamesApart := by
    apply Program.namesApart_of_undotted <;> decide
  have known : Reactor.mailroom ∈ Program.delivery.reactors := by decide
  have means := paths_mean_reactors accepted
  refine ⟨_, accepted, apart, known, .single, rfl, ?_⟩
  refine (means.2 .single .single .mailroom known rfl).mpr fun other otherKnown namesake => ?_
  exact .inl (means.1 apart _ known _ otherKnown namesake)

/-- One reactor stands beside another with its name, and beside one that is named as what is in it. -/
def Program.twins : Program where
  main :=
    { id := ⟨0⟩, name := "main"
      children := [
        { id := ⟨1⟩, name := "a", children := [{ id := ⟨2⟩, name := "b" }] },
        { id := ⟨3⟩, name := "a.b" },
        { id := ⟨4⟩, name := "a" }] }

/-- A program is accepted in which reactors share their hierarchical names, and an assignment by the name of
one reactor moves the other one too. -/
theorem paths_ambiguous_twins : ∃ index, Index.build .twins = .ok index ∧
    index.reactorName ⟨1⟩ = "main.a" ∧ index.reactorName ⟨4⟩ = "main.a" ∧
    index.reactorName ⟨2⟩ = "main.a.b" ∧ index.reactorName ⟨3⟩ = "main.a.b" ∧
    Partition.single.assigned? index ⟨1⟩ = none ∧
    (Partition.single.assignPath (index.reactorName ⟨1⟩) "f").1.federateOf index ⟨4⟩ = ⟨1⟩ ∧
    (Partition.single.assignReactor ⟨1⟩ "f").1.federateOf index ⟨4⟩ = ⟨0⟩ :=
  ⟨_, rfl, rfl, rfl, rfl, rfl, rfl, rfl, rfl⟩

end ReactorCausality
