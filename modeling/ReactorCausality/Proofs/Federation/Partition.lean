import ReactorCausality.Federation.Partition

/-!
Partitions that are made step by step, by naming federates and assigning reactors to them. Every
number that such a partition has given out is the position of a name (`Built.inBounds`), so every
reactor belongs to a federate with a name (`InBounds.federateOf_lt`).
-/
namespace ReactorCausality

namespace Partition

/-- Partitions that are made from the one with a single federate. -/
inductive Built : Partition → Prop where
  | single : Built single
  | federate {partition : Partition} (built : Built partition) (name : String) :
      Built (partition.federate name).1
  | assignReactor {partition : Partition} (built : Built partition) (reactor : ReactorId)
      (name : String) : Built (partition.assignReactor reactor name).1
  | assignPath {partition : Partition} (built : Built partition) (path name : String) :
      Built (partition.assignPath path name).1

/-- Every number in use is the position of a name, and so is the one of the default federate. -/
structure InBounds (partition : Partition) : Prop where
  named : 0 < partition.names.length
  byReactor : ∀ pair ∈ partition.byReactor, pair.2.number < partition.names.length
  byPath : ∀ pair ∈ partition.byPath, pair.2.number < partition.names.length

theorem mem_of_lookup {κ ν : Type} [DecidableEq κ] {pairs : List (κ × ν)} {key : κ} {value : ν}
    (found : pairs.lookup key = some value) : (key, value) ∈ pairs := by
  obtain ⟨before, after, rfl, -⟩ := List.lookup_eq_some_iff.mp found
  simp

theorem mem_put_iff {κ ν : Type} [DecidableEq κ] {pairs : List (κ × ν)} {key : κ} {value : ν}
    {pair : κ × ν} :
    pair ∈ put pairs key value ↔ pair ∈ pairs ∧ pair.1 ≠ key ∨ pair = (key, value) := by
  simp [put]

theorem mem_put {κ ν : Type} [DecidableEq κ] {pairs : List (κ × ν)} {key : κ} {value : ν}
    {pair : κ × ν} (member : pair ∈ put pairs key value) : pair ∈ pairs ∨ pair = (key, value) :=
  (mem_put_iff.mp member).imp_left And.left

/-- Naming a federate assigns nothing, and it forgets no name. -/
theorem federate_eq (partition : Partition) (name : String) :
    (partition.federate name).1.byReactor = partition.byReactor ∧
      (partition.federate name).1.byPath = partition.byPath ∧
      partition.names.length ≤ (partition.federate name).1.names.length := by
  rw [federate]
  split <;> simp

theorem number_federate_lt (partition : Partition) (name : String) :
    (partition.federate name).2.number < (partition.federate name).1.names.length := by
  rw [federate]
  split
  · next position found =>
    obtain ⟨less, -⟩ := List.idxOf?_eq_some_iff.mp found
    exact less
  · simp

/-- A partition is valid if every assignment names a reactor of the program. -/
theorem problems_eq_nil_iff {partition : Partition} {index : Index} : partition.problems index = [] ↔
    (∀ pair ∈ partition.byReactor, (index.reactor? pair.1).isSome) ∧
      ∀ pair ∈ partition.byPath, ∃ entry ∈ index.reactors, entry.name = pair.1 := by
  have sorted {α : Type} (list : List α) (le : α → α → Bool) : list.mergeSort le = [] ↔ list = [] := by
    rw [← List.length_eq_zero_iff, List.length_mergeSort, List.length_eq_zero_iff]
  rw [problems, List.append_eq_nil_iff, List.map_eq_nil_iff, List.map_eq_nil_iff, sorted, sorted]
  simp [List.filter_eq_nil_iff, Option.isSome_iff_ne_none]

namespace InBounds

variable {partition : Partition} (inBounds : partition.InBounds)
include inBounds

theorem federate (name : String) : (partition.federate name).1.InBounds := by
  obtain ⟨byReactor, byPath, grows⟩ := federate_eq partition name
  refine ⟨Nat.lt_of_lt_of_le inBounds.named grows, fun pair member => ?_, fun pair member => ?_⟩
  · exact Nat.lt_of_lt_of_le (inBounds.byReactor pair (byReactor ▸ member)) grows
  · exact Nat.lt_of_lt_of_le (inBounds.byPath pair (byPath ▸ member)) grows

theorem assignReactor (reactor : ReactorId) (name : String) :
    (partition.assignReactor reactor name).1.InBounds := by
  obtain ⟨named, byReactor, byPath⟩ := inBounds.federate name
  refine ⟨named, fun pair member => ?_, byPath⟩
  rcases mem_put member with old | rfl
  · exact byReactor pair old
  · exact number_federate_lt partition name

theorem assignPath (path name : String) : (partition.assignPath path name).1.InBounds := by
  obtain ⟨named, byReactor, byPath⟩ := inBounds.federate name
  refine ⟨named, byReactor, fun pair member => ?_⟩
  rcases mem_put member with old | rfl
  · exact byPath pair old
  · exact number_federate_lt partition name

theorem assigned?_lt {index : Index} {reactor : ReactorId} {id : FederateId}
    (assigned : partition.assigned? index reactor = some id) :
    id.number < partition.names.length := by
  rcases Option.or_eq_some_iff.mp assigned with byId | ⟨-, byName⟩
  · exact inBounds.byReactor _ (mem_of_lookup byId)
  · exact inBounds.byPath _ (mem_of_lookup byName)

/-- Every reactor, known or not, belongs to a federate with a name. -/
theorem federateOf_lt (index : Index) (reactor : ReactorId) :
    (partition.federateOf index reactor).number < partition.names.length := by
  rw [federateOf]
  cases nearest : (index.ancestorsOrSelf reactor).findSome? (partition.assigned? index) with
  | none => exact inBounds.named
  | some id =>
    obtain ⟨above, -, assigned⟩ := List.exists_of_findSome?_eq_some nearest
    exact inBounds.assigned?_lt assigned

end InBounds

theorem Built.inBounds {partition : Partition} (built : partition.Built) : partition.InBounds := by
  induction built with
  | single => exact ⟨Nat.zero_lt_one, nofun, nofun⟩
  | federate _ name ih => exact ih.federate name
  | assignReactor _ reactor name ih => exact ih.assignReactor reactor name
  | assignPath _ path name ih => exact ih.assignPath path name

end Partition

end ReactorCausality
