import Mathlib.Data.List.GetD
import Mathlib.Data.List.Induction
import Mathlib.Data.List.Nodup
import Mathlib.Data.List.Perm.Basic
import ReactorCausality.Proofs.Federation.Partition

/-!
Partitions by lists of assignments. A name gets its number where it is named first, and that is all that
depends on the order of the assignments, if nothing is assigned twice: the partitions that assignments
make in two orders differ by the numbers of their federates (`exists_renumbers`). Under such partitions
every reactor belongs to federates with one name.
-/
namespace ReactorCausality

/-- An assignment of a reactor, which is given by its id or by its hierarchical name. -/
inductive Assignment where
  | reactor (id : ReactorId) (federate : String)
  | path (path federate : String)
  deriving DecidableEq, Repr

namespace Assignment

/-- The name of the federate. -/
def federate : Assignment → String
  | .reactor _ name => name
  | .path _ name => name

/-- What is assigned. -/
def subject : Assignment → ReactorId ⊕ String
  | .reactor id _ => .inl id
  | .path name _ => .inr name

end Assignment

namespace Partition

def assign (partition : Partition) : Assignment → Partition
  | .reactor id name => (partition.assignReactor id name).1
  | .path path name => (partition.assignPath path name).1

/-- The partition that assignments make, one after the other. -/
def ofAssignments (assignments : List Assignment) : Partition :=
  assignments.foldl assign single

/-- The number that a name has. -/
def numberOf (partition : Partition) (name : String) : FederateId :=
  ⟨partition.names.idxOf name⟩

/-- What an assignment by id says under the numbers of a partition. -/
def reactorPair? (partition : Partition) : Assignment → Option (ReactorId × FederateId)
  | .reactor id name => some (id, partition.numberOf name)
  | .path _ _ => none

/-- What an assignment by hierarchical name says under the numbers of a partition. -/
def pathPair? (partition : Partition) : Assignment → Option (String × FederateId)
  | .reactor _ _ => none
  | .path path name => some (path, partition.numberOf name)

/-- A partition says what some assignments say, and it has no other names. -/
structure Records (partition : Partition) (assignments : List Assignment) : Prop where
  named : ∀ name, name ∈ partition.names ↔
    name = defaultName ∨ ∃ assignment ∈ assignments, assignment.federate = name
  distinct : partition.names.Nodup
  unassigned : partition.numberOf defaultName = .ofUnassigned
  byReactor : partition.byReactor = assignments.filterMap partition.reactorPair?
  byPath : partition.byPath = assignments.filterMap partition.pathPair?

theorem records_single : single.Records [] where
  named name := by simp [single]
  distinct := List.nodup_singleton _
  unassigned := rfl
  byReactor := rfl
  byPath := rfl

theorem map_fst_reactorPairs (partition : Partition) (assignments : List Assignment) :
    (assignments.filterMap partition.reactorPair?).map Prod.fst =
      (assignments.map Assignment.subject).filterMap Sum.getLeft? := by
  rw [List.map_filterMap, List.filterMap_map]
  exact List.filterMap_congr fun assignment _ => by cases assignment <;> rfl

theorem map_fst_pathPairs (partition : Partition) (assignments : List Assignment) :
    (assignments.filterMap partition.pathPair?).map Prod.fst =
      (assignments.map Assignment.subject).filterMap Sum.getRight? := by
  rw [List.map_filterMap, List.filterMap_map]
  exact List.filterMap_congr fun assignment _ => by cases assignment <;> rfl

theorem put_of_notMem {κ ν : Type} [DecidableEq κ] {pairs : List (κ × ν)} {key : κ}
    (isNew : key ∉ pairs.map Prod.fst) (value : ν) : put pairs key value = pairs ++ [(key, value)] := by
  rw [put, List.filter_eq_self.mpr]
  intro pair member
  exact decide_eq_true fun same => isNew (same ▸ List.mem_map_of_mem member)

theorem names_federate (partition : Partition) (name : String) :
    (partition.federate name).1.names =
      if name ∈ partition.names then partition.names else partition.names ++ [name] := by
  rw [federate]
  split
  · next position found =>
    obtain ⟨less, isName, -⟩ := List.idxOf?_eq_some_iff.mp found
    rw [if_pos (isName ▸ List.getElem_mem less)]
  · next notFound => rw [if_neg (List.idxOf?_eq_none_iff.mp notFound)]

theorem nodup_names_federate {partition : Partition} (distinct : partition.names.Nodup) (name : String) :
    (partition.federate name).1.names.Nodup := by
  rw [names_federate]
  split
  · exact distinct
  · next isNew =>
    exact (List.perm_append_singleton _ _).nodup_iff.mpr (List.nodup_cons.mpr ⟨isNew, distinct⟩)

theorem federate_number (partition : Partition) (name : String) :
    (partition.federate name).2 = (partition.federate name).1.numberOf name := by
  rw [federate]
  split
  · next position found =>
    have position_eq : partition.names.idxOf name = position := by
      rw [List.idxOf, List.findIdx_eq_getD_findIdx?, ← List.idxOf?, found, Option.getD_some]
    rw [numberOf, position_eq]
  · next notFound =>
    have isNew := List.idxOf?_eq_none_iff.mp notFound
    simp [numberOf, List.idxOf_append_of_notMem isNew]

theorem numberOf_federate {partition : Partition} {old : String} (isOld : old ∈ partition.names)
    (name : String) : (partition.federate name).1.numberOf old = partition.numberOf old := by
  rw [numberOf, names_federate]
  split
  · rfl
  · rw [List.idxOf_append_of_mem isOld, numberOf]

namespace Records

variable {partition : Partition} {assignments : List Assignment}
  (records : partition.Records assignments)
include records

theorem mem_names_of_mem {assignment : Assignment} (member : assignment ∈ assignments) :
    assignment.federate ∈ partition.names :=
  (records.named _).mpr (.inr ⟨assignment, member, rfl⟩)

/-- Naming one more federate changes no number. -/
theorem federate (assignment : Assignment) :
    let after := (partition.federate assignment.federate).1
    (∀ name, name ∈ after.names ↔ name = defaultName ∨
        ∃ other ∈ assignments ++ [assignment], other.federate = name) ∧
      after.names.Nodup ∧ after.numberOf defaultName = .ofUnassigned ∧
      after.byReactor = assignments.filterMap after.reactorPair? ∧
      after.byPath = assignments.filterMap after.pathPair? := by
  intro after
  obtain ⟨byReactor, byPath, -⟩ := federate_eq partition assignment.federate
  have isDefault : defaultName ∈ partition.names := (records.named _).mpr (.inl rfl)
  have same (other : Assignment) (member : other ∈ assignments) :
      after.numberOf other.federate = partition.numberOf other.federate :=
    numberOf_federate (records.mem_names_of_mem member) _
  refine ⟨fun name => ?_, ?_, ?_, ?_, ?_⟩
  · have mem_names : name ∈ after.names ↔
        name ∈ partition.names ∨ assignment.federate = name := by
      rw [names_federate]
      split
      · next isOld => exact (or_iff_left_of_imp fun same => same ▸ isOld).symm
      · rw [List.mem_append, List.mem_singleton, eq_comm (a := name)]
    rw [mem_names, records.named, or_assoc]
    simp [or_and_right, exists_or]
  · exact nodup_names_federate records.distinct assignment.federate
  · rw [numberOf_federate isDefault, records.unassigned]
  · rw [byReactor, records.byReactor]
    refine List.filterMap_congr fun other member => ?_
    have := same other member
    cases other <;> simp_all [reactorPair?, Assignment.federate]
  · rw [byPath, records.byPath]
    refine List.filterMap_congr fun other member => ?_
    have := same other member
    cases other <;> simp_all [pathPair?, Assignment.federate]

/-- One more assignment of something else is recorded behind the others. -/
theorem assign {assignment : Assignment}
    (isNew : assignment.subject ∉ assignments.map Assignment.subject) :
    (partition.assign assignment).Records (assignments ++ [assignment]) := by
  have federated := records.federate assignment
  cases assignment with
  | reactor id name =>
    obtain ⟨named, distinct, unassigned, byReactor, byPath⟩ := federated
    rw [Assignment.federate] at byReactor byPath
    have notYet : id ∉ (partition.federate name).1.byReactor.map Prod.fst := by
      rw [byReactor, map_fst_reactorPairs, List.mem_filterMap]
      rintro ⟨subject, isSubject, isId⟩
      obtain rfl := Sum.getLeft?_eq_some_iff.mp isId
      exact isNew isSubject
    refine ⟨named, distinct, unassigned, ?_, ?_⟩
    · show put (partition.federate name).1.byReactor id (partition.federate name).2 = _
      rw [put_of_notMem notYet, byReactor, federate_number, List.filterMap_append]
      rfl
    · show (partition.federate name).1.byPath = _
      rw [byPath, List.filterMap_append]
      exact (List.append_nil _).symm
  | path path name =>
    obtain ⟨named, distinct, unassigned, byReactor, byPath⟩ := federated
    rw [Assignment.federate] at byReactor byPath
    have notYet : path ∉ (partition.federate name).1.byPath.map Prod.fst := by
      rw [byPath, map_fst_pathPairs, List.mem_filterMap]
      rintro ⟨subject, isSubject, isPath⟩
      obtain rfl := Sum.getRight?_eq_some_iff.mp isPath
      exact isNew isSubject
    refine ⟨named, distinct, unassigned, ?_, ?_⟩
    · show (partition.federate name).1.byReactor = _
      rw [byReactor, List.filterMap_append]
      exact (List.append_nil _).symm
    · show put (partition.federate name).1.byPath path (partition.federate name).2 = _
      rw [put_of_notMem notYet, byPath, federate_number, List.filterMap_append]
      rfl

end Records

/-- Where nothing is assigned twice, everything that was said is recorded. -/
theorem records_ofAssignments {assignments : List Assignment}
    (distinct : (assignments.map Assignment.subject).Nodup) :
    (ofAssignments assignments).Records assignments := by
  induction assignments using List.reverseRecOn with
  | nil => exact records_single
  | append_singleton assignments last ih =>
    rw [List.map_append, List.map_singleton] at distinct
    obtain ⟨distinctBefore, -, isNew⟩ := List.nodup_append.mp distinct
    have notBefore : last.subject ∉ assignments.map Assignment.subject :=
      fun member => isNew _ member _ (List.mem_singleton_self _) rfl
    have step := (ih distinctBefore).assign notBefore
    rwa [ofAssignments, List.foldl_append]

theorem built_ofAssignments (assignments : List Assignment) : (ofAssignments assignments).Built := by
  induction assignments using List.reverseRecOn with
  | nil => exact .single
  | append_singleton assignments last ih =>
    rw [ofAssignments, List.foldl_append]
    cases last with
    | reactor id name => exact ih.assignReactor id name
    | path path name => exact ih.assignPath path name

/-! ### Renumbering federates -/

/-- Two partitions that say the same, but number the federates differently. -/
structure Renumbers (left right : Partition) (renumber : FederateId → FederateId) : Prop where
  injective : Function.Injective renumber
  named : ∀ id, right.federateName (renumber id) = left.federateName id
  unassigned : renumber .ofUnassigned = .ofUnassigned
  distinctReactors : (left.byReactor.map Prod.fst).Nodup
  distinctPaths : (left.byPath.map Prod.fst).Nodup
  byReactor : right.byReactor.Perm (left.byReactor.map fun pair => (pair.1, renumber pair.2))
  byPath : right.byPath.Perm (left.byPath.map fun pair => (pair.1, renumber pair.2))

/-- A federate gets the number that its name has in the other partition. -/
def renumberAs (left right : Partition) (id : FederateId) : FederateId :=
  if id.number < left.names.length then right.numberOf (left.federateName id) else id

theorem federateName_mem {partition : Partition} {id : FederateId}
    (less : id.number < partition.names.length) : partition.federateName id ∈ partition.names := by
  rw [federateName, List.getD_eq_getElem _ _ less]
  exact List.getElem_mem less

theorem federateName_numberOf {partition : Partition} {name : String}
    (isName : name ∈ partition.names) : partition.federateName (partition.numberOf name) = name := by
  have less : (partition.numberOf name).number < partition.names.length :=
    List.idxOf_lt_length_of_mem isName
  rw [federateName, List.getD_eq_getElem _ _ less]
  exact List.getElem_idxOf less

theorem renumberAs_numberOf {left : Partition} (right : Partition) {name : String}
    (isName : name ∈ left.names) :
    left.renumberAs right (left.numberOf name) = right.numberOf name := by
  have less : (left.numberOf name).number < left.names.length :=
    List.idxOf_lt_length_of_mem isName
  rw [renumberAs, if_pos less, federateName_numberOf isName]

section Renumbers

variable {left right : Partition} {assignments others : List Assignment}
  (leftRecords : left.Records assignments) (rightRecords : right.Records others)
  (perm : assignments.Perm others)
include leftRecords rightRecords perm

theorem perm_names : left.names.Perm right.names := by
  refine (List.perm_ext_iff_of_nodup leftRecords.distinct rightRecords.distinct).mpr fun name => ?_
  rw [leftRecords.named, rightRecords.named]
  simp only [perm.mem_iff]

theorem federateName_renumberAs (id : FederateId) :
    right.federateName (left.renumberAs right id) = left.federateName id := by
  have names := perm_names leftRecords rightRecords perm
  rw [renumberAs]
  split
  · next less =>
    exact federateName_numberOf (names.mem_iff.mp (federateName_mem less))
  · next notLess =>
    have unused : right.names.length ≤ id.number := names.length_eq ▸ Nat.le_of_not_lt notLess
    rw [federateName, federateName, List.getD_eq_default _ _ unused,
      List.getD_eq_default _ _ (Nat.le_of_not_lt notLess)]

theorem injective_renumberAs : Function.Injective (left.renumberAs right) := by
  have names := perm_names leftRecords rightRecords perm
  have isName {id : FederateId} (less : id.number < left.names.length) :
      left.federateName id ∈ right.names :=
    names.mem_iff.mp (federateName_mem less)
  have number_lt {id : FederateId} (less : id.number < left.names.length) :
      (right.numberOf (left.federateName id)).number < left.names.length :=
    names.length_eq ▸ List.idxOf_lt_length_of_mem (isName less)
  intro id other same
  rw [renumberAs, renumberAs] at same
  split at same
  · next less =>
    split at same
    · next lessToo =>
      have sameName := (List.idxOf_inj (isName less)).mp (congrArg FederateId.number same)
      rw [federateName, federateName, List.getD_eq_getElem _ _ less,
        List.getD_eq_getElem _ _ lessToo] at sameName
      have sameNumber := (leftRecords.distinct.getElem_inj_iff).mp sameName
      exact congrArg FederateId.mk sameNumber
    · next notLess => exact absurd (same ▸ number_lt less) notLess
  · next notLess =>
    split at same
    · next less => exact absurd (same ▸ number_lt less) notLess
    · exact same

theorem renumbers_of_records (distinct : (assignments.map Assignment.subject).Nodup) :
    left.Renumbers right (left.renumberAs right) where
  injective := injective_renumberAs leftRecords rightRecords perm
  named := federateName_renumberAs leftRecords rightRecords perm
  unassigned := by
    have isDefault := renumberAs_numberOf right ((leftRecords.named defaultName).mpr (.inl rfl))
    rwa [leftRecords.unassigned, rightRecords.unassigned] at isDefault
  distinctReactors := by
    rw [leftRecords.byReactor, map_fst_reactorPairs]
    refine distinct.filterMap fun subject other id isId isIdToo => ?_
    rw [Sum.getLeft?_eq_some_iff.mp isId, Sum.getLeft?_eq_some_iff.mp isIdToo]
  distinctPaths := by
    rw [leftRecords.byPath, map_fst_pathPairs]
    refine distinct.filterMap fun subject other path isPath isPathToo => ?_
    rw [Sum.getRight?_eq_some_iff.mp isPath, Sum.getRight?_eq_some_iff.mp isPathToo]
  byReactor := by
    have renumbered : assignments.filterMap right.reactorPair? =
        (assignments.filterMap left.reactorPair?).map fun pair =>
          (pair.1, left.renumberAs right pair.2) := by
      rw [List.map_filterMap]
      refine List.filterMap_congr fun assignment member => ?_
      have number := renumberAs_numberOf right (leftRecords.mem_names_of_mem member)
      cases assignment with
      | reactor id name => exact congrArg (fun number => some (id, number)) number.symm
      | path => rfl
    rw [rightRecords.byReactor, leftRecords.byReactor, ← renumbered]
    exact perm.symm.filterMap _
  byPath := by
    have renumbered : assignments.filterMap right.pathPair? =
        (assignments.filterMap left.pathPair?).map fun pair =>
          (pair.1, left.renumberAs right pair.2) := by
      rw [List.map_filterMap]
      refine List.filterMap_congr fun assignment member => ?_
      have number := renumberAs_numberOf right (leftRecords.mem_names_of_mem member)
      cases assignment with
      | reactor => rfl
      | path path name => exact congrArg (fun number => some (path, number)) number.symm
    rw [rightRecords.byPath, leftRecords.byPath, ← renumbered]
    exact perm.symm.filterMap _

end Renumbers

/-- The same assignments in another order make the same partition up to the numbers of its federates. -/
theorem exists_renumbers {assignments others : List Assignment}
    (distinct : (assignments.map Assignment.subject).Nodup) (perm : assignments.Perm others) :
    ∃ renumber, (ofAssignments assignments).Renumbers (ofAssignments others) renumber :=
  ⟨_, renumbers_of_records (records_ofAssignments distinct)
    (records_ofAssignments ((perm.map _).nodup_iff.mp distinct)) perm distinct⟩

end Partition

end ReactorCausality
