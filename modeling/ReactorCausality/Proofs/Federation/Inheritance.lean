import ReactorCausality.Proofs.Federation.Assignments
import ReactorCausality.Proofs.Index.Lookups

/-!
Where reactors belong. A reactor belongs to the federate of the first assigned reactor on the way up from
it, so an assignment moves the reactors from which the way up leads to the assigned one past others that
are not assigned, and no others (`assignments_are_local`). Whatever is assigned, the numbers that have
been given out keep their names, since names are only ever put behind those that are there.
-/
namespace ReactorCausality

namespace Partition

/-! ### Numbers that have been given out -/

/-- What a partition can be asked for. -/
inductive Call where
  | federate (name : String)
  | assign (assignment : Assignment)
  deriving DecidableEq, Repr

/-- The name that the answer is a number for. -/
def Call.name : Call → String
  | .federate name => name
  | .assign assignment => assignment.federate

def answer (partition : Partition) : Call → Partition × FederateId
  | .federate name => partition.federate name
  | .assign (.reactor id name) => partition.assignReactor id name
  | .assign (.path path name) => partition.assignPath path name

/-- The number has been given out for the name: from the start, by the last call or before it. -/
inductive Issued : Partition → FederateId → String → Prop
  | start : Issued single .ofUnassigned defaultName
  | last (partition : Partition) (call : Call) :
      Issued (partition.answer call).1 (partition.answer call).2 call.name
  | earlier {partition : Partition} {id : FederateId} {name : String}
      (issued : Issued partition id name) (call : Call) : Issued (partition.answer call).1 id name

/-- Every call names a federate, and some assign something to it. -/
theorem answer_eq (partition : Partition) (call : Call) :
    (partition.answer call).1.names = (partition.federate call.name).1.names ∧
      (partition.answer call).2 = (partition.federate call.name).2 := by
  cases call with
  | federate name => exact ⟨rfl, rfl⟩
  | assign assignment => cases assignment <;> exact ⟨rfl, rfl⟩

theorem prefix_names_answer (partition : Partition) (call : Call) :
    partition.names <+: (partition.answer call).1.names := by
  rw [(partition.answer_eq call).1, names_federate]
  split
  · exact List.prefix_rfl
  · exact List.prefix_append _ _

theorem mem_names_federate (partition : Partition) (name : String) :
    name ∈ (partition.federate name).1.names := by
  rw [names_federate]
  split
  · assumption
  · simp

theorem names_answer (partition : Partition) (call : Call) :
    (partition.answer call).1.names[(partition.answer call).2.number]? = some call.name := by
  obtain ⟨names, id⟩ := partition.answer_eq call
  rw [names, id, federate_number, numberOf, List.getElem?_idxOf (mem_names_federate _ _)]

theorem Issued.names_eq {partition : Partition} {id : FederateId} {name : String}
    (issued : partition.Issued id name) : partition.names[id.number]? = some name := by
  induction issued with
  | start => rfl
  | last partition call => exact partition.names_answer call
  | earlier _ call ih =>
    obtain ⟨less, isName⟩ := List.getElem?_eq_some_iff.mp ih
    rw [List.prefix_iff_getElem?.mp (prefix_names_answer _ call) _ less, isName]

theorem Issued.federateName_eq {partition : Partition} {id : FederateId} {name : String}
    (issued : partition.Issued id name) : partition.federateName id = name := by
  rw [federateName, List.getD_eq_getElem?_getD, issued.names_eq, Option.getD_some]

/-- What the call assigns, if it assigns anything. -/
def Call.subject? : Call → Option (ReactorId ⊕ String)
  | .federate _ => none
  | .assign assignment => some assignment.subject

/-- The number is stored for a reactor, by its id, or for a hierarchical name. -/
def Stores (partition : Partition) (subject : ReactorId ⊕ String) (id : FederateId) : Prop :=
  match subject with
  | .inl reactor => (reactor, id) ∈ partition.byReactor
  | .inr path => (path, id) ∈ partition.byPath

theorem stores_federate_iff {partition : Partition} {name : String} {subject : ReactorId ⊕ String}
    {id : FederateId} :
    (partition.federate name).1.Stores subject id ↔ partition.Stores subject id := by
  obtain ⟨byReactor, byPath, -⟩ := federate_eq partition name
  cases subject with
  | inl reactor => rw [Stores, Stores, byReactor]
  | inr path => rw [Stores, Stores, byPath]

/-- What a call assigns replaces what was stored for it, and nothing else. -/
theorem stores_answer {partition : Partition} {call : Call} (subject : ReactorId ⊕ String)
    {id : FederateId} (stores : (partition.answer call).1.Stores subject id) :
    partition.Stores subject id ∧ call.subject? ≠ some subject ∨
      call.subject? = some subject ∧ (partition.answer call).2 = id := by
  have kept (name : String) (same : (partition.federate name).1.Stores subject id) :
      partition.Stores subject id := stores_federate_iff.mp same
  cases call with
  | federate name => exact .inl ⟨kept name stores, nofun⟩
  | assign assignment =>
    cases assignment with
    | reactor target name =>
      cases subject with
      | inl reactor =>
        rcases mem_put_iff.mp stores with ⟨old, other⟩ | new
        · exact .inl ⟨kept name old, fun same => other (Sum.inl.inj (Option.some.inj same)).symm⟩
        · cases new
          exact .inr ⟨rfl, rfl⟩
      | inr path => exact .inl ⟨kept name stores, nofun⟩
    | path target name =>
      cases subject with
      | inl reactor => exact .inl ⟨kept name stores, nofun⟩
      | inr path =>
        rcases mem_put_iff.mp stores with ⟨old, other⟩ | new
        · exact .inl ⟨kept name old, fun same => other (Sum.inr.inj (Option.some.inj same)).symm⟩
        · cases new
          exact .inr ⟨rfl, rfl⟩

/-- Every number in use has been given out. -/
structure AllIssued (partition : Partition) : Prop where
  unassigned : partition.Issued .ofUnassigned defaultName
  byReactor : ∀ pair ∈ partition.byReactor, ∃ name, partition.Issued pair.2 name
  byPath : ∀ pair ∈ partition.byPath, ∃ name, partition.Issued pair.2 name

namespace AllIssued

variable {partition : Partition} (all : partition.AllIssued)
include all

theorem answer (call : Call) : (partition.answer call).1.AllIssued := by
  have issued (subject : ReactorId ⊕ String) (id : FederateId)
      (before : partition.Stores subject id → ∃ name, partition.Issued id name)
      (stores : (partition.answer call).1.Stores subject id) :
      ∃ name, (partition.answer call).1.Issued id name := by
    rcases stores_answer subject stores with ⟨old, -⟩ | ⟨-, rfl⟩
    · obtain ⟨name, given⟩ := before old
      exact ⟨name, given.earlier call⟩
    · exact ⟨call.name, .last partition call⟩
  refine ⟨all.unassigned.earlier call, fun pair member => ?_, fun pair member => ?_⟩
  · exact issued (.inl pair.1) pair.2 (all.byReactor pair) member
  · exact issued (.inr pair.1) pair.2 (all.byPath pair) member

theorem exists_issued (index : Index) (reactor : ReactorId) :
    ∃ name, partition.Issued (partition.federateOf index reactor) name := by
  rw [federateOf]
  cases nearest : (index.ancestorsOrSelf reactor).findSome? (partition.assigned? index) with
  | none => exact ⟨_, all.unassigned⟩
  | some id =>
    obtain ⟨above, -, assigned⟩ := List.exists_of_findSome?_eq_some nearest
    rcases Option.or_eq_some_iff.mp assigned with byId | ⟨-, byName⟩
    · exact all.byReactor _ (mem_of_lookup byId)
    · exact all.byPath _ (mem_of_lookup byName)

end AllIssued

theorem Built.allIssued {partition : Partition} (built : partition.Built) : partition.AllIssued := by
  induction built with
  | single => exact ⟨.start, nofun, nofun⟩
  | federate _ name ih => exact ih.answer (.federate name)
  | assignReactor _ reactor name ih => exact ih.answer (.assign (.reactor reactor name))
  | assignPath _ path name ih => exact ih.answer (.assign (.path path name))

/-! ### The way up -/

section Pairs

variable {κ ν : Type} [DecidableEq κ] (pairs : List (κ × ν)) (key other : κ)

theorem lookup_filter_ne : (pairs.filter fun pair => pair.1 ≠ key).lookup other =
    if other = key then none else pairs.lookup other := by
  induction pairs with
  | nil => simp
  | cons pair pairs ih =>
    obtain ⟨found, value⟩ := pair
    by_cases removed : found = key
    · subst removed
      rw [List.filter_cons_of_neg (by simp), ih, List.lookup_cons]
      by_cases isKey : other = found
      · rw [if_pos isKey, if_pos isKey]
      · rw [if_neg isKey, if_neg isKey, beq_false_of_ne isKey]
    · rw [List.filter_cons_of_pos (by simpa using removed), List.lookup_cons, List.lookup_cons]
      by_cases isFound : other = found
      · subst isFound
        simp [removed]
      · rw [beq_false_of_ne isFound, ih]

/-- Only what stands under the key changes. -/
theorem lookup_put (value : ν) :
    (put pairs key value).lookup other = if other = key then some value else pairs.lookup other := by
  rw [put, List.lookup_append, lookup_filter_ne, List.lookup_cons, List.lookup_nil]
  by_cases isKey : other = key
  · simp [isKey]
  · rw [if_neg isKey, if_neg isKey, beq_false_of_ne isKey, Option.or_none]

end Pairs

/-- The way up leads to this reactor past others that are not assigned. -/
inductive LeadsTo (partition : Partition) (index : Index) (target : ReactorId) : List ReactorId → Prop
  | here (above : List ReactorId) : LeadsTo partition index target (target :: above)
  | past {id : ReactorId} {above : List ReactorId} (unassigned : partition.assigned? index id = none)
      (leads : LeadsTo partition index target above) : LeadsTo partition index target (id :: above)

section Way

variable {partition : Partition} {index : Index} {target : ReactorId} {way : List ReactorId}

theorem leadsTo_iff : partition.LeadsTo index target way ↔ ∃ below above,
    way = below ++ target :: above ∧ ∀ id ∈ below, partition.assigned? index id = none := by
  constructor
  · intro leads
    induction leads with
    | here above => exact ⟨[], above, rfl, nofun⟩
    | past unassigned _ ih =>
      obtain ⟨below, above, rfl, others⟩ := ih
      exact ⟨_ :: below, above, rfl, List.forall_mem_cons.mpr ⟨unassigned, others⟩⟩
  · rintro ⟨below, above, rfl, unassigned⟩
    induction below with
    | nil => exact .here above
    | cons id below ih =>
      obtain ⟨first, others⟩ := List.forall_mem_cons.mp unassigned
      exact .past first (ih others)

theorem LeadsTo.mem (leads : partition.LeadsTo index target way) : target ∈ way := by
  obtain ⟨below, above, rfl, -⟩ := leadsTo_iff.mp leads
  exact List.mem_append_right below List.mem_cons_self

theorem LeadsTo.findSome?_eq (leads : partition.LeadsTo index target way) {id : FederateId}
    (assigned : partition.assigned? index target = some id) :
    way.findSome? (partition.assigned? index) = some id := by
  induction leads with
  | here above => rw [List.findSome?_cons, assigned]
  | past unassigned _ ih => rw [List.findSome?_cons, unassigned, ih]

theorem assigned?_assignReactor (partition : Partition) (index : Index) (target : ReactorId)
    (name : String) (reactor : ReactorId) :
    (partition.assignReactor target name).1.assigned? index reactor =
      if reactor = target then some (partition.assignReactor target name).2
      else partition.assigned? index reactor := by
  obtain ⟨byReactor, byPath, -⟩ := federate_eq partition name
  simp only [assigned?, assignReactor, lookup_put, byReactor, byPath]
  split <;> simp

/-- What lies between stays unassigned, so the way up ends at the new assignment. -/
theorem LeadsTo.assignReactor (leads : partition.LeadsTo index target way) (name : String) :
    (partition.assignReactor target name).1.LeadsTo index target way := by
  induction leads with
  | here above => exact .here above
  | @past id above unassigned _ ih =>
    by_cases same : id = target
    · exact same ▸ .here above
    · exact .past (by rw [assigned?_assignReactor, if_neg same, unassigned]) ih

/-- A way up that ends before the new assignment, or passes by it, ends where it did. -/
theorem findSome?_assignReactor_of_not_leadsTo (past : ¬partition.LeadsTo index target way)
    (name : String) :
    way.findSome? ((partition.assignReactor target name).1.assigned? index) =
      way.findSome? (partition.assigned? index) := by
  induction way with
  | nil => rfl
  | cons id above ih =>
    have other : id ≠ target := fun same => past (same ▸ .here above)
    rw [List.findSome?_cons, List.findSome?_cons, assigned?_assignReactor, if_neg other]
    cases unassigned : partition.assigned? index id with
    | none => exact ih fun leads => past (.past unassigned leads)
    | some unit => rfl -- The way ended here before, whatever is assigned further up.

end Way

/-! ### Federates of the tree -/

/-- Every reactor of the tree belongs where the first assigned reactor on the way up from it does. -/
structure FollowsTree (partition : Partition) (index : Index) (program : Program) : Prop where
  /-- An assignment by id goes before one by hierarchical name. -/
  assigned : ∀ reactor above, program.Lineage reactor above →
    partition.assigned? index reactor.id = (partition.byReactor.lookup reactor.id).or
      (partition.byPath.lookup (Reactor.path (reactor :: above)))
  nearest : ∀ reactor above, program.Lineage reactor above → ∀ target unit,
    partition.LeadsTo index target ((reactor :: above).map Reactor.id) →
    partition.assigned? index target = some unit → partition.federateOf index reactor.id = unit
  unassigned : ∀ reactor above, program.Lineage reactor above →
    (∀ other ∈ reactor :: above, partition.assigned? index other.id = none) →
    partition.federateOf index reactor.id = .ofUnassigned
  issued : partition.Built → partition.Issued .ofUnassigned defaultName ∧
    ∀ id, ∃ name, partition.Issued (partition.federateOf index id) name

/-- Assigning a reactor by its id to the federate with a name moves what the way up leads from to that
reactor, and nothing else. -/
structure Moves (before : Partition) (index : Index) (program : Program) (target : ReactorId)
    (name : String) : Prop where
  named : (before.assignReactor target name).1.federateName (before.assignReactor target name).2 = name
  again : ((before.assignReactor target name).1.federate name).2 = (before.assignReactor target name).2
  inside : ∀ reactor above, program.Lineage reactor above →
    before.LeadsTo index target ((reactor :: above).map Reactor.id) →
    (before.assignReactor target name).1.federateOf index reactor.id =
      (before.assignReactor target name).2
  outside : ∀ reactor above, program.Lineage reactor above →
    ¬before.LeadsTo index target ((reactor :: above).map Reactor.id) →
    (before.assignReactor target name).1.federateOf index reactor.id =
      before.federateOf index reactor.id
  kept : ∀ id given, before.Issued id given → before.federateName id = given ∧
    (before.assignReactor target name).1.federateName id = given

/-- A name that is asked for once more has its number already. -/
theorem federate_assignReactor (partition : Partition) (target : ReactorId) (name : String) :
    ((partition.assignReactor target name).1.federate name).2 =
      (partition.assignReactor target name).2 := by
  have known : name ∈ (partition.assignReactor target name).1.names :=
    partition.mem_names_federate name
  rw [federate_number, numberOf, names_federate, if_pos known]
  exact (federate_number partition name).symm

end Partition

namespace Index.Describes

variable {index : Index} {program : Program} (described : index.Describes program)
include described

section Lineage

variable {reactor : Reactor} {above : List Reactor} (lineage : program.Lineage reactor above)
include lineage

theorem reactorName_eq : index.reactorName reactor.id = Reactor.path (reactor :: above) := by
  rw [reactorName, described.reactor?_eq lineage]
  rfl

theorem federateOf_eq (partition : Partition) : partition.federateOf index reactor.id =
    (((reactor :: above).map Reactor.id).findSome? (partition.assigned? index)).getD .ofUnassigned := by
  rw [Partition.federateOf, described.ancestorsOrSelf_eq lineage]

end Lineage

theorem followsTree (partition : Partition) : partition.FollowsTree index program where
  assigned reactor above lineage := by
    rw [Partition.assigned?, described.reactorName_eq lineage]
  nearest reactor above lineage target unit leads assigned := by
    rw [described.federateOf_eq lineage, leads.findSome?_eq assigned, Option.getD_some]
  unassigned reactor above lineage unassigned := by
    rw [described.federateOf_eq lineage, List.findSome?_eq_none_iff.mpr (by simpa using unassigned),
      Option.getD_none]
  issued built := ⟨built.allIssued.unassigned, built.allIssued.exists_issued index⟩

theorem moves (before : Partition) (target : ReactorId) (name : String) :
    before.Moves index program target name where
  named := (Partition.Issued.last before (.assign (.reactor target name))).federateName_eq
  again := before.federate_assignReactor target name
  inside reactor above lineage leads := by
    have assigned : (before.assignReactor target name).1.assigned? index target =
        some (before.assignReactor target name).2 := by
      rw [Partition.assigned?_assignReactor, if_pos rfl]
    rw [described.federateOf_eq lineage, (leads.assignReactor name).findSome?_eq assigned,
      Option.getD_some]
  outside reactor above lineage past := by
    rw [described.federateOf_eq lineage, described.federateOf_eq lineage,
      Partition.findSome?_assignReactor_of_not_leadsTo past]
  kept id given issued :=
    ⟨issued.federateName_eq, (issued.earlier (.assign (.reactor target name))).federateName_eq⟩

end Index.Describes

/-- A reactor of an accepted program belongs to the federate of the first assigned reactor on the way up
from it. Assigning a reactor moves those below it that are not parted from it by another assignment, and
leaves all others where they are and all federates their names. -/
theorem assignments_are_local {program : Program} {index : Index}
    (accepted : Index.build program = .ok index) (partition : Partition) :
    partition.FollowsTree index program ∧
      ∀ target name, partition.Moves index program target name := by
  have described := (Index.build_eq_ok_iff program index).mp accepted
  exact ⟨described.followsTree partition, described.moves partition⟩

theorem Program.lineage_mailroom : delivery.Lineage .mailroom [delivery.main] :=
  .child .main (by decide)

/-- The desk is at the front, and it stays there when the mailroom around it moves to the office. -/
theorem assignments_are_local_delivery : ∃ index, Index.build .delivery = .ok index ∧
    let before := Partition.ofAssignments [.path "main.mailroom.desk" "front"]
    let after := (before.assignReactor ⟨1⟩ "office").1
    after.federateOf index ⟨1⟩ = ⟨2⟩ ∧ after.federateName ⟨2⟩ = "office" ∧
      after.federateOf index ⟨3⟩ = ⟨1⟩ ∧ after.federateName ⟨1⟩ = "front" ∧
      after.federateOf index ⟨0⟩ = .ofUnassigned := by
  have accepted : Index.build .delivery = .ok (Index.survey .delivery).index := rfl
  refine ⟨_, accepted, ?_⟩
  intro before after
  obtain ⟨follows, moves⟩ := assignments_are_local accepted before
  have atFront : before.assigned? _ ⟨3⟩ = some ⟨1⟩ :=
    (follows.assigned _ _ Program.lineage_desk).trans rfl
  have desk := (moves ⟨1⟩ "office").outside _ _ Program.lineage_desk fun leads => by
    cases leads with
    | past unassigned => exact absurd (atFront.symm.trans unassigned) (Option.some_ne_none _)
  have main := (moves ⟨1⟩ "office").outside _ _ .main fun leads => by
    cases leads with
    | past _ further => cases further
  refine ⟨(moves ⟨1⟩ "office").inside _ _ Program.lineage_mailroom (.here _), ?_, ?_, ?_, ?_⟩
  · exact (moves ⟨1⟩ "office").named
  · exact desk.trans (follows.nearest _ _ Program.lineage_desk _ _ (.here _) atFront)
  · exact ((moves ⟨1⟩ "office").kept _ _ (.last .single (.assign (.path _ "front")))).2
  · exact main.trans (follows.unassigned _ _ .main (List.forall_mem_singleton.mpr rfl))

end ReactorCausality
