import ReactorCausality.Proofs.Federation.Inheritance

/-!
Partitions after any calls. No name is there twice and the default name comes first, every number that was ever
given out is still the one of the name it was given out for, and what is stored for a reactor or a path is what
the last call that assigned it was answered (`sound_afterCalls`).
-/
namespace ReactorCausality

namespace Partition

/-- The partition that calls make of the one with a single federate, one after the other. -/
def afterCalls (calls : List Call) : Partition :=
  calls.foldl (fun partition call => (partition.answer call).1) single

/-- The number is in use for the name, and whoever asks for the name gets the number. -/
structure Numbers (partition : Partition) (id : FederateId) (name : String) : Prop where
  less : id.number < partition.names.length
  named : partition.federateName id = name
  again : partition.federate name = (partition, id)

/-- What holds of a partition after the calls that made it. -/
structure Sound (partition : Partition) (calls : List Call) : Prop where
  distinct : partition.names.Nodup
  default : partition.names[0]? = some defaultName
  returned : ∀ earlier call later, calls = earlier ++ call :: later →
    partition.Numbers ((afterCalls earlier).answer call).2 call.name
  stored : ∀ subject id, partition.Stores subject id → ∃ earlier call later,
    calls = earlier ++ call :: later ∧ call.subject? = some subject ∧
      (∀ other ∈ later, other.subject? ≠ some subject) ∧
      ((afterCalls earlier).answer call).2 = id ∧ partition.Numbers id call.name
  idempotent : ∀ name, (partition.federate name).1.federate name = partition.federate name

theorem afterCalls_append_singleton (calls : List Call) (call : Call) :
    afterCalls (calls ++ [call]) = ((afterCalls calls).answer call).1 := by
  rw [afterCalls, List.foldl_append]
  rfl

theorem built_answer {partition : Partition} (built : partition.Built) (call : Call) :
    (partition.answer call).1.Built := by
  cases call with
  | federate name => exact built.federate name
  | assign assignment =>
    cases assignment with
    | reactor id name => exact built.assignReactor id name
    | path path name => exact built.assignPath path name

theorem built_afterCalls (calls : List Call) : (afterCalls calls).Built := by
  induction calls using List.reverseRecOn with
  | nil => exact .single
  | append_singleton calls call ih => exact afterCalls_append_singleton calls call ▸ built_answer ih call

/-! ### Names -/

theorem nodup_names_answer {partition : Partition} (distinct : partition.names.Nodup) (call : Call) :
    (partition.answer call).1.names.Nodup := by
  rw [(partition.answer_eq call).1]
  exact nodup_names_federate distinct call.name

theorem nodup_names_afterCalls (calls : List Call) : (afterCalls calls).names.Nodup := by
  induction calls using List.reverseRecOn with
  | nil => exact List.nodup_singleton _
  | append_singleton calls call ih =>
    exact afterCalls_append_singleton calls call ▸ nodup_names_answer ih call

/-- Asking for a name that is known changes nothing. -/
theorem federate_of_mem {partition : Partition} {name : String} (known : name ∈ partition.names) :
    partition.federate name = (partition, partition.numberOf name) := by
  have same : (partition.federate name).1 = partition := by
    rw [federate]
    split
    · rfl
    · next notFound => exact absurd known (List.idxOf?_eq_none_iff.mp notFound)
  exact Prod.ext same ((federate_number partition name).trans (congrArg (numberOf · name) same))

theorem federate_idempotent (partition : Partition) (name : String) :
    (partition.federate name).1.federate name = partition.federate name := by
  rw [federate_of_mem (partition.mem_names_federate name), ← federate_number]

theorem Issued.numbers {partition : Partition} {id : FederateId} {name : String}
    (issued : partition.Issued id name) (distinct : partition.names.Nodup) :
    partition.Numbers id name := by
  obtain ⟨less, isName⟩ := List.getElem?_eq_some_iff.mp issued.names_eq
  refine ⟨less, issued.federateName_eq, ?_⟩
  rw [federate_of_mem (isName ▸ List.getElem_mem less), numberOf, ← isName, distinct.idxOf_getElem]

theorem issued_default (calls : List Call) :
    (afterCalls calls).Issued .ofUnassigned defaultName :=
  (built_afterCalls calls).allIssued.unassigned

/-- What was given out is still given out after any other calls. -/
theorem issued_answer (earlier : List Call) (call : Call) (later : List Call) :
    (afterCalls (earlier ++ call :: later)).Issued ((afterCalls earlier).answer call).2 call.name := by
  induction later using List.reverseRecOn with
  | nil => exact afterCalls_append_singleton earlier call ▸ .last _ call
  | append_singleton later last ih =>
    rw [← List.cons_append, ← List.append_assoc, afterCalls_append_singleton]
    exact ih.earlier last

/-! ### What is stored -/

theorem stored_afterCalls {calls : List Call} {subject : ReactorId ⊕ String} {id : FederateId}
    (stores : (afterCalls calls).Stores subject id) : ∃ earlier call later,
      calls = earlier ++ call :: later ∧ call.subject? = some subject ∧
        (∀ other ∈ later, other.subject? ≠ some subject) ∧
        ((afterCalls earlier).answer call).2 = id := by
  induction calls using List.reverseRecOn with
  | nil => cases subject <;> exact absurd stores List.not_mem_nil
  | append_singleton calls last ih =>
    rw [afterCalls_append_singleton] at stores
    rcases stores_answer subject stores with ⟨before, isOther⟩ | ⟨assigns, isNumber⟩
    · obtain ⟨earlier, call, later, rfl, assigns, others, isNumber⟩ := ih before
      refine ⟨earlier, call, later ++ [last], by simp, assigns, ?_, isNumber⟩
      exact List.forall_mem_append.mpr ⟨others, List.forall_mem_singleton.mpr isOther⟩
    · exact ⟨calls, last, [], rfl, assigns, nofun, isNumber⟩

theorem sound_afterCalls (calls : List Call) : (afterCalls calls).Sound calls where
  distinct := nodup_names_afterCalls calls
  default := (issued_default calls).names_eq
  returned := by
    rintro earlier call later rfl
    exact (issued_answer earlier call later).numbers (nodup_names_afterCalls _)
  stored subject id stores := by
    obtain ⟨earlier, call, later, rfl, assigns, others, rfl⟩ := stored_afterCalls stores
    exact ⟨earlier, call, later, rfl, assigns, others, rfl,
      (issued_answer earlier call later).numbers (nodup_names_afterCalls _)⟩
  idempotent := federate_idempotent _

end Partition

end ReactorCausality
