import ReactorCausality.Proofs.Index.Acceptance

/-!
Programs that can only refer wrongly. Where no id is used twice and every reaction has its position
as its index, the survey has nothing to refuse, and all that can be wrong is what the parts of the
program refer to.
-/
namespace ReactorCausality

namespace Problem

/-- A mode or a port is referred to that is not declared within reach, or faces the wrong way. -/
def IsReference : Problem → Prop
  | reactorMode .. | reactionMode .. | unknownRead .. | unknownWrite .. | unknownEnd ..
  | invisibleEnd .. | wrongEnd .. => True
  | duplicateReactor .. | duplicatePort .. | duplicateReaction .. | duplicateConnection ..
  | misplacedReaction .. => False

end Problem

theorem ReactorEntry.isReference_of_mem_problems {entry : ReactorEntry} {index : Index}
    {problem : Problem} (found : problem ∈ entry.problems index) : problem.IsReference := by
  rw [problems, List.mem_append, List.mem_flatMap] at found
  rcases found with ofChild | ⟨reaction, -, ofReaction⟩
  · obtain ⟨child, -, same⟩ := List.mem_filterMap.mp ofChild
    split at same
    · contradiction
    · split at same <;> cases same
      trivial
  · simp only [reactionProblems, List.mem_append, List.mem_map] at ofReaction
    rcases ofReaction with (ofMode | ⟨_, -, rfl⟩) | ⟨_, -, rfl⟩
    · split at ofMode
      · contradiction
      · split at ofMode
        · contradiction
        · rw [List.mem_singleton.mp ofMode]
          trivial
    · trivial
    · trivial

theorem ConnectionEntry.isReference_of_endProblem? {entry : ConnectionEntry} {index : Index}
    {connectionEnd : ConnectionEnd} {problem : Problem}
    (found : entry.endProblem? index connectionEnd = some problem) : problem.IsReference := by
  simp only [endProblem?] at found
  split at found
  · cases found
    trivial
  · split at found
    · cases found
      trivial
    · split at found <;> cases found
      trivial

theorem Index.isReference_of_mem_referenceProblems {index : Index} {problem : Problem}
    (found : problem ∈ index.referenceProblems) : problem.IsReference := by
  rw [referenceProblems, List.mem_append, List.mem_flatMap, List.mem_flatMap] at found
  rcases found with ⟨entry, -, ofReactor⟩ | ⟨entry, -, ofConnection⟩
  · exact entry.isReference_of_mem_problems ofReactor
  · rw [ConnectionEntry.problems, List.mem_append, Option.mem_toList,
      Option.mem_toList] at ofConnection
    rcases ofConnection with ofSource | ofTarget
    · exact entry.isReference_of_endProblem? ofSource
    · exact entry.isReference_of_endProblem? ofTarget

/-- The survey of a program whose ids and indexes are right finds wrong references at most. -/
theorem Index.isReference_of_build_error {program : Program} {problems : List Problem}
    (reactorIds : (program.reactors.map Reactor.id).Nodup)
    (portIds : (program.ports.map Port.id).Nodup)
    (reactionIds : (program.reactions.map Reaction.id).Nodup)
    (connectionIds : (program.connections.map Connection.id).Nodup)
    (indexes : ∀ reactor ∈ program.reactors, ∀ (position : Nat) (reaction : Reaction),
      reactor.reactions[position]? = some reaction → reaction.index.toNat = position)
    (refused : build program = .error problems) :
    ∀ problem ∈ problems, problem.IsReference := by
  have laidOut := (laysOut_iff (.ofProgram program) program).mpr rfl
  have distinct : (ofProgram program).DistinctIds :=
    laidOut.distinctIds_iff.mpr ⟨reactorIds, portIds, reactionIds, connectionIds⟩
  have placed := laidOut.wellPlaced_iff.mpr indexes
  rw [laidOut.reactors] at placed
  have nothing : ({ main := program.main } : Index).DistinctIds := by simp [distinctIds_iff]
  have clean : (Survey.visit none 0 program.main.name ⟨{ main := program.main }, []⟩
      program.main).problems = [] :=
    ((Survey.visit_adds none 0 program.main.name program.main).clean_iff _ nothing).mpr
      ⟨rfl, distinct, placed⟩
  have found : problems = (survey program).problems := by
    rw [build] at refused
    split at refused <;> cases refused
    rfl
  intro problem member
  rw [found, survey, clean, List.nil_append] at member
  exact isReference_of_mem_referenceProblems member

end ReactorCausality
