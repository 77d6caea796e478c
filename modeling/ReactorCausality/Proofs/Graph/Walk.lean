import ReactorCausality.Proofs.Graph.Contents
import ReactorCausality.Proofs.Index.Ports

/-!
Zero-delay walks and the reactions on them. From a port, the first reaction on a walk reads a port
that the start feeds at the same tag (`reads_of_isChain`); on the way to a port, the last reaction
writes a port that feeds the end (`writes_of_isChain`).
-/
namespace ReactorCausality

open Relation

namespace DependencyGraph

/-- Nodes that follow each other along zero-delay edges, from one node to another. -/
structure IsWalk (graph : DependencyGraph) (source target : Nat) (walk : List Nat) : Prop where
  steps : walk.IsChain graph.Step
  begins : walk.head? = some source
  ends : walk.getLast? = some target

def reactionsOn (graph : DependencyGraph) (walk : List Nat) : List ReactionId :=
  walk.filterMap graph.reactionAt?

variable {graph : DependencyGraph} {source target : Nat} {walk : List Nat}

theorem head?_reactionsOn {id : ReactionId} (isReaction : graph.reactionAt? source = some id)
    (begins : walk.head? = some source) : (graph.reactionsOn walk).head? = some id := by
  obtain ⟨rest, rfl⟩ := List.head?_eq_some_iff.mp begins
  simp [reactionsOn, isReaction]

theorem getLast?_reactionsOn {id : ReactionId} (isReaction : graph.reactionAt? target = some id)
    (ends : walk.getLast? = some target) : (graph.reactionsOn walk).getLast? = some id := by
  obtain ⟨before, rfl⟩ := List.getLast?_eq_some_iff.mp ends
  simp [reactionsOn, isReaction]

/-- Of two nodes on a walk, the one that is met first reaches the other. -/
theorem pairwise_reaches (steps : walk.IsChain graph.Step) : walk.Pairwise graph.Reaches := by
  have : IsTrans Nat graph.Reaches := ⟨fun _ _ _ => TransGen.trans⟩
  exact (steps.imp fun _ _ step => TransGen.single step).pairwise

end DependencyGraph

namespace Index.Describes

variable {index : Index} {program : Program} (described : index.Describes program)
include described

/-- A zero-delay edge leaves a port for a reaction that reads it, or for a port that it feeds. -/
theorem step_from_port {port : PortId} (declared : program.Declares (.port port)) {node : Nat}
    (step : index.graph.Step (index.position (.port port)) node) :
    (∃ id, program.Reads id port ∧ index.graph.reactionAt? node = some id) ∨
      ∃ next, program.Feeds .zeroDelay port next ∧ program.Declares (.port next) ∧
        index.position (.port next) = node := by
  obtain ⟨first, second, precedes, same, rfl⟩ := described.step_iff.mp step
  obtain rfl : NodeKind.port port = first := described.position_injective declared same.symm
  obtain ⟨-, declaredToo⟩ := described.declares_of_precedes (.single precedes)
  cases precedes with
  | @reads reaction _ isReader read =>
    exact .inl ⟨reaction.id, ⟨reaction, isReader, rfl, read⟩,
      described.reactionAt?_position declaredToo⟩
  | @carries connection isDeclared zeroDelay =>
    exact .inr ⟨connection.target, ⟨connection, isDeclared, zeroDelay, rfl, rfl⟩, declaredToo, rfl⟩

/-- A zero-delay edge arrives at a port from a reaction that writes it, or from a port that feeds
it. -/
theorem step_to_port {port : PortId} (declared : program.Declares (.port port)) {node : Nat}
    (step : index.graph.Step node (index.position (.port port))) :
    (∃ id, program.Writes id port ∧ index.graph.reactionAt? node = some id) ∨
      ∃ previous, program.Feeds .zeroDelay previous port ∧ program.Declares (.port previous) ∧
        index.position (.port previous) = node := by
  obtain ⟨first, second, precedes, rfl, same⟩ := described.step_iff.mp step
  obtain rfl : NodeKind.port port = second := described.position_injective declared same.symm
  obtain ⟨declaredToo, -⟩ := described.declares_of_precedes (.single precedes)
  cases precedes with
  | @writes reaction _ isWriter written =>
    exact .inl ⟨reaction.id, ⟨reaction, isWriter, rfl, written⟩,
      described.reactionAt?_position declaredToo⟩
  | @carries connection isDeclared zeroDelay =>
    exact .inr ⟨connection.source, ⟨connection, isDeclared, zeroDelay, rfl, rfl⟩, declaredToo, rfl⟩

theorem reads_of_isChain {port : PortId} (declared : program.Declares (.port port))
    {rest : List Nat} (steps : (index.position (.port port) :: rest).IsChain index.graph.Step)
    {first : ReactionId}
    (isFirst : (index.graph.reactionsOn (index.position (.port port) :: rest)).head? = some first) :
    ∃ read, ReflTransGen (program.Feeds .zeroDelay) port read ∧ program.Reads first read := by
  have noReaction := described.reactionAt?_position declared
  -- the walk goes on from port to port until it meets the first reaction
  induction rest generalizing port with
  | nil => simp [DependencyGraph.reactionsOn, noReaction, NodeKind.reaction?] at isFirst
  | cons node rest ih =>
    obtain ⟨step, later⟩ := List.isChain_cons_cons.mp steps
    have passed : (index.graph.reactionsOn (node :: rest)).head? = some first := by
      simpa [DependencyGraph.reactionsOn, noReaction, NodeKind.reaction?] using isFirst
    rcases described.step_from_port declared step with
      ⟨id, reads, isReaction⟩ | ⟨next, feeds, isPort, rfl⟩
    · obtain rfl : id = first :=
        Option.some.inj ((DependencyGraph.head?_reactionsOn isReaction rfl).symm.trans passed)
      exact ⟨port, .refl, reads⟩
    · obtain ⟨read, carried, reads⟩ :=
        ih isPort later passed (described.reactionAt?_position isPort)
      exact ⟨read, .head feeds carried, reads⟩

theorem writes_of_isChain {port : PortId} (declared : program.Declares (.port port))
    {before : List Nat} (steps : (before ++ [index.position (.port port)]).IsChain index.graph.Step)
    {last : ReactionId} (isLast :
      (index.graph.reactionsOn (before ++ [index.position (.port port)])).getLast? = some last) :
    ∃ written, ReflTransGen (program.Feeds .zeroDelay) written port ∧
      program.Writes last written := by
  have noReaction := described.reactionAt?_position declared
  -- the same walk is gone back from its end, port by port, until it meets the last reaction
  induction before using List.reverseRecOn generalizing port with
  | nil => simp [DependencyGraph.reactionsOn, noReaction, NodeKind.reaction?] at isLast
  | append_singleton before node ih =>
    obtain ⟨earlier, -, joined⟩ := List.isChain_append.mp steps
    have step : index.graph.Step node (index.position (.port port)) := joined node (by simp) _ rfl
    have passed : (index.graph.reactionsOn (before ++ [node])).getLast? = some last := by
      simpa [DependencyGraph.reactionsOn, noReaction, NodeKind.reaction?] using isLast
    rcases described.step_to_port declared step with
      ⟨id, writes, isReaction⟩ | ⟨previous, feeds, isPort, rfl⟩
    · obtain rfl : id = last := Option.some.inj
        ((DependencyGraph.getLast?_reactionsOn isReaction (by simp)).symm.trans passed)
      exact ⟨port, .refl, writes⟩
    · obtain ⟨written, carried, writes⟩ :=
        ih isPort earlier passed (described.reactionAt?_position isPort)
      exact ⟨written, carried.tail feeds, writes⟩

end Index.Describes

end ReactorCausality
