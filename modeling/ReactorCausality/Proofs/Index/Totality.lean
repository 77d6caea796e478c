import ReactorCausality.AnalysisError
import ReactorCausality.Proofs.Index.Contents
import ReactorCausality.Proofs.Outcome

/-!
Building the index of any program, however malformed. `build?` gives up where a reaction has no number
that is a word, and where the survey goes by an id and finds nothing under it. It never gives up at an id
(`build?_eq`): what the survey puts into the index belongs to a reactor that it has put there before, and
a reaction that it leaves out has the id of one that it has not (`Closed`).
-/
namespace ReactorCausality

/-- The number by which the reaction is named is a word. -/
def Reaction.Numbered (reaction : Reaction) : Prop :=
  reaction.index.toNat + 1 < UInt32.size

instance : DecidablePred Reaction.Numbered := fun reaction =>
  inferInstanceAs (Decidable (reaction.index.toNat + 1 < UInt32.size))

/-! ### Giving up -/

namespace Survey

/-- Adds a reaction, if it can be named. -/
def addReaction? (owner : ReactorId) (path : String) (survey : Survey)
    (declared : Reaction × Nat) : Option Survey :=
  if declared.1.Numbered then some (survey.addReaction owner path declared) else none

/-- Adds a reactor, if its reactions can be named. -/
def addReactor? (survey : Survey) (entry : ReactorEntry) : Option Survey := do
  let owner := entry.reactor.id
  let survey :=
    survey.update fun index => { index with reactors := index.reactors ++ [entry] }
  let survey := entry.reactor.ports.foldl (addPort owner entry.name) survey
  let survey ← entry.reactor.reactions.zipIdx.foldlM (addReaction? owner entry.name) survey
  return entry.reactor.connections.foldl (addConnection owner entry.name) survey

mutual

/-- Lays out a reactor and everything below it, if all reactions can be named. -/
def visit? (parent : Option ReactorId) (depth : Nat) (path : String) (survey : Survey) :
    Reactor → Option Survey
  | ⟨id, name, ports, reactions, connections, children, modes, mode⟩ =>
    if (survey.index.reactor? id).isSome then some (survey.note (.duplicateReactor id path))
    else do
      let reactor := ⟨id, name, ports, reactions, connections, children, modes, mode⟩
      let survey ← survey.addReactor? ⟨reactor, parent, depth, path⟩
      visitAll? id (depth + 1) path survey children

/-- Lays out the children of a reactor, if all reactions can be named. -/
def visitAll? (parent : ReactorId) (depth : Nat) (path : String) (survey : Survey) :
    List Reactor → Option Survey
  | [] => some survey
  | child :: rest => do
    let survey ← visit? (some parent) depth s!"{path}.{child.name}" survey child
    visitAll? parent depth path survey rest

end

end Survey

namespace Index

/-- What is wrong with a reaction, if it is found. -/
def reactionProblems? (index : Index) (entry : ReactorEntry) (reaction : Reaction) :
    Option (List Problem) :=
  (index.reaction? reaction.id).map fun _ => entry.reactionProblems index reaction

/-- What is wrong with the references of a reactor, if it is found and its reactions are. -/
def reactorProblems? (index : Index) (id : ReactorId) : Option (List Problem) := do
  let entry ← index.reactor? id
  let ofReactions ← entry.reactor.reactions.mapM (index.reactionProblems? entry)
  return entry.childProblems ++ ofReactions.flatten

/-- What is wrong with one end of a connection, if the container is found, and the owner of the port as
well unless the port is unknown. -/
def connectionEndProblem? (index : Index) (entry : ConnectionEntry) (connectionEnd : ConnectionEnd) :
    Option (Option Problem) := do
  let _ ← index.reactor? entry.container
  match index.port? (entry.endPort connectionEnd) with
  | none => return entry.endProblem? index connectionEnd
  | some port => (index.reactor? port.owner).map fun _ => entry.endProblem? index connectionEnd

/-- What is wrong with the ends of a connection, if it is found and what they belong to is. -/
def connectionProblems? (index : Index) (id : ConnectionId) : Option (List Problem) := do
  let entry ← index.connection? id
  let source ← index.connectionEndProblem? entry .source
  let target ← index.connectionEndProblem? entry .target
  return source.toList ++ target.toList

/-- What is wrong with the references, where every lookup has to succeed. -/
def referenceProblems? (index : Index) : Option (List Problem) := do
  let ofReactors ← index.reactors.mapM fun entry => index.reactorProblems? entry.reactor.id
  let ofConnections ←
    index.connections.mapM fun entry => index.connectionProblems? entry.connection.id
  return ofReactors.flatten ++ ofConnections.flatten

/-- The index of a program, or everything that is wrong with it, unless the survey has to give up. -/
def build? (program : Program) : Option (Except (List Problem) Index) := do
  let main := program.main
  let survey ← Survey.visit? none 0 main.name ⟨{ main := main }, []⟩ main
  let references ← survey.index.referenceProblems?
  match survey.problems ++ references with
  | [] => return .ok survey.index
  | problems => return .error problems

/-! ### What is found under the ids -/

/-- Whatever the index contains belongs to a reactor that it contains, and the reactions of its reactors
are found under their ids, which may be those of other reactions. -/
structure Closed (index : Index) : Prop where
  owners : ∀ entry ∈ index.ports, (index.reactor? entry.owner).isSome
  containers : ∀ entry ∈ index.connections, (index.reactor? entry.container).isSome
  reactions : ∀ entry ∈ index.reactors, ∀ reaction ∈ entry.reactor.reactions,
    (index.reaction? reaction.id).isSome

theorem closed_empty (main : Reactor) : ({ main } : Index).Closed :=
  ⟨nofun, nofun, nofun⟩

/-- An index has more than another only in what belongs to a reactor. -/
structure Declares (owner : ReactorId) (before after : Index) : Prop where
  reactors : after.reactors = before.reactors
  ports : ∀ entry ∈ after.ports, entry ∈ before.ports ∨ entry.owner = owner
  connections : ∀ entry ∈ after.connections, entry ∈ before.connections ∨ entry.container = owner
  reactions : ∀ id, (before.reaction? id).isSome → (after.reaction? id).isSome

namespace Declares

variable {owner : ReactorId} {before between after : Index}

theorem refl (index : Index) : Declares owner index index where
  reactors := rfl
  ports _ := .inl
  connections _ := .inl
  reactions _ known := known

theorem trans (first : Declares owner before between) (second : Declares owner between after) :
    Declares owner before after where
  reactors := second.reactors.trans first.reactors
  ports entry member := (second.ports entry member).elim (first.ports entry) .inr
  connections entry member := (second.connections entry member).elim (first.connections entry) .inr
  reactions id known := second.reactions id (first.reactions id known)

theorem foldl {α : Type} {step : Survey → α → Survey}
    (each : ∀ survey item, Declares owner survey.index (step survey item).index) (items : List α)
    (survey : Survey) : Declares owner survey.index (items.foldl step survey).index := by
  induction items generalizing survey with
  | nil => exact refl _
  | cons item rest ih => exact (each survey item).trans (ih _)

end Declares

end Index

namespace Survey

open Index (Declares)

variable (owner : ReactorId) (path : String) (survey : Survey)

theorem addPort_declares (port : Port) :
    Declares owner survey.index (survey.addPort owner path port).index := by
  simp only [addPort]
  split
  · exact .refl _
  · refine ⟨rfl, fun entry member => ?_, fun _ => .inl, fun _ known => known⟩
    exact (List.mem_append.mp member).imp_right fun new => by rw [List.mem_singleton.mp new]

theorem addConnection_declares (connection : Connection) :
    Declares owner survey.index (survey.addConnection owner path connection).index := by
  simp only [addConnection]
  split
  · exact .refl _
  · refine ⟨rfl, fun _ => .inl, fun entry member => ?_, fun _ known => known⟩
    exact (List.mem_append.mp member).imp_right fun new => by rw [List.mem_singleton.mp new]

/-- Whether its position is right or not, a reaction is in the index afterwards, or another one with its
id is. -/
theorem index_addReaction (declared : Reaction × Nat) :
    (survey.addReaction owner path declared).index =
      if (survey.index.reaction? declared.1.id).isSome then survey.index
      else { survey.index with
        reactions := survey.index.reactions ++
          [⟨declared.1, owner, s!"{path}.reaction_{declared.1.index.toNat + 1}"⟩] } := by
  simp only [addReaction]
  split <;> split <;> simp_all [note, update]

theorem addReaction_declares (declared : Reaction × Nat) :
    Declares owner survey.index (survey.addReaction owner path declared).index := by
  rw [index_addReaction]
  split
  · exact .refl _
  · refine ⟨rfl, fun _ => .inl, fun _ => .inl, fun id known => ?_⟩
    simp only [Index.reaction?, List.find?_append, Option.isSome_or] at known ⊢
    rw [known, Bool.true_or]

theorem isSome_reaction?_addReaction (declared : Reaction × Nat) :
    ((survey.addReaction owner path declared).index.reaction? declared.1.id).isSome := by
  rw [index_addReaction]
  split
  · assumption
  · simp [Index.reaction?]

/-- A reaction that has been added is still found when more have been. -/
theorem isSome_reaction?_foldl {items : List (Reaction × Nat)} {declared : Reaction × Nat}
    (member : declared ∈ items) :
    ((items.foldl (addReaction owner path) survey).index.reaction? declared.1.id).isSome := by
  induction items generalizing survey with
  | nil => contradiction
  | cons first rest ih =>
    rcases List.mem_cons.mp member with rfl | later
    · exact (Declares.foldl (addReaction_declares owner path) rest _).reactions _
        (isSome_reaction?_addReaction owner path survey declared)
    · exact ih _ later

variable {survey} in
/-- A reactor is added together with everything that it declares. -/
theorem addReactor_closed (closed : survey.index.Closed) (entry : ReactorEntry) :
    (survey.addReactor entry).index.Closed := by
  let owner := entry.reactor.id
  let entered := survey.update fun index => { index with reactors := index.reactors ++ [entry] }
  let ported := entry.reactor.ports.foldl (addPort owner entry.name) entered
  let reacting := entry.reactor.reactions.zipIdx.foldl (addReaction owner entry.name) ported
  have ports : Declares owner entered.index ported.index :=
    .foldl (addPort_declares owner entry.name) _ _
  have reactions : Declares owner ported.index reacting.index :=
    .foldl (addReaction_declares owner entry.name) _ _
  have connections : Declares owner reacting.index (survey.addReactor entry).index :=
    .foldl (addConnection_declares owner entry.name) _ _
  have declares := ports.trans (reactions.trans connections)
  have known (id : ReactorId) (or : (survey.index.reactor? id).isSome ∨ id = owner) :
      ((survey.addReactor entry).index.reactor? id).isSome := by
    rw [Index.reactor?, declares.reactors]
    rcases or with old | rfl
    · simp only [Index.reactor?, entered, update, List.find?_append, Option.isSome_or] at old ⊢
      rw [old, Bool.true_or]
    · simp [entered, update, owner]
  constructor
  · intro port member
    exact known _ ((declares.ports port member).imp_left (closed.owners port))
  · intro connection member
    exact known _ ((declares.connections connection member).imp_left (closed.containers connection))
  · intro other member reaction declared
    rw [declares.reactors] at member
    rcases List.mem_append.mp member with old | new
    · exact declares.reactions _ (closed.reactions other old reaction declared)
    · obtain rfl := List.mem_singleton.mp new
      rw [← List.zipIdx_map_fst 0 other.reactor.reactions] at declared
      obtain ⟨placed, listed, rfl⟩ := List.mem_map.mp declared
      exact connections.reactions _ (isSome_reaction?_foldl owner other.name ported listed)

mutual

theorem visit_closed (parent : Option ReactorId) (depth : Nat) (path : String) {survey : Survey}
    (closed : survey.index.Closed) :
    (reactor : Reactor) → (survey.visit parent depth path reactor).index.Closed
  | ⟨id, name, ports, reactions, connections, children, modes, mode⟩ => by
    rw [visit]
    split
    · exact closed
    · exact visitAll_closed id (depth + 1) path (addReactor_closed closed _) children

theorem visitAll_closed (parent : ReactorId) (depth : Nat) (path : String) {survey : Survey}
    (closed : survey.index.Closed) :
    (reactors : List Reactor) → (survey.visitAll parent depth path reactors).index.Closed
  | [] => by rwa [visitAll]
  | child :: rest => by
    rw [visitAll]
    exact visitAll_closed parent depth path (visit_closed (some parent) depth _ closed child) rest

end

/-! ### Never giving up -/

theorem addReactor?_eq (entry : ReactorEntry)
    (numbered : ∀ reaction ∈ entry.reactor.reactions, reaction.Numbered) :
    survey.addReactor? entry = some (survey.addReactor entry) := by
  have each : ∀ declared ∈ entry.reactor.reactions.zipIdx, ∀ before,
      addReaction? entry.reactor.id entry.name before declared =
        some (addReaction entry.reactor.id entry.name before declared) := by
    intro declared listed before
    exact if_pos (numbered _ (List.fst_mem_of_mem_zipIdx listed))
  simp only [addReactor?, addReactor, foldlM_eq_some each, Option.bind_eq_bind, Option.bind_some]
  rfl

mutual

theorem visit?_eq (parent : Option ReactorId) (depth : Nat) (path : String) (survey : Survey) :
    (reactor : Reactor) →
      (∀ inside ∈ reactor.preorder, ∀ reaction ∈ inside.reactions, reaction.Numbered) →
        survey.visit? parent depth path reactor = some (survey.visit parent depth path reactor)
  | ⟨id, name, ports, reactions, connections, children, modes, mode⟩, numbered => by
    rw [Reactor.preorder, List.forall_mem_cons] at numbered
    rw [visit?, visit]
    split
    · rfl
    · have added := survey.addReactor?_eq
        ⟨⟨id, name, ports, reactions, connections, children, modes, mode⟩, parent, depth, path⟩
        numbered.1
      simp only [added, Option.bind_eq_bind, Option.bind_some]
      exact visitAll?_eq id (depth + 1) path _ children numbered.2

theorem visitAll?_eq (parent : ReactorId) (depth : Nat) (path : String) (survey : Survey) :
    (reactors : List Reactor) →
      (∀ inside ∈ Reactor.preorderAll reactors, ∀ reaction ∈ inside.reactions,
        reaction.Numbered) →
        survey.visitAll? parent depth path reactors =
          some (survey.visitAll parent depth path reactors)
  | [], _ => by rw [visitAll?, visitAll]
  | child :: rest, numbered => by
    rw [Reactor.preorderAll, List.forall_mem_append] at numbered
    rw [visitAll?, visitAll]
    simp only [visit?_eq (some parent) depth _ survey child numbered.1, Option.bind_eq_bind,
      Option.bind_some]
    exact visitAll?_eq parent depth path _ rest numbered.2

end

end Survey

namespace Index

variable {index : Index}

theorem Closed.connectionEndProblem?_eq (closed : index.Closed) {entry : ConnectionEntry}
    (listed : entry ∈ index.connections) (connectionEnd : ConnectionEnd) :
    index.connectionEndProblem? entry connectionEnd = some (entry.endProblem? index connectionEnd) := by
  obtain ⟨container, isContainer⟩ := Option.isSome_iff_exists.mp (closed.containers entry listed)
  simp only [connectionEndProblem?, isContainer, Option.bind_eq_bind, Option.bind_some]
  split
  · rfl
  · next port found =>
    have owned := closed.owners port (mem_of_port?_eq_some found).1
    obtain ⟨owner, isOwner⟩ := Option.isSome_iff_exists.mp owned
    rw [isOwner, Option.map_some]

theorem Closed.reactorProblems?_eq (closed : index.Closed) (distinct : index.DistinctIds)
    {entry : ReactorEntry} (listed : entry ∈ index.reactors) :
    index.reactorProblems? entry.reactor.id = some (entry.problems index) := by
  have each : ∀ reaction ∈ entry.reactor.reactions,
      index.reactionProblems? entry reaction = some (entry.reactionProblems index reaction) := by
    intro reaction declared
    obtain ⟨found, isFound⟩ :=
      Option.isSome_iff_exists.mp (closed.reactions entry listed reaction declared)
    rw [reactionProblems?, isFound, Option.map_some]
  simp only [reactorProblems?, distinct.reactor?_of_mem listed, mapM_eq_some each,
    Option.bind_eq_bind, Option.bind_some]
  rfl

theorem Closed.referenceProblems?_eq (closed : index.Closed) (distinct : index.DistinctIds) :
    index.referenceProblems? = some index.referenceProblems := by
  have reactors : ∀ entry ∈ index.reactors,
      index.reactorProblems? entry.reactor.id = some (entry.problems index) :=
    fun entry listed => closed.reactorProblems?_eq distinct listed
  have connections : ∀ entry ∈ index.connections,
      index.connectionProblems? entry.connection.id = some (entry.problems index) := by
    intro entry listed
    simp only [connectionProblems?, distinct.connection?_of_mem listed,
      closed.connectionEndProblem?_eq listed, Option.bind_eq_bind, Option.bind_some]
    rfl
  simp only [referenceProblems?, mapM_eq_some reactors, mapM_eq_some connections,
    Option.bind_eq_bind, Option.bind_some]
  rfl

/-- The survey of a program finds everything that it looks up, whatever is wrong with the program. -/
theorem build?_eq {program : Program} (numbered : ∀ reaction ∈ program.reactions, reaction.Numbered) :
    build? program = some (build program) := by
  have inside : ∀ reactor ∈ program.main.preorder, ∀ reaction ∈ reactor.reactions,
      reaction.Numbered :=
    fun reactor listed reaction declared =>
      numbered reaction (List.mem_flatMap.mpr ⟨reactor, listed, declared⟩)
  have visited := Survey.visit?_eq none 0 program.main.name ⟨{ main := program.main }, []⟩
    program.main inside
  have distinct := (Survey.visit_adds none 0 program.main.name program.main).keeps
    ⟨{ main := program.main }, []⟩ (by simp [distinctIds_iff])
  have closed : (Survey.visit none 0 program.main.name ⟨{ main := program.main }, []⟩
      program.main).index.Closed :=
    Survey.visit_closed none 0 _ (closed_empty program.main) _
  simp only [build?, visited, closed.referenceProblems?_eq distinct, Option.bind_eq_bind,
    Option.bind_some]
  rw [build, survey]
  split <;> simp_all

end Index

theorem Index.build_ne_error_nil (program : Program) : build program ≠ .error [] := by
  rw [build]
  split
  · simp
  · next some =>
    intro none
    exact some (Except.error.inj none)

/-- Whatever is wrong with a program whose reactions can be named, the survey finds everything that it
looks up, and the answer is an index or a report of a malformed program that has one line at least. -/
theorem survey_always_answers (program : Program)
    (numbered : ∀ reaction ∈ program.reactions, reaction.Numbered) :
    Index.build? program = some (Index.build program) ∧
      ((∃ index, Index.build program = .ok index) ∨
        ∃ detail details, (Index.build program).mapError AnalysisError.ofProblems =
          .error (.malformed (detail :: details))) := by
  refine ⟨Index.build?_eq numbered, ?_⟩
  cases answer : Index.build program with
  | ok index => exact .inl ⟨index, rfl⟩
  | error problems =>
    cases problems with
    | nil => exact absurd answer (Index.build_ne_error_nil program)
    | cons problem problems => exact .inr ⟨_, _, rfl⟩

/-- Ids come back in a child and below it, and what is referred to is not there. -/
def Program.tangle : Program where
  main :=
    { id := ⟨0⟩, name := "main", ports := [⟨⟨0⟩, "in", .input⟩]
      reactions := [
        { id := ⟨0⟩, index := 4294967294, triggers := [.port ⟨9⟩], mode := some ⟨4⟩ }]
      children := [
        { id := ⟨1⟩, name := "inner", ports := [⟨⟨0⟩, "in", .input⟩]
          reactions := [{ id := ⟨0⟩, index := 0, triggers := [.port ⟨0⟩, .port ⟨7⟩] }]
          children := [{ id := ⟨0⟩, name := "again", ports := [⟨⟨5⟩, "in", .input⟩] }] }]
      connections := [{ id := ⟨0⟩, source := ⟨0⟩, target := ⟨5⟩ }] }

/-- What is below the repeated reactor is left out, and the repeated reaction goes by the name of the one
that has the id. -/
theorem survey_always_answers_tangle :
    (∀ reaction ∈ Program.tangle.reactions, reaction.Numbered) ∧
      Index.build? .tangle = some (Index.build .tangle) ∧
      Index.build .tangle = .error [
        .misplacedReaction "main.reaction_4294967295" 0 4294967294,
        .duplicatePort ⟨0⟩ "main.inner.in",
        .duplicateReaction ⟨0⟩ "main.inner.reaction_1",
        .duplicateReactor ⟨0⟩ "main.inner.again",
        .reactionMode "main.reaction_4294967295" ⟨4⟩ "main",
        .unknownRead "main.reaction_4294967295" ⟨9⟩,
        .unknownRead "main.reaction_4294967295" ⟨7⟩,
        .unknownEnd ⟨0⟩ "main" ⟨5⟩] := by
  have numbered : ∀ reaction ∈ Program.tangle.reactions, reaction.Numbered := by decide
  exact ⟨numbered, (survey_always_answers .tangle numbered).1, rfl⟩

end ReactorCausality
