import ReactorCausality.Index.Survey
import ReactorCausality.Proofs.Renaming.Program

/-!
The index of a renamed program. Lookups find the renamed entries, the survey takes the same course and
finds the same problems, and so the renamed program is accepted exactly if the program is
(`Index.build_rename`).
-/
namespace ReactorCausality

variable (ρ : Renaming)

/-! ### Renaming an index -/

def ReactorEntry.rename (entry : ReactorEntry) : ReactorEntry :=
  { entry with
    reactor := entry.reactor.rename ρ
    parent := entry.parent.map (EntityId.rename ρ) }

@[simp]
theorem ReactorEntry.reactor_rename (entry : ReactorEntry) :
    (entry.rename ρ).reactor = entry.reactor.rename ρ :=
  rfl

def PortEntry.rename (entry : PortEntry) : PortEntry :=
  { entry with port := entry.port.rename ρ, owner := entry.owner.rename ρ }

def ReactionEntry.rename (entry : ReactionEntry) : ReactionEntry :=
  { entry with reaction := entry.reaction.rename ρ, owner := entry.owner.rename ρ }

def ConnectionEntry.rename (entry : ConnectionEntry) : ConnectionEntry :=
  ⟨entry.connection.rename ρ, entry.container.rename ρ⟩

def Index.rename (index : Index) : Index :=
  { main := index.main.rename ρ
    reactors := index.reactors.map (ReactorEntry.rename ρ)
    ports := index.ports.map (PortEntry.rename ρ)
    reactions := index.reactions.map (ReactionEntry.rename ρ)
    connections := index.connections.map (ConnectionEntry.rename ρ) }

/-- What is found by the new id is the renaming of what is found by the old one. -/
theorem find?_map_rename {α : Type} {kind : Entity} {key : α → EntityId kind} {change : α → α}
    (renames : ∀ item, key (change item) = (key item).rename ρ) (items : List α)
    (id : EntityId kind) :
    (items.map change).find? (fun item => key item = id.rename ρ) =
      (items.find? fun item => key item = id).map change := by
  rw [List.find?_map]
  congr 2
  funext item
  rw [Function.comp_apply, renames, decide_eq_decide]
  exact EntityId.rename_inj ρ

namespace Index

variable (index : Index)

@[simp]
theorem reactor?_rename (id : ReactorId) :
    (index.rename ρ).reactor? (id.rename ρ) = (index.reactor? id).map (ReactorEntry.rename ρ) :=
  find?_map_rename ρ (fun entry => entry.reactor.id_rename ρ) index.reactors id

@[simp]
theorem port?_rename (id : PortId) :
    (index.rename ρ).port? (id.rename ρ) = (index.port? id).map (PortEntry.rename ρ) :=
  find?_map_rename ρ (fun entry => entry.port.id_rename ρ) index.ports id

@[simp]
theorem reaction?_rename (id : ReactionId) :
    (index.rename ρ).reaction? (id.rename ρ) =
      (index.reaction? id).map (ReactionEntry.rename ρ) :=
  find?_map_rename ρ (fun entry => entry.reaction.id_rename ρ) index.reactions id

@[simp]
theorem connection?_rename (id : ConnectionId) :
    (index.rename ρ).connection? (id.rename ρ) =
      (index.connection? id).map (ConnectionEntry.rename ρ) :=
  find?_map_rename ρ (fun entry => entry.connection.id_rename ρ) index.connections id

@[simp]
theorem reactorName_rename (id : ReactorId) :
    (index.rename ρ).reactorName (id.rename ρ) = index.reactorName id := by
  simp [reactorName, Function.comp_def, ReactorEntry.rename]

@[simp]
theorem portName_rename (id : PortId) :
    (index.rename ρ).portName (id.rename ρ) = index.portName id := by
  simp [portName, Function.comp_def, PortEntry.rename]

@[simp]
theorem reactionName_rename (id : ReactionId) :
    (index.rename ρ).reactionName (id.rename ρ) = index.reactionName id := by
  simp [reactionName, Function.comp_def, ReactionEntry.rename]

@[simp]
theorem nameOfConnection_rename (connection : Connection) :
    (index.rename ρ).nameOfConnection (connection.rename ρ) = index.nameOfConnection connection := by
  cases delay : connection.delay <;> simp [nameOfConnection, Connection.rename, delay]

@[simp]
theorem portOwner?_rename (id : PortId) :
    (index.rename ρ).portOwner? (id.rename ρ) = (index.portOwner? id).map (EntityId.rename ρ) := by
  simp [portOwner?, Function.comp_def, PortEntry.rename]

@[simp]
theorem reactionOwner?_rename (id : ReactionId) :
    (index.rename ρ).reactionOwner? (id.rename ρ) =
      (index.reactionOwner? id).map (EntityId.rename ρ) := by
  simp [reactionOwner?, Function.comp_def, ReactionEntry.rename]

@[simp]
theorem parent?_rename (id : ReactorId) :
    (index.rename ρ).parent? (id.rename ρ) = (index.parent? id).map (EntityId.rename ρ) := by
  cases found : index.reactor? id <;> simp [parent?, found, ReactorEntry.rename]

@[simp]
theorem depth_rename (id : ReactorId) : (index.rename ρ).depth (id.rename ρ) = index.depth id := by
  simp [depth, Function.comp_def, ReactorEntry.rename]

end Index

/-! ### Surveying a renamed program -/

def Problem.rename : Problem → Problem
  | duplicateReactor id name => duplicateReactor (id.rename ρ) name
  | duplicatePort id name => duplicatePort (id.rename ρ) name
  | duplicateReaction id name => duplicateReaction (id.rename ρ) name
  | duplicateConnection id container => duplicateConnection (id.rename ρ) container
  | misplacedReaction name position index => misplacedReaction name position index
  | reactorMode name mode parent => reactorMode name (mode.rename ρ) parent
  | reactionMode name mode owner => reactionMode name (mode.rename ρ) owner
  | unknownRead reaction port => unknownRead reaction (port.rename ρ)
  | unknownWrite reaction port => unknownWrite reaction (port.rename ρ)
  | unknownEnd id container port => unknownEnd (id.rename ρ) container (port.rename ρ)
  | invisibleEnd id container port => invisibleEnd (id.rename ρ) container port
  | wrongEnd id container port connectionEnd direction =>
    wrongEnd (id.rename ρ) container port connectionEnd direction

def Survey.rename (survey : Survey) : Survey :=
  ⟨survey.index.rename ρ, survey.problems.map (Problem.rename ρ)⟩

namespace Survey

variable (survey : Survey)

@[simp]
theorem index_rename : (survey.rename ρ).index = survey.index.rename ρ :=
  rfl

theorem note_rename (problem : Problem) :
    (survey.rename ρ).note (problem.rename ρ) = (survey.note problem).rename ρ := by
  simp [note, rename]

theorem addPort_rename (owner : ReactorId) (path : String) (port : Port) :
    addPort (owner.rename ρ) path (survey.rename ρ) (port.rename ρ) =
      (addPort owner path survey port).rename ρ := by
  rw [addPort, addPort, index_rename, Port.id_rename, Index.port?_rename, Option.isSome_map]
  split
  · exact survey.note_rename ρ (.duplicatePort port.id s!"{path}.{port.name}")
  · simp [update, rename, Index.rename, PortEntry.rename, Port.rename]

theorem addReaction_rename (owner : ReactorId) (path : String) (reaction : Reaction)
    (position : Nat) :
    addReaction (owner.rename ρ) path (survey.rename ρ) (reaction.rename ρ, position) =
      (addReaction owner path survey (reaction, position)).rename ρ := by
  let name := s!"{path}.reaction_{reaction.index.toNat + 1}"
  have added (survey : Survey) :
      (if ((survey.rename ρ).index.reaction? (reaction.rename ρ).id).isSome then
        (survey.rename ρ).note (.duplicateReaction (reaction.rename ρ).id name)
      else
        (survey.rename ρ).update fun index =>
          { index with
            reactions := index.reactions ++ [⟨reaction.rename ρ, owner.rename ρ, name⟩] }) =
      (if (survey.index.reaction? reaction.id).isSome then
        survey.note (.duplicateReaction reaction.id name)
      else
        survey.update fun index =>
          { index with reactions := index.reactions ++ [⟨reaction, owner, name⟩] }).rename ρ := by
    rw [index_rename, Reaction.id_rename, Index.reaction?_rename, Option.isSome_map]
    split
    · exact survey.note_rename ρ (.duplicateReaction reaction.id name)
    · simp [update, rename, Index.rename, ReactionEntry.rename]
  -- a reaction in the wrong place is noted before its id is looked up
  rw [addReaction, addReaction, Reaction.index_rename]
  split
  · exact added survey
  · have noted := added (survey.note (.misplacedReaction name position reaction.index))
    rw [← note_rename] at noted
    exact noted

theorem addConnection_rename (container : ReactorId) (path : String) (connection : Connection) :
    addConnection (container.rename ρ) path (survey.rename ρ) (connection.rename ρ) =
      (addConnection container path survey connection).rename ρ := by
  rw [addConnection, addConnection, index_rename, Connection.id_rename, Index.connection?_rename,
    Option.isSome_map]
  split
  · exact survey.note_rename ρ (.duplicateConnection connection.id path)
  · simp [update, rename, Index.rename, ConnectionEntry.rename]

theorem addReactor_rename (entry : ReactorEntry) :
    (survey.rename ρ).addReactor (entry.rename ρ) = (survey.addReactor entry).rename ρ := by
  have added : (survey.rename ρ).update (fun index =>
      { index with reactors := index.reactors ++ [entry.rename ρ] }) =
      (survey.update fun index => { index with reactors := index.reactors ++ [entry] }).rename ρ := by
    simp [update, rename, Index.rename]
  simp only [addReactor, ReactorEntry.rename, Reactor.id_rename, Reactor.ports_rename,
    Reactor.reactions_rename, Reactor.connections_rename, List.zipIdx_map, List.foldl_map] at added ⊢
  rw [added, List.foldl_hom (rename ρ), List.foldl_hom (rename ρ), List.foldl_hom (rename ρ)]
  · exact fun survey connection => addConnection_rename ρ survey entry.reactor.id entry.name connection
  · exact fun survey (reaction, position) =>
      addReaction_rename ρ survey entry.reactor.id entry.name reaction position
  · exact fun survey port => addPort_rename ρ survey entry.reactor.id entry.name port

mutual

theorem visit_rename (parent : Option ReactorId) (depth : Nat) (path : String) (survey : Survey) :
    (reactor : Reactor) →
    visit (parent.map (EntityId.rename ρ)) depth path (survey.rename ρ) (reactor.rename ρ) =
      (visit parent depth path survey reactor).rename ρ
  | ⟨id, name, ports, reactions, connections, children, modes, mode⟩ => by
    rw [Reactor.rename, visit, visit, index_rename, Index.reactor?_rename, Option.isSome_map]
    split
    · exact survey.note_rename ρ (.duplicateReactor id path)
    · rw [← visitAll_rename id (depth + 1) path _ children, ← addReactor_rename]
      simp only [ReactorEntry.rename, Reactor.rename]

theorem visitAll_rename (parent : ReactorId) (depth : Nat) (path : String) (survey : Survey) :
    (reactors : List Reactor) →
    visitAll (parent.rename ρ) depth path (survey.rename ρ) (Reactor.renameAll ρ reactors) =
      (visitAll parent depth path survey reactors).rename ρ
  | [] => by rw [Reactor.renameAll, visitAll, visitAll]
  | child :: rest => by
    have first := visit_rename (some parent) depth s!"{path}.{child.name}" survey child
    rw [Option.map_some] at first
    rw [Reactor.renameAll, visitAll, visitAll, Reactor.name_rename, first, visitAll_rename]

end

end Survey

namespace ReactorEntry

variable (entry : ReactorEntry)

@[simp]
theorem declares_rename (mode : ModeId) :
    (entry.rename ρ).declares (mode.rename ρ) = entry.declares mode := by
  simp [declares, rename, Mode.rename, Function.comp_def]

theorem childProblems_rename :
    (entry.rename ρ).childProblems = entry.childProblems.map (Problem.rename ρ) := by
  rw [childProblems, childProblems, reactor_rename, Reactor.children_rename, List.filterMap_map,
    List.map_filterMap]
  congr 1
  funext child
  cases placed : child.mode with
  | none => simp [placed]
  | some mode =>
    simp only [Function.comp_apply, Reactor.mode_rename, placed, Option.map_some, declares_rename,
      Reactor.name_rename]
    split <;> rfl

theorem reactionProblems_rename (index : Index) (reaction : Reaction) :
    (entry.rename ρ).reactionProblems (index.rename ρ) (reaction.rename ρ) =
      (entry.reactionProblems index reaction).map (Problem.rename ρ) := by
  rw [reactionProblems, reactionProblems, Reaction.id_rename, Index.reactionName_rename,
    Reaction.mode_rename, List.map_append, List.map_append]
  congr 1
  · congr 1
    · cases placed : reaction.mode with
      | none => rfl
      | some mode =>
        simp only [Option.map_some, declares_rename]
        split <;> rfl
    · simp [List.filter_map, Function.comp_def, Problem.rename]
  · simp [List.filter_map, Function.comp_def, Problem.rename]

theorem problems_rename (index : Index) :
    (entry.rename ρ).problems (index.rename ρ) = (entry.problems index).map (Problem.rename ρ) := by
  rw [problems, problems, childProblems_rename, reactor_rename, Reactor.reactions_rename,
    List.flatMap_map, List.map_append, List.map_flatMap]
  simp only [reactionProblems_rename]

end ReactorEntry

namespace ConnectionEntry

variable (entry : ConnectionEntry) (index : Index)

theorem endProblem?_rename (connectionEnd : ConnectionEnd) :
    (entry.rename ρ).endProblem? (index.rename ρ) connectionEnd =
      (entry.endProblem? index connectionEnd).map (Problem.rename ρ) := by
  have isOnChild (owner : ReactorId) :
      (index.parent? owner).map (EntityId.rename ρ) = some (entry.container.rename ρ) ↔
        index.parent? owner = some entry.container := by
    simp
  cases connectionEnd
  all_goals
    simp only [endProblem?, rename, Connection.rename, Index.port?_rename, Index.reactorName_rename]
    generalize index.port? _ = found
    cases found with
    | none => rfl
    | some port =>
      simp only [Option.map_some, PortEntry.rename, Port.rename, EntityId.rename_inj,
        Index.parent?_rename, isOnChild]
      rw [apply_ite (Option.map (Problem.rename ρ)), apply_ite (Option.map (Problem.rename ρ))]
      rfl

theorem problems_rename :
    (entry.rename ρ).problems (index.rename ρ) = (entry.problems index).map (Problem.rename ρ) := by
  simp [problems, endProblem?_rename, Option.toList_map]

end ConnectionEntry

namespace Index

theorem referenceProblems_rename (index : Index) :
    (index.rename ρ).referenceProblems = index.referenceProblems.map (Problem.rename ρ) := by
  rw [referenceProblems, referenceProblems, List.map_append, List.map_flatMap, List.map_flatMap]
  simp only [rename, List.flatMap_map, ← ReactorEntry.problems_rename,
    ← ConnectionEntry.problems_rename]

/-- The survey of a renamed program comes to the renamed index and the renamed problems. -/
theorem survey_rename (program : Program) :
    survey (program.rename ρ) = (survey program).rename ρ := by
  have visited : Survey.visit none 0 (program.rename ρ).main.name
        ⟨{ main := (program.rename ρ).main }, []⟩ (program.rename ρ).main =
      (Survey.visit none 0 program.main.name ⟨{ main := program.main }, []⟩
        program.main).rename ρ := by
    rw [← Survey.visit_rename, Program.rename, Reactor.name_rename]
    rfl
  rw [survey, survey, visited]
  simp only [Survey.rename, referenceProblems_rename, List.map_append]

theorem build_rename (program : Program) : build (program.rename ρ) =
    ((build program).map (rename ρ)).mapError (List.map (Problem.rename ρ)) := by
  rw [build, build, survey_rename]
  simp only [Survey.rename]
  cases (survey program).problems <;> rfl

end Index

end ReactorCausality
