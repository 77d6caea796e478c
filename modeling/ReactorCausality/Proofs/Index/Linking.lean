import ReactorCausality.Proofs.Index.Ports

/-!
The tables behind the lookups of a port. A pass over an index goes through what the reactions and the
connections refer to, in the order of the program. It enters the reactions that read or write a port and the
connections that leave or enter it under the port, and keeps what is wrong with a reference in place of it.
What it keeps are the problems of the references (`problems_links`), and if there are none, a look into a
table gives what the index finds by going through its entries (`Describes.answers_links`).
-/
namespace ReactorCausality

/-! ### Tables -/

/-- Lists that are found by ports. A port under which nothing has been entered has the empty list. -/
structure PortTable (α : Type) where
  rows : List (PortId × List α) := []

namespace PortTable

variable {α : Type}

def find (table : PortTable α) (port : PortId) : List α :=
  (table.rows.lookup port).getD []

/-- Enters an item behind the others under a port, in a row of its own if there are no others. -/
def pushRow (port : PortId) (item : α) : List (PortId × List α) → List (PortId × List α)
  | [] => [(port, [item])]
  | (other, items) :: rest =>
    if other = port then (other, items ++ [item]) :: rest
    else (other, items) :: pushRow port item rest

def push (table : PortTable α) (port : PortId) (item : α) : PortTable α :=
  ⟨pushRow port item table.rows⟩

theorem lookup_pushRow (port : PortId) (item : α) (rows : List (PortId × List α)) :
    (pushRow port item rows).lookup port = some ((rows.lookup port).getD [] ++ [item]) := by
  induction rows with
  | nil => simp [pushRow]
  | cons row rest ih =>
    obtain ⟨other, items⟩ := row
    by_cases same : other = port
    · subst same
      simp [pushRow]
    · rw [pushRow, if_neg same, List.lookup_cons, List.lookup_cons,
        beq_eq_false_iff_ne.mpr (Ne.symm same)]
      exact ih

theorem lookup_pushRow_of_ne {port other : PortId} (differ : port ≠ other) (item : α)
    (rows : List (PortId × List α)) : (pushRow port item rows).lookup other = rows.lookup other := by
  induction rows with
  | nil => simp [pushRow, Ne.symm differ]
  | cons row rest ih =>
    obtain ⟨first, items⟩ := row
    by_cases same : first = port
    · subst same
      rw [pushRow, if_pos rfl, List.lookup_cons, List.lookup_cons,
        beq_eq_false_iff_ne.mpr (Ne.symm differ)]
    · rw [pushRow, if_neg same, List.lookup_cons, List.lookup_cons, ih]

theorem find_push (table : PortTable α) (port : PortId) (item : α) (other : PortId) :
    (table.push port item).find other =
      table.find other ++ (if port = other then some item else none).toList := by
  by_cases same : port = other
  · subst same
    simp [find, push, lookup_pushRow]
  · simp [find, push, lookup_pushRow_of_ne same, same]

end PortTable

/-! ### References -/

/-- What a pass over an index meets. -/
inductive Reference where
  | read (port : PortId) (reaction : ReactionId)
  | write (port : PortId) (reaction : ReactionId)
  | connect (connection : Connection)
  /-- In place of a reference with which something is wrong. -/
  | fault (problem : Problem)

namespace Reference

def reader? (port : PortId) : Reference → Option ReactionId
  | read other reaction => if other = port then some reaction else none
  | _ => none

def writer? (port : PortId) : Reference → Option ReactionId
  | write other reaction => if other = port then some reaction else none
  | _ => none

def leaving? (port : PortId) : Reference → Option ConnectionId
  | connect connection => if connection.source = port then some connection.id else none
  | _ => none

def entering? (port : PortId) : Reference → Option ConnectionId
  | connect connection => if connection.target = port then some connection.id else none
  | _ => none

def problem? : Reference → Option Problem
  | fault problem => some problem
  | _ => none

end Reference

namespace ReactorEntry

variable (entry : ReactorEntry) (index : Index) (reaction : Reaction)

/-- A reaction that is placed in a mode that its reactor does not declare. -/
def modeProblem? : Option Problem :=
  reaction.mode.bind fun mode =>
    if entry.declares mode then none
    else some (.reactionMode (index.reactionName reaction.id) mode entry.name)

/-- What a reaction refers to: its mode, then what it reads, then what it writes. -/
def reactionReferences : List Reference :=
  let name := index.reactionName reaction.id
  let known := fun (port : PortId) => (index.port? port).isSome
  (entry.modeProblem? index reaction).toList.map .fault
    ++ (reaction.readPorts.map fun port =>
      if known port then .read port reaction.id else .fault (.unknownRead name port))
    ++ reaction.writtenPorts.map fun port =>
      if known port then .write port reaction.id else .fault (.unknownWrite name port)

/-- What is referred to in a reactor: the modes of its children, then what its reactions refer to. -/
def references : List Reference :=
  entry.childProblems.map .fault ++ entry.reactor.reactions.flatMap (entry.reactionReferences index)

end ReactorEntry

/-- A connection refers to both of its ends, and counts if nothing is wrong with either. -/
def ConnectionEntry.references (entry : ConnectionEntry) (index : Index) : List Reference :=
  match entry.problems index with
  | [] => [.connect entry.connection]
  | problems => problems.map .fault

/-! ### The pass -/

/-- What refers to the ports, and what is wrong with the references. -/
structure Links where
  readers : PortTable ReactionId := {}
  writers : PortTable ReactionId := {}
  outgoing : PortTable ConnectionId := {}
  incoming : PortTable ConnectionId := {}
  problems : List Problem := []

def Links.enter (links : Links) : Reference → Links
  | .read port reaction => { links with readers := links.readers.push port reaction }
  | .write port reaction => { links with writers := links.writers.push port reaction }
  | .connect connection =>
    { links with
      outgoing := links.outgoing.push connection.source connection.id
      incoming := links.incoming.push connection.target connection.id }
  | .fault problem => { links with problems := links.problems ++ [problem] }

namespace Index

def referenceList (index : Index) : List Reference :=
  index.reactors.flatMap (fun entry => entry.references index)
    ++ index.connections.flatMap fun entry => entry.references index

def links (index : Index) : Links :=
  index.referenceList.foldl Links.enter {}

/-- The connection with an id, if a walk may follow it. -/
def followed? (index : Index) (walk : PortWalk) (id : ConnectionId) : Option Connection :=
  ((index.connection? id).map ConnectionEntry.connection).filter walk.allows

end Index

namespace Links

variable (links : Links) (index : Index)

def targets (walk : PortWalk) (port : PortId) : List PortId :=
  ((links.outgoing.find port).filterMap (index.followed? walk)).map Connection.target

def sources (walk : PortWalk) (port : PortId) : List PortId :=
  ((links.incoming.find port).filterMap (index.followed? walk)).map Connection.source

/-- Looking into the tables gives what the index finds by going through its entries. -/
structure Answers : Prop where
  problems : links.problems = []
  readers : ∀ port, links.readers.find port = index.readers port
  writers : ∀ port, links.writers.find port = index.writers port
  targets : ∀ walk port, links.targets index walk port = index.directTargets walk port
  sources : ∀ walk port, links.sources index walk port = index.directSources walk port

/-- What is read off the tables after a pass was there before or comes from one of the references. -/
theorem foldl_enter {α : Type} (view : Links → List α) {part? : Reference → Option α}
    (step : ∀ links reference, view (links.enter reference) = view links ++ (part? reference).toList)
    (references : List Reference) (links : Links) :
    view (references.foldl enter links) = view links ++ references.filterMap part? := by
  induction references generalizing links with
  | nil => simp
  | cons reference rest ih =>
    rw [List.foldl_cons, ih, step, List.append_assoc, List.filterMap_cons]
    cases part? reference <;> rfl

end Links

/-! ### What is wrong -/

/-- A reference to a port is at fault if the port is unknown. -/
theorem filterMap_problem?_ports {index : Index} {found : PortId → Reference}
    (right : ∀ port, (found port).problem? = none) (wrong : PortId → Problem) (ports : List PortId) :
    (ports.map fun port =>
        if (index.port? port).isSome then found port else .fault (wrong port)).filterMap
          Reference.problem? =
      (ports.filter fun port => (index.port? port).isNone).map wrong := by
  induction ports with
  | nil => rfl
  | cons port rest ih =>
    rw [List.map_cons, List.filterMap_cons, ih, List.filter_cons]
    cases index.port? port with
    | none => rfl
    | some _ => simp [right]

theorem filterMap_problem?_faults (problems : List Problem) :
    (problems.map Reference.fault).filterMap Reference.problem? = problems := by
  rw [List.filterMap_map]
  exact List.filterMap_some

namespace ReactorEntry

variable (entry : ReactorEntry) (index : Index) (reaction : Reaction)

theorem filterMap_problem?_reactionReferences :
    (entry.reactionReferences index reaction).filterMap Reference.problem? =
      entry.reactionProblems index reaction := by
  rw [reactionReferences, List.filterMap_append, List.filterMap_append,
    filterMap_problem?_faults, filterMap_problem?_ports fun _ => rfl,
    filterMap_problem?_ports fun _ => rfl, reactionProblems]
  congr 2
  cases placed : reaction.mode with
  | none => simp [modeProblem?, placed]
  | some mode => by_cases declared : entry.declares mode <;> simp [modeProblem?, placed, declared]

theorem filterMap_problem?_references :
    (entry.references index).filterMap Reference.problem? = entry.problems index := by
  rw [references, List.filterMap_append, filterMap_problem?_faults, List.filterMap_flatMap]
  simp only [filterMap_problem?_reactionReferences, problems]

end ReactorEntry

theorem ConnectionEntry.filterMap_problem?_references (entry : ConnectionEntry) (index : Index) :
    (entry.references index).filterMap Reference.problem? = entry.problems index := by
  rw [references]
  split
  · next none => exact none.symm
  · exact filterMap_problem?_faults _

/-- The pass keeps exactly what is wrong with the references, in the same order. -/
theorem Index.problems_links (index : Index) : index.links.problems = index.referenceProblems := by
  have kept : index.links.problems = index.referenceList.filterMap Reference.problem? :=
    Links.foldl_enter Links.problems
      (fun links reference => by cases reference <;> simp [Links.enter, Reference.problem?]) _ {}
  rw [kept, referenceList, List.filterMap_append, List.filterMap_flatMap, List.filterMap_flatMap,
    referenceProblems]
  simp only [ReactorEntry.filterMap_problem?_references,
    ConnectionEntry.filterMap_problem?_references]

/-! ### What is entered -/

theorem filterMap_ite {α β : Type} (p : α → Prop) [DecidablePred p] (f : α → β) (items : List α) :
    (items.filterMap fun item => if p item then some (f item) else none) =
      (items.filter fun item => p item).map f := by
  induction items with
  | nil => rfl
  | cons item rest ih => by_cases holds : p item <;> simp [holds, ih]

/-- What is in a list without repetitions is found in it once. -/
theorem filterMap_eq_of_nodup {α β : Type} [DecidableEq α] {items : List α} (distinct : items.Nodup)
    (item : α) (value : β) :
    (items.filterMap fun other => if other = item then some value else none) =
      (if item ∈ items then some value else none).toList := by
  induction items with
  | nil => rfl
  | cons first rest ih =>
    obtain ⟨fresh, distinct⟩ := List.nodup_cons.mp distinct
    by_cases same : first = item
    · subst same
      simp [ih distinct, fresh]
    · simp [ih distinct, same, Ne.symm same]

namespace Index

variable (index : Index) (port : PortId)

theorem find_readers_links :
    index.links.readers.find port = index.referenceList.filterMap (Reference.reader? port) :=
  Links.foldl_enter (fun links => links.readers.find port)
    (fun links reference => by
      cases reference <;> simp [Links.enter, Reference.reader?, PortTable.find_push]) _ {}

theorem find_writers_links :
    index.links.writers.find port = index.referenceList.filterMap (Reference.writer? port) :=
  Links.foldl_enter (fun links => links.writers.find port)
    (fun links reference => by
      cases reference <;> simp [Links.enter, Reference.writer?, PortTable.find_push]) _ {}

theorem find_outgoing_links :
    index.links.outgoing.find port = index.referenceList.filterMap (Reference.leaving? port) :=
  Links.foldl_enter (fun links => links.outgoing.find port)
    (fun links reference => by
      cases reference <;> simp [Links.enter, Reference.leaving?, PortTable.find_push]) _ {}

theorem find_incoming_links :
    index.links.incoming.find port = index.referenceList.filterMap (Reference.entering? port) :=
  Links.foldl_enter (fun links => links.incoming.find port)
    (fun links reference => by
      cases reference <;> simp [Links.enter, Reference.entering?, PortTable.find_push]) _ {}

end Index

/-- The ports to which a reaction refers. -/
def Reaction.references (reaction : Reaction) : List Reference :=
  (reaction.readPorts.map fun port => .read port reaction.id)
    ++ reaction.writtenPorts.map fun port => .write port reaction.id

namespace Reaction

variable (reaction : Reaction) (port : PortId)

/-- A reaction is a reader of a port once, also where the port is both a trigger and a source of it. -/
theorem filterMap_reader?_references : reaction.references.filterMap (Reference.reader? port) =
    (if port ∈ reaction.readPorts then some reaction.id else none).toList := by
  have written : (reaction.writtenPorts.map fun other => Reference.write other reaction.id).filterMap
      (Reference.reader? port) = [] := by
    simp [Reference.reader?]
  rw [references, List.filterMap_append, written, List.append_nil, List.filterMap_map]
  exact filterMap_eq_of_nodup (nodup_distinct _) port reaction.id

theorem filterMap_writer?_references : reaction.references.filterMap (Reference.writer? port) =
    (if port ∈ reaction.writtenPorts then some reaction.id else none).toList := by
  have read : (reaction.readPorts.map fun other => Reference.read other reaction.id).filterMap
      (Reference.writer? port) = [] := by
    simp [Reference.writer?]
  rw [references, List.filterMap_append, read, List.nil_append, List.filterMap_map]
  exact filterMap_eq_of_nodup (nodup_distinct _) port reaction.id

end Reaction

theorem ReactorEntry.reactionReferences_eq {entry : ReactorEntry} {index : Index}
    {reaction : Reaction} (none : entry.reactionProblems index reaction = []) :
    entry.reactionReferences index reaction = reaction.references := by
  obtain ⟨declared, known⟩ := reactionProblems_eq_nil_iff.mp none
  have placed : entry.modeProblem? index reaction = .none := by
    cases mode : reaction.mode with
    | none => simp [modeProblem?, mode]
    | some mode => simp [modeProblem?, mode, declares_iff.mpr (declared _ mode)]
  rw [reactionReferences, placed, Reaction.references, Option.toList_none, List.map_nil,
    List.nil_append]
  congr 1
  · exact List.map_congr_left fun port isRead => if_pos (known port (List.mem_append_left _ isRead))
  · exact List.map_congr_left fun port isWritten =>
      if_pos (known port (List.mem_append_right _ isWritten))

theorem ReactorEntry.references_eq {entry : ReactorEntry} {index : Index}
    (none : entry.problems index = []) :
    entry.references index = entry.reactor.reactions.flatMap Reaction.references := by
  obtain ⟨ofChildren, ofReactions⟩ := List.append_eq_nil_iff.mp none
  rw [references, ofChildren, List.map_nil, List.nil_append]
  exact List.flatMap_congr fun reaction declared =>
    reactionReferences_eq (List.flatMap_eq_nil_iff.mp ofReactions reaction declared)

namespace Index.Describes

variable {index : Index} {program : Program} (described : index.Describes program)
include described

/-- In an accepted program every reference counts. -/
theorem referenceList_eq : index.referenceList =
    program.reactions.flatMap Reaction.references ++ program.connections.map .connect := by
  obtain ⟨reactors, connections⟩ := List.append_eq_nil_iff.mp described.references
  rw [referenceList, ← described.map_connections, Program.reactions, ← described.map_reactors,
    List.flatMap_map, List.flatMap_assoc, List.map_map, List.map_eq_flatMap]
  congr 1
  · exact List.flatMap_congr fun entry listed =>
      ReactorEntry.references_eq (List.flatMap_eq_nil_iff.mp reactors entry listed)
  · refine List.flatMap_congr fun entry listed => ?_
    rw [ConnectionEntry.references, List.flatMap_eq_nil_iff.mp connections entry listed]
    rfl

/-- What every reaction contributes to at most once stands in the order of the program. -/
theorem filterMap_referenceList_of_reactions {part? : Reference → Option ReactionId}
    {touches : Reaction → Prop} [DecidablePred touches]
    (ofReaction : ∀ reaction : Reaction, reaction.references.filterMap part? =
      (if touches reaction then some reaction.id else none).toList)
    (ofConnection : ∀ connection, part? (.connect connection) = none) :
    index.referenceList.filterMap part? =
      (program.reactions.filter fun reaction => touches reaction).map Reaction.id := by
  have connections : (program.connections.map .connect).filterMap part? = [] := by
    simp [ofConnection]
  rw [described.referenceList_eq, List.filterMap_append, connections, List.append_nil,
    List.filterMap_flatMap, funext ofReaction, ← List.filterMap_eq_flatMap_toList, filterMap_ite]

theorem filterMap_referenceList_of_connections {part? : Reference → Option ConnectionId}
    (touches : Connection → Prop) [DecidablePred touches]
    (ofReaction : ∀ reaction : Reaction, reaction.references.filterMap part? = [])
    (ofConnection : ∀ connection, part? (.connect connection) =
      if touches connection then some connection.id else none) :
    index.referenceList.filterMap part? =
      (program.connections.filter fun connection => touches connection).map Connection.id := by
  have reactions : (program.reactions.flatMap Reaction.references).filterMap part? = [] := by
    rw [List.filterMap_flatMap]
    exact List.flatMap_eq_nil_iff.mpr fun reaction _ => ofReaction reaction
  rw [described.referenceList_eq, List.filterMap_append, reactions, List.nil_append,
    List.filterMap_map, ← filterMap_ite]
  exact List.filterMap_congr fun connection _ => ofConnection connection

/-- The connections of a port, as far as a walk may follow them. -/
theorem filterMap_followed?_eq {touches : Connection → Prop} [DecidablePred touches]
    (walk : PortWalk) (other : Connection → PortId) :
    (((program.connections.filter fun connection => touches connection).map
        Connection.id).filterMap (index.followed? walk)).map other =
      (index.connections.filter fun entry =>
        touches entry.connection && walk.allows entry.connection).map fun entry =>
          other entry.connection := by
  have followed : ∀ entry ∈ index.connections.filter fun entry => touches entry.connection,
      index.followed? walk entry.connection.id =
        if walk.allows entry.connection then some entry.connection else none := by
    intro entry listed
    rw [followed?, described.distinct.connection?_of_mem (List.mem_filter.mp listed).1]
    exact Option.filter_some
  rw [← described.map_connections, List.filter_map, List.map_map, List.filterMap_map]
  have kept := (List.filterMap_congr followed).trans (filterMap_ite _ _ _)
  refine (congrArg (List.map other) kept).trans ?_
  rw [List.filter_filter, List.map_map]
  simp [Bool.and_comm, Function.comp_def]

theorem answers_links : index.links.Answers index where
  problems := index.problems_links.trans described.references
  readers port := by
    rw [index.find_readers_links, described.readers_eq]
    exact described.filterMap_referenceList_of_reactions
      (fun reaction => reaction.filterMap_reader?_references port) fun _ => rfl
  writers port := by
    rw [index.find_writers_links, described.writers_eq]
    exact described.filterMap_referenceList_of_reactions
      (fun reaction => reaction.filterMap_writer?_references port) fun _ => rfl
  targets walk port := by
    rw [Links.targets, index.find_outgoing_links,
      described.filterMap_referenceList_of_connections fun connection => connection.source = port]
    · exact described.filterMap_followed?_eq walk Connection.target
    · intro reaction
      simp [Reaction.references, Reference.leaving?]
    · exact fun _ => rfl
  sources walk port := by
    rw [Links.sources, index.find_incoming_links,
      described.filterMap_referenceList_of_connections fun connection => connection.target = port]
    · exact described.filterMap_followed?_eq walk Connection.source
    · intro reaction
      simp [Reaction.references, Reference.entering?]
    · exact fun _ => rfl

end Index.Describes

end ReactorCausality
