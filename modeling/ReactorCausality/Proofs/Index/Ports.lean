import ReactorCausality.Index.Ports
import ReactorCausality.Proofs.Index.Contents
import ReactorCausality.Proofs.Search.BreadthFirst

/-!
Walks from port to port in an accepted program. A walk lists exactly the other ports to which the
connections lead that it may follow, forwards or backwards, and the readers and writers of a port are
those of the program.
-/
namespace ReactorCausality

open Relation

/-- A connection that a walk may follow leads from one port to another. -/
def Program.Feeds (program : Program) (walk : PortWalk) (source target : PortId) : Prop :=
  ∃ connection ∈ program.connections, walk.allows connection ∧
    connection.source = source ∧ connection.target = target

namespace Index

variable {index : Index} {program : Program} {walk : PortWalk}

theorem mem_portIds_iff {port : PortId} : port ∈ index.portIds ↔ (index.port? port).isSome := by
  simp [portIds, port?]

namespace Describes

variable (described : index.Describes program)
include described

theorem mem_directTargets_iff {source target : PortId} :
    target ∈ index.directTargets walk source ↔ program.Feeds walk source target := by
  rw [Program.Feeds, ← described.map_connections]
  simp only [directTargets, List.mem_map, List.mem_filter, Bool.and_eq_true, decide_eq_true_eq,
    exists_exists_and_eq_and]
  refine exists_congr fun entry => ?_
  tauto

theorem mem_directSources_iff {source target : PortId} :
    source ∈ index.directSources walk target ↔ program.Feeds walk source target := by
  rw [Program.Feeds, ← described.map_connections]
  simp only [directSources, List.mem_map, List.mem_filter, Bool.and_eq_true, decide_eq_true_eq,
    exists_exists_and_eq_and]
  refine exists_congr fun entry => ?_
  tauto

theorem isSome_port?_of_feeds {source target : PortId} (feeds : program.Feeds walk source target) :
    (index.port? source).isSome ∧ (index.port? target).isSome := by
  obtain ⟨connection, declared, -, rfl, rfl⟩ := feeds
  obtain ⟨entry, listed, rfl⟩ := List.mem_map.mp (described.map_connections ▸ declared)
  obtain ⟨source, target, -⟩ := described.connection_ends listed
  exact ⟨source, target⟩

/-- No connection leads out of the index, so a search inside it misses none. -/
theorem leads_directTargets_iff {source target : PortId} :
    BreadthFirst.Leads (index.directTargets walk) index.portIds source target ↔
      program.Feeds walk source target := by
  rw [BreadthFirst.Leads, described.mem_directTargets_iff, mem_portIds_iff,
    and_iff_left_iff_imp]
  exact fun feeds => (described.isSome_port?_of_feeds feeds).2

theorem leads_directSources_iff {source target : PortId} :
    BreadthFirst.Leads (index.directSources walk) index.portIds target source ↔
      program.Feeds walk source target := by
  rw [BreadthFirst.Leads, described.mem_directSources_iff, mem_portIds_iff,
    and_iff_left_iff_imp]
  exact fun feeds => (described.isSome_port?_of_feeds feeds).1

theorem leads_directTargets_eq :
    BreadthFirst.Leads (index.directTargets walk) index.portIds = program.Feeds walk := by
  funext source target
  exact propext described.leads_directTargets_iff

theorem leads_directSources_eq : BreadthFirst.Leads (index.directSources walk) index.portIds =
    Function.swap (program.Feeds walk) := by
  funext target source
  exact propext described.leads_directSources_iff

theorem mem_dependents_iff {start port : PortId} : port ∈ index.dependents walk start ↔
    port ≠ start ∧ ReflTransGen (program.Feeds walk) start port := by
  rw [dependents, BreadthFirst.mem_reachable_iff, described.leads_directTargets_eq]

theorem mem_dependencies_iff {start port : PortId} : port ∈ index.dependencies walk start ↔
    port ≠ start ∧ ReflTransGen (program.Feeds walk) port start := by
  rw [dependencies, BreadthFirst.mem_reachable_iff, described.leads_directSources_eq,
    reflTransGen_swap]

/-- The readers of a port, in the order of the program. -/
theorem readers_eq (port : PortId) : index.readers port =
    (program.reactions.filter fun reaction => port ∈ reaction.readPorts).map Reaction.id := by
  simp [readers, ← described.map_reactions, List.filter_map, Function.comp_def]

theorem writers_eq (port : PortId) : index.writers port =
    (program.reactions.filter fun reaction => port ∈ reaction.writtenPorts).map Reaction.id := by
  simp [writers, ← described.map_reactions, List.filter_map, Function.comp_def]

theorem mem_readers_iff {port : PortId} {id : ReactionId} : id ∈ index.readers port ↔
    program.Reads id port := by
  simp only [described.readers_eq, Program.Reads, List.mem_map, List.mem_filter, decide_eq_true_eq]
  exact exists_congr fun _ => and_right_comm.trans and_assoc

theorem mem_writers_iff {port : PortId} {id : ReactionId} : id ∈ index.writers port ↔
    program.Writes id port := by
  simp only [described.writers_eq, Program.Writes, List.mem_map, List.mem_filter, decide_eq_true_eq]
  exact exists_congr fun _ => and_right_comm.trans and_assoc

theorem nodup_readers (port : PortId) : (index.readers port).Nodup := by
  rw [described.readers_eq]
  exact described.nodup_reactionIds.sublist (List.filter_sublist.map Reaction.id)

theorem nodup_writers (port : PortId) : (index.writers port).Nodup := by
  rw [described.writers_eq]
  exact described.nodup_reactionIds.sublist (List.filter_sublist.map Reaction.id)

end Describes

end Index

end ReactorCausality
