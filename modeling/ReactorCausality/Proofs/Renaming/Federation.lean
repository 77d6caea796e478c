import ReactorCausality.Index.Ports
import ReactorCausality.Proofs.Federation.Partition
import ReactorCausality.Proofs.Renaming.Index

/-!
Readers, writers and federates in a renamed program. Whatever is found by following connections or by
climbing the tree is the renaming of what was found before, in the same order, so every reactor goes to
the federate it went to.
-/
namespace ReactorCausality

variable (ρ : Renaming)

/-! ### Readers, writers and walks -/

namespace Index

variable (index : Index) (port : PortId)

@[simp]
theorem readers_rename :
    (index.rename ρ).readers (port.rename ρ) = (index.readers port).map (EntityId.rename ρ) := by
  simp only [readers, rename, ReactionEntry.rename, List.filter_map, List.map_map, Function.comp_def,
    Reaction.readPorts_rename, contains_map (EntityId.rename_injective ρ)]
  rfl

@[simp]
theorem writers_rename :
    (index.rename ρ).writers (port.rename ρ) = (index.writers port).map (EntityId.rename ρ) := by
  simp only [writers, rename, ReactionEntry.rename, List.filter_map, List.map_map, Function.comp_def,
    Reaction.writtenPorts_rename, contains_map (EntityId.rename_injective ρ)]
  rfl

theorem allows_rename (walk : PortWalk) (connection : Connection) :
    walk.allows (connection.rename ρ) = walk.allows connection := by
  cases walk <;> rfl

theorem directTargets_rename (walk : PortWalk) :
    (index.rename ρ).directTargets walk (port.rename ρ) =
      (index.directTargets walk port).map (EntityId.rename ρ) := by
  simp only [directTargets, rename, List.filter_map, List.map_map, Function.comp_def,
    ConnectionEntry.rename, allows_rename]
  simp [Connection.rename]

theorem directSources_rename (walk : PortWalk) :
    (index.rename ρ).directSources walk (port.rename ρ) =
      (index.directSources walk port).map (EntityId.rename ρ) := by
  simp only [directSources, rename, List.filter_map, List.map_map, Function.comp_def,
    ConnectionEntry.rename, allows_rename]
  simp [Connection.rename]

theorem portIds_rename : (index.rename ρ).portIds = index.portIds.map (EntityId.rename ρ) := by
  simp only [portIds, rename, List.map_map]
  rfl

@[simp]
theorem dependents_rename (walk : PortWalk) :
    (index.rename ρ).dependents walk (port.rename ρ) =
      (index.dependents walk port).map (EntityId.rename ρ) := by
  rw [dependents, portIds_rename]
  exact BreadthFirst.reachable_map (EntityId.rename_injective ρ)
    (fun port => index.directTargets_rename ρ port walk) index.portIds port

@[simp]
theorem dependencies_rename (walk : PortWalk) :
    (index.rename ρ).dependencies walk (port.rename ρ) =
      (index.dependencies walk port).map (EntityId.rename ρ) := by
  rw [dependencies, portIds_rename]
  exact BreadthFirst.reachable_map (EntityId.rename_injective ρ)
    (fun port => index.directSources_rename ρ port walk) index.portIds port

/-! ### Climbing the tree -/

theorem climb_rename (steps : Nat) (id : ReactorId) :
    (index.rename ρ).climb steps (id.rename ρ) = (index.climb steps id).map (EntityId.rename ρ) := by
  induction steps generalizing id with
  | zero => rfl
  | succ steps ih =>
    rw [climb, climb, parent?_rename]
    cases index.parent? id with
    | none => rfl
    | some parent => simp [ih]

theorem ancestorsOrSelf_rename (id : ReactorId) :
    (index.rename ρ).ancestorsOrSelf (id.rename ρ) =
      (index.ancestorsOrSelf id).map (EntityId.rename ρ) := by
  rw [ancestorsOrSelf, ancestorsOrSelf, depth_rename, climb_rename]

end Index

/-! ### Federates -/

/-- Only assignments by id change; hierarchical names stay. -/
def Partition.rename (partition : Partition) : Partition :=
  { partition with byReactor := partition.byReactor.map fun pair => (pair.1.rename ρ, pair.2) }

namespace Partition

variable (partition : Partition) (index : Index)

theorem assigned?_rename (reactor : ReactorId) :
    (partition.rename ρ).assigned? (index.rename ρ) (reactor.rename ρ) =
      partition.assigned? index reactor := by
  simp only [assigned?, rename, lookup_map (EntityId.rename_injective ρ), Index.reactorName_rename]

@[simp]
theorem federateOf_rename (reactor : ReactorId) :
    (partition.rename ρ).federateOf (index.rename ρ) (reactor.rename ρ) =
      partition.federateOf index reactor := by
  simp only [federateOf, Index.ancestorsOrSelf_rename, List.findSome?_map, Function.comp_def,
    assigned?_rename]

/-- The problems are sorted by the ids, so they may change places; none comes or goes. -/
theorem problems_rename_eq_nil_iff :
    (partition.rename ρ).problems (index.rename ρ) = [] ↔ partition.problems index = [] := by
  have byPath (path : String) : (∃ entry ∈ (index.rename ρ).reactors, entry.name = path) ↔
      ∃ entry ∈ index.reactors, entry.name = path := by
    simp [Index.rename, ReactorEntry.rename]
  simp only [problems_eq_nil_iff, rename, List.forall_mem_map, Index.reactor?_rename,
    Option.isSome_map, byPath]

theorem federate_rename (name : String) : (partition.rename ρ).federate name =
    ((partition.federate name).1.rename ρ, (partition.federate name).2) := by
  have names : (partition.rename ρ).names = partition.names := rfl
  rw [federate, federate, names]
  split <;> rfl

theorem assignReactor_rename (reactor : ReactorId) (name : String) :
    (partition.rename ρ).assignReactor (reactor.rename ρ) name =
      ((partition.assignReactor reactor name).1.rename ρ,
        (partition.assignReactor reactor name).2) := by
  rw [assignReactor, assignReactor, federate_rename]
  simp [rename, put, List.filter_map, Function.comp_def]

theorem assignPath_rename (path name : String) : (partition.rename ρ).assignPath path name =
    ((partition.assignPath path name).1.rename ρ, (partition.assignPath path name).2) := by
  rw [assignPath, assignPath, federate_rename]
  rfl

/-- Assigning reactors by their new ids makes the renamed partition. -/
theorem Built.rename {partition : Partition} (built : partition.Built) :
    (partition.rename ρ).Built := by
  induction built with
  | single => exact .single
  | federate _ name ih =>
    have step := ih.federate name
    rwa [federate_rename] at step
  | assignReactor _ reactor name ih =>
    have step := ih.assignReactor (reactor.rename ρ) name
    rwa [assignReactor_rename] at step
  | assignPath _ path name ih =>
    have step := ih.assignPath path name
    rwa [assignPath_rename] at step

end Partition

end ReactorCausality
