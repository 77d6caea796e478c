import ReactorCausality.Proofs.Index.Acceptance

/-!
What acceptance says about modes. A child has to be placed in a mode that its parent declares, and a
reaction in one that its own reactor declares, and nothing else about modes counts
(`accepted_iff_modes_resolve`). So the main reactor, which has no parent, may be placed in any mode, and
modes may share an id.
-/
namespace ReactorCausality

/-- What is placed in a mode is placed in one that is declared around it. Nothing is around the main
reactor. -/
structure Program.ModesResolve (program : Program) : Prop where
  children : ∀ reactor ∈ program.reactors, ∀ child ∈ reactor.children, ∀ mode,
    child.mode = some mode → reactor.DeclaresMode mode
  reactions : ∀ reactor ∈ program.reactors, ∀ reaction ∈ reactor.reactions, ∀ mode,
    reaction.mode = some mode → reactor.DeclaresMode mode

def Program.modes (program : Program) : List Mode :=
  program.reactors.flatMap Reactor.modes

/-! ### Leaving modes out -/

def Reaction.withoutMode (reaction : Reaction) : Reaction :=
  { reaction with mode := none }

namespace Reactor

mutual

/-- The reactor without modes, and with nothing in it placed in one. -/
def withoutModes : Reactor → Reactor
  | ⟨id, name, ports, reactions, connections, children, _, _⟩ =>
    ⟨id, name, ports, reactions.map Reaction.withoutMode, connections, withoutModesAll children, [],
      none⟩

def withoutModesAll : List Reactor → List Reactor
  | [] => []
  | child :: rest => withoutModes child :: withoutModesAll rest

end

theorem withoutModesAll_eq_map (reactors : List Reactor) :
    withoutModesAll reactors = reactors.map withoutModes := by
  induction reactors with
  | nil => simp [withoutModesAll]
  | cons child rest ih => simp [withoutModesAll, ih]

theorem withoutModes_eq (reactor : Reactor) : reactor.withoutModes =
    { reactor with
      reactions := reactor.reactions.map Reaction.withoutMode
      children := reactor.children.map withoutModes
      modes := []
      mode := none } := by
  cases reactor
  rw [withoutModes, withoutModesAll_eq_map]

section Fields

variable (reactor : Reactor)

@[simp]
theorem id_withoutModes : reactor.withoutModes.id = reactor.id := by
  rw [withoutModes_eq]

@[simp]
theorem ports_withoutModes : reactor.withoutModes.ports = reactor.ports := by
  rw [withoutModes_eq]

@[simp]
theorem reactions_withoutModes :
    reactor.withoutModes.reactions = reactor.reactions.map Reaction.withoutMode := by
  rw [withoutModes_eq]

@[simp]
theorem connections_withoutModes : reactor.withoutModes.connections = reactor.connections := by
  rw [withoutModes_eq]

@[simp]
theorem children_withoutModes :
    reactor.withoutModes.children = reactor.children.map withoutModes := by
  rw [withoutModes_eq]

@[simp]
theorem mode_withoutModes : reactor.withoutModes.mode = none := by
  rw [withoutModes_eq]

end Fields

theorem preorder_withoutModes (reactor : Reactor) :
    reactor.withoutModes.preorder = reactor.preorder.map withoutModes := by
  induction reactor using Reactor.induction_on_children with
  | step reactor ih =>
    rw [preorder_eq, preorder_eq, List.map_cons, List.map_flatMap, children_withoutModes,
      List.flatMap_map, List.flatMap_congr ih]

@[simp]
theorem hasPort_withoutModes_iff {reactor : Reactor} {direction : Direction} {port : PortId} :
    reactor.withoutModes.HasPort direction port ↔ reactor.HasPort direction port := by
  rw [HasPort, HasPort, ports_withoutModes]

end Reactor

namespace Program

def withoutModes (program : Program) : Program :=
  ⟨program.main.withoutModes⟩

variable (program : Program)

theorem reactors_withoutModes :
    program.withoutModes.reactors = program.reactors.map Reactor.withoutModes :=
  program.main.preorder_withoutModes

theorem ports_withoutModes : program.withoutModes.ports = program.ports := by
  simp [ports, reactors_withoutModes, List.flatMap_map]

theorem connections_withoutModes : program.withoutModes.connections = program.connections := by
  simp [connections, reactors_withoutModes, List.flatMap_map]

theorem reactions_withoutModes :
    program.withoutModes.reactions = program.reactions.map Reaction.withoutMode := by
  simp [reactions, reactors_withoutModes, List.flatMap_map, List.map_flatMap]

end Program

/-! ### Problems with and without modes -/

namespace Index

/-- A program without repeated ids is laid out as a whole, so it is accepted if nothing is wrong with what
is laid out. -/
theorem exists_build_iff (program : Program) : (∃ index, build program = .ok index) ↔
    (ofProgram program).DistinctIds ∧
      (∀ entry ∈ (ofProgram program).reactors, entry.WellPlaced) ∧
      (∀ entry ∈ (ofProgram program).reactors, entry.problems (.ofProgram program) = []) ∧
      ∀ entry ∈ (ofProgram program).connections, entry.problems (.ofProgram program) = [] := by
  have laidOut := (laysOut_iff (.ofProgram program) program).mpr rfl
  simp only [build_eq_ok_iff, describes_iff, exists_eq_left, laidOut.reactors, referenceProblems,
    List.append_eq_nil_iff, List.flatMap_eq_nil_iff]

namespace LaysOut

variable {program : Program} {index bare : Index} (laidOut : index.LaysOut program)
  (bareLaidOut : bare.LaysOut program.withoutModes)
include laidOut bareLaidOut

theorem distinctIds_withoutModes_iff : bare.DistinctIds ↔ index.DistinctIds := by
  rw [laidOut.distinctIds_iff, bareLaidOut.distinctIds_iff, program.reactors_withoutModes,
    program.ports_withoutModes, program.reactions_withoutModes, program.connections_withoutModes]
  simp [Function.comp_def, Reaction.withoutMode]

theorem wellPlaced_withoutModes_iff :
    (∀ entry ∈ bare.reactors, entry.WellPlaced) ↔ ∀ entry ∈ index.reactors, entry.WellPlaced := by
  rw [laidOut.wellPlaced_iff, bareLaidOut.wellPlaced_iff, program.reactors_withoutModes]
  simp [Reaction.withoutMode]

/-- What a reactor can have wrong without modes is that its reactions touch unknown ports. -/
theorem reactor_problems_withoutModes_iff :
    (∀ entry ∈ index.reactors, entry.problems index = []) ↔
      (∀ entry ∈ bare.reactors, entry.problems bare = []) ∧ program.ModesResolve := by
  rw [laidOut.reactor_problems_eq_nil_iff, bareLaidOut.reactor_problems_eq_nil_iff,
    program.reactors_withoutModes, program.ports_withoutModes, program.reactions_withoutModes]
  simp only [List.forall_mem_map, Reactor.children_withoutModes, Reactor.reactions_withoutModes,
    Reactor.mode_withoutModes, Reaction.withoutMode]
  constructor
  · rintro ⟨children, reactions, touched⟩
    exact ⟨⟨by simp, by simp, touched⟩, children, reactions⟩
  · rintro ⟨⟨-, -, touched⟩, children, reactions⟩
    exact ⟨children, reactions, touched⟩

theorem connection_problems_withoutModes_iff (distinct : index.DistinctIds) :
    (∀ entry ∈ bare.connections, entry.problems bare = []) ↔
      ∀ entry ∈ index.connections, entry.problems index = [] := by
  have bareDistinct := (laidOut.distinctIds_withoutModes_iff bareLaidOut).mpr distinct
  rw [laidOut.connection_problems_eq_nil_iff distinct,
    bareLaidOut.connection_problems_eq_nil_iff bareDistinct, program.reactors_withoutModes]
  simp

end LaysOut

end Index

/-- A program is accepted exactly if it is accepted without its modes, and every child of a reactor and
every reaction that is placed in a mode is placed in one that its parent or its own reactor declares. -/
theorem accepted_iff_modes_resolve (program : Program) :
    (∃ index, Index.build program = .ok index) ↔
      (∃ index, Index.build program.withoutModes = .ok index) ∧ program.ModesResolve := by
  have laidOut := (Index.laysOut_iff (.ofProgram program) program).mpr rfl
  have bareLaidOut := (Index.laysOut_iff (.ofProgram program.withoutModes) _).mpr rfl
  rw [Index.exists_build_iff, Index.exists_build_iff,
    laidOut.distinctIds_withoutModes_iff bareLaidOut,
    laidOut.wellPlaced_withoutModes_iff bareLaidOut,
    laidOut.reactor_problems_withoutModes_iff bareLaidOut]
  rw [and_congr_right fun distinct => and_congr_right fun _ => and_congr_right fun _ =>
    (laidOut.connection_problems_withoutModes_iff bareLaidOut distinct).symm]
  tauto

/-- The heater is on in one of two modes, and it is not said in which. -/
def Program.thermostat : Program where
  main :=
    { id := ⟨0⟩, name := "main", mode := some ⟨7⟩
      modes := [⟨⟨0⟩, "idle", true⟩, ⟨⟨0⟩, "busy", false⟩]
      children := [{ id := ⟨1⟩, name := "heater", mode := some ⟨0⟩ }] }

/-- The main reactor is placed in a mode that no reactor declares, and two modes have one id, but the
program is accepted. -/
theorem modes_unchecked_thermostat : (∃ index, Index.build .thermostat = .ok index) ∧
    Program.thermostat.main.mode = some ⟨7⟩ ∧
    (¬ ∃ reactor ∈ Program.thermostat.reactors, reactor.DeclaresMode ⟨7⟩) ∧
    ¬ (Program.thermostat.modes.map Mode.id).Nodup := by
  refine ⟨⟨_, rfl⟩, rfl, ?_, by decide⟩
  simp [Program.reactors, Program.thermostat, Reactor.preorder_eq, Reactor.DeclaresMode]

end ReactorCausality
