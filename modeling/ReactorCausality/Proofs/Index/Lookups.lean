import ReactorCausality.Proofs.Index.Linking
import ReactorCausality.Proofs.Index.Tree

/-!
What the index of a program tells about its tree (`lookups_describe_tree`). Where a reactor stands in the
tree is said by its lineage, and its entry is made from that: the nearest reactor above it is the parent,
and there are as many as the reactor lies deep. One step up leads from a lineage to the rest of it, so the
way up from a reactor is its lineage.
-/
namespace ReactorCausality

/-- The reactors above a reactor, the nearest first. -/
inductive Program.Lineage (program : Program) : Reactor → List Reactor → Prop
  | main : Lineage program program.main []
  | child {reactor child : Reactor} {above : List Reactor} : Lineage program reactor above →
      child ∈ reactor.children → Lineage program child (reactor :: above)

/-- The hierarchical name of the first of these reactors if the others are above it. -/
def Reactor.path (lineage : List Reactor) : String :=
  ".".intercalate (lineage.reverse.map Reactor.name)

/-- The entry of a reactor that has these reactors above it. -/
def ReactorEntry.below (above : List Reactor) (reactor : Reactor) : ReactorEntry where
  reactor
  parent := above.head?.map Reactor.id
  depth := above.length
  name := Reactor.path (reactor :: above)

/-- Every lookup in the index of a program answers what the tree of the program says. -/
structure Index.LooksUp (index : Index) (program : Program) : Prop where
  preorder : index.reactors.map ReactorEntry.reactor = program.reactors
  distinct : (program.reactors.map Reactor.id).Nodup
  lineages : ∀ reactor, reactor ∈ program.reactors ↔ ∃! above, program.Lineage reactor above
  reactors : ∀ id entry, index.reactor? id = some entry ↔
    ∃ reactor above, program.Lineage reactor above ∧ reactor.id = id ∧ entry = .below above reactor
  parents : ∀ reactor above, program.Lineage reactor above →
    index.parent? reactor.id = above.head?.map Reactor.id ∧ index.depth reactor.id = above.length
  ancestors : ∀ reactor above, program.Lineage reactor above →
    index.ancestorsOrSelf reactor.id = (reactor :: above).map Reactor.id ∧
      (index.ancestorsOrSelf reactor.id).length = index.depth reactor.id + 1
  /-- The way up from any id goes on from its parent as long as there is one. -/
  climbs : ∀ id, index.ancestorsOrSelf id =
    id :: ((index.parent? id).map index.ancestorsOrSelf).getD []
  /-- No way up goes on forever. -/
  ends : WellFounded fun parent id => index.parent? id = some parent
  ports : ∀ id entry, index.port? id = some entry ↔
    ∃ reactor above, program.Lineage reactor above ∧ ∃ port ∈ reactor.ports, port.id = id ∧
      entry = ⟨port, reactor.id, s!"{Reactor.path (reactor :: above)}.{port.name}"⟩
  reactions : ∀ id entry, index.reaction? id = some entry ↔
    ∃ reactor above, program.Lineage reactor above ∧
      ∃ reaction ∈ reactor.reactions, reaction.id = id ∧ entry = ⟨reaction, reactor.id,
        s!"{Reactor.path (reactor :: above)}.reaction_{reaction.index.toNat + 1}"⟩
  connections : index.connections = program.reactors.flatMap fun reactor =>
    reactor.connections.map fun connection => ⟨connection, reactor.id⟩
  readers : ∀ port, index.readers port =
    (program.reactions.filter fun reaction => port ∈ reaction.readPorts).map Reaction.id
  writers : ∀ port, index.writers port =
    (program.reactions.filter fun reaction => port ∈ reaction.writtenPorts).map Reaction.id
  once : ∀ port, (index.readers port).Nodup ∧ (index.writers port).Nodup
  /-- The tables that the pass over the references has filled list the same under every port. -/
  links : index.links.Answers index

/-! ### Entries and lineages -/

theorem Reactor.path_cons (child reactor : Reactor) (above : List Reactor) :
    path (child :: reactor :: above) = path (reactor :: above) ++ "." ++ child.name := by
  rw [path, List.reverse_cons, List.map_append,
    String.intercalate_append_of_ne_nil (by simp) (by simp), List.map_singleton,
    String.intercalate_singleton, path]

namespace ReactorEntry

theorem below_nil (program : Program) : below [] program.main = ofMain program := by
  simp [below, ofMain, Reactor.path]

theorem ofChild_below (reactor child : Reactor) (above : List Reactor) :
    (below above reactor).ofChild child = below (reactor :: above) child := by
  rw [ofChild, below, below, Reactor.path_cons]
  rfl

end ReactorEntry

namespace Index

variable {index : Index} {program : Program}

namespace LaysOut

variable (laidOut : index.LaysOut program)
include laidOut

/-- The entries of an index are those of the reactors that have a lineage. -/
theorem mem_reactors_iff_lineage {entry : ReactorEntry} : entry ∈ index.reactors ↔
    ∃ reactor above, program.Lineage reactor above ∧ entry = .below above reactor := by
  rw [laidOut.mem_reactors_iff]
  constructor
  · intro leads
    induction leads with
    | refl => exact ⟨_, _, .main, (ReactorEntry.below_nil program).symm⟩
    | tail _ contains ih =>
      obtain ⟨reactor, above, lineage, rfl⟩ := ih
      obtain ⟨child, isChild, rfl⟩ := contains
      exact ⟨child, _, .child lineage isChild, ReactorEntry.ofChild_below reactor child above⟩
  · rintro ⟨reactor, above, lineage, rfl⟩
    induction lineage with
    | main => rw [ReactorEntry.below_nil]
    | @child reactor child above _ isChild ih =>
      exact ih.tail ⟨child, isChild, (ReactorEntry.ofChild_below reactor child above).symm⟩

theorem below_mem_reactors {reactor : Reactor} {above : List Reactor}
    (lineage : program.Lineage reactor above) :
    ReactorEntry.below above reactor ∈ index.reactors :=
  laidOut.mem_reactors_iff_lineage.mpr ⟨reactor, above, lineage, rfl⟩

theorem mem_program_reactors_iff {reactor : Reactor} :
    reactor ∈ program.reactors ↔ ∃ above, program.Lineage reactor above := by
  simp only [← laidOut.map_reactors, List.mem_map, laidOut.mem_reactors_iff_lineage]
  constructor
  · rintro ⟨_, ⟨reactor, above, lineage, rfl⟩, rfl⟩
    exact ⟨above, lineage⟩
  · rintro ⟨above, lineage⟩
    exact ⟨_, ⟨reactor, above, lineage, rfl⟩, rfl⟩

end LaysOut

namespace Describes

variable (described : index.Describes program)
include described

theorem reactor?_eq_some_iff {id : ReactorId} {entry : ReactorEntry} :
    index.reactor? id = some entry ↔ ∃ reactor above, program.Lineage reactor above ∧
      reactor.id = id ∧ entry = .below above reactor := by
  rw [reactor?, find?_eq_some_iff_of_nodup described.distinct.reactors,
    described.mem_reactors_iff_lineage]
  constructor
  · rintro ⟨⟨reactor, above, lineage, rfl⟩, same⟩
    exact ⟨reactor, above, lineage, same, rfl⟩
  · rintro ⟨reactor, above, lineage, same, rfl⟩
    exact ⟨⟨reactor, above, lineage, rfl⟩, same⟩

/-- What is made of the parts that the reactors declare is found by its key exactly if it is made of a
part that a reactor with a lineage declares. -/
theorem find?_eq_some_iff_lineage {α β γ : Type} [DecidableEq γ] (declared : Reactor → List α)
    (make : ReactorEntry → α → β) (key : β → γ)
    (distinct : ((index.reactors.flatMap fun entry =>
      (declared entry.reactor).map (make entry)).map key).Nodup) {value : γ} {item : β} :
    (index.reactors.flatMap fun entry => (declared entry.reactor).map (make entry)).find?
        (fun other => key other = value) = some item ↔
      ∃ reactor above, program.Lineage reactor above ∧ ∃ part ∈ declared reactor,
        key (make (.below above reactor) part) = value ∧ item = make (.below above reactor) part := by
  rw [Index.find?_eq_some_iff_of_nodup distinct]
  simp only [List.mem_flatMap, described.mem_reactors_iff_lineage, List.mem_map]
  constructor
  · rintro ⟨⟨_, ⟨reactor, above, lineage, rfl⟩, part, isPart, rfl⟩, same⟩
    exact ⟨reactor, above, lineage, part, isPart, same, rfl⟩
  · rintro ⟨reactor, above, lineage, part, isPart, same, rfl⟩
    exact ⟨⟨_, ⟨reactor, above, lineage, rfl⟩, part, isPart, rfl⟩, same⟩

theorem port?_eq_some_iff_lineage {id : PortId} {entry : PortEntry} :
    index.port? id = some entry ↔ ∃ reactor above, program.Lineage reactor above ∧
      ∃ port ∈ reactor.ports, port.id = id ∧
        entry = ⟨port, reactor.id, s!"{Reactor.path (reactor :: above)}.{port.name}"⟩ := by
  rw [port?, described.ports]
  exact described.find?_eq_some_iff_lineage Reactor.ports
    (fun owner port => PortEntry.mk port owner.reactor.id s!"{owner.name}.{port.name}")
    (fun entry => entry.port.id) (described.ports ▸ described.distinct.ports)

theorem reaction?_eq_some_iff {id : ReactionId} {entry : ReactionEntry} :
    index.reaction? id = some entry ↔ ∃ reactor above, program.Lineage reactor above ∧
      ∃ reaction ∈ reactor.reactions, reaction.id = id ∧ entry = ⟨reaction, reactor.id,
        s!"{Reactor.path (reactor :: above)}.reaction_{reaction.index.toNat + 1}"⟩ := by
  rw [reaction?, described.reactions]
  exact described.find?_eq_some_iff_lineage Reactor.reactions
    (fun owner reaction => ReactionEntry.mk reaction owner.reactor.id
      s!"{owner.name}.reaction_{reaction.index.toNat + 1}")
    (fun entry => entry.reaction.id) (described.reactions ▸ described.distinct.reactions)

section Lineage

variable {reactor : Reactor} {above : List Reactor} (lineage : program.Lineage reactor above)
include lineage

theorem reactor?_eq : index.reactor? reactor.id = some (.below above reactor) :=
  described.reactor?_eq_some_iff.mpr ⟨reactor, above, lineage, rfl, rfl⟩

theorem parent?_eq : index.parent? reactor.id = above.head?.map Reactor.id := by
  rw [parent?, described.reactor?_eq lineage]
  rfl

theorem depth_eq : index.depth reactor.id = above.length := by
  rw [depth, described.reactor?_eq lineage]
  rfl

/-- As many steps up as there are reactors above lead through all of them. -/
theorem climb_eq : index.climb above.length reactor.id = (reactor :: above).map Reactor.id := by
  induction lineage with
  | main => rfl
  | @child reactor child above lineage isChild ih =>
    rw [List.length_cons, climb, described.parent?_eq (.child lineage isChild)]
    simp [ih]

theorem ancestorsOrSelf_eq :
    index.ancestorsOrSelf reactor.id = (reactor :: above).map Reactor.id := by
  rw [ancestorsOrSelf, described.depth_eq lineage, described.climb_eq lineage]

/-- Two lineages of a reactor have the same length and the same parent, and so on upwards. -/
theorem lineage_unique {other : List Reactor} (another : program.Lineage reactor other) :
    other = above := by
  have entry_eq {first second : Reactor} {firstAbove secondAbove : List Reactor}
      (lineage : program.Lineage first firstAbove) (another : program.Lineage second secondAbove)
      (same : first.id = second.id) :
      ReactorEntry.below firstAbove first = .below secondAbove second :=
    described.distinct.entry_injective (described.below_mem_reactors lineage)
      (described.below_mem_reactors another) same
  induction lineage generalizing other with
  | main =>
    have depths := congrArg ReactorEntry.depth (entry_eq another .main rfl)
    exact List.length_eq_zero_iff.mp depths
  | @child reactor child above lineage isChild ih =>
    have same := entry_eq another (.child lineage isChild) rfl
    cases another with
    | main => simpa [ReactorEntry.below] using congrArg ReactorEntry.depth same
    | child another _ =>
      have parents := congrArg ReactorEntry.parent same
      have reactors := congrArg ReactorEntry.reactor
        (entry_eq another lineage (by simpa [ReactorEntry.below] using parents))
      simp only [ReactorEntry.below] at reactors
      subst reactors
      rw [ih another]

end Lineage

/-- What has a parent is a child of a reactor that has a lineage. -/
theorem exists_lineage_of_parent? {id parent : ReactorId} (found : index.parent? id = some parent) :
    ∃ reactor child above, program.Lineage reactor above ∧ program.Lineage child (reactor :: above) ∧
      reactor.id = parent ∧ child.id = id := by
  obtain ⟨entry, known, isParent⟩ := Option.bind_eq_some_iff.mp found
  obtain ⟨child, above, lineage, same, rfl⟩ := described.reactor?_eq_some_iff.mp known
  cases lineage with
  | main => contradiction
  | @child reactor _ above lineage isChild =>
    exact ⟨reactor, child, above, lineage, .child lineage isChild, Option.some.inj isParent, same⟩

theorem depth_of_parent? {id parent : ReactorId} (found : index.parent? id = some parent) :
    index.depth id = index.depth parent + 1 := by
  obtain ⟨reactor, child, above, lineage, inside, rfl, rfl⟩ := described.exists_lineage_of_parent? found
  rw [described.depth_eq lineage, described.depth_eq inside, List.length_cons]

theorem ancestorsOrSelf_eq_cons (id : ReactorId) : index.ancestorsOrSelf id =
    id :: ((index.parent? id).map index.ancestorsOrSelf).getD [] := by
  cases found : index.parent? id with
  | none =>
    rw [ancestorsOrSelf]
    cases index.depth id <;> simp [climb, found]
  | some parent =>
    rw [ancestorsOrSelf, described.depth_of_parent? found, climb, found]
    rfl

theorem wellFounded_parent? : WellFounded fun parent id => index.parent? id = some parent := by
  refine Subrelation.wf (r := InvImage (· < ·) index.depth) (fun found => ?_)
    (InvImage.wf index.depth Nat.lt_wfRel.wf)
  simp [InvImage, described.depth_of_parent? found]

theorem connections_eq : index.connections = program.reactors.flatMap fun reactor =>
    reactor.connections.map fun connection => ⟨connection, reactor.id⟩ := by
  rw [described.connections, ← described.map_reactors, List.flatMap_map]
  rfl

end Describes

end Index

/-- The index of an accepted program describes its tree. It lists the reactors in pre-order, with the
connections that each declares, finds reactors, ports and reactions at their places and by their
hierarchical names and nothing else, leads from every reactor up to the main reactor, and lists the reactions
that read or write a port in the order of the program, as do the tables of its references. -/
theorem lookups_describe_tree {program : Program} {index : Index}
    (accepted : Index.build program = .ok index) : index.LooksUp program := by
  have described := (Index.build_eq_ok_iff program index).mp accepted
  constructor
  case preorder => exact described.map_reactors
  case distinct => exact (described.distinctIds_iff.mp described.distinct).1
  case lineages =>
    intro reactor
    rw [described.mem_program_reactors_iff]
    exact ⟨fun ⟨above, lineage⟩ => ⟨above, lineage, fun _ => described.lineage_unique lineage⟩,
      ExistsUnique.exists⟩
  case reactors => exact fun id entry => described.reactor?_eq_some_iff
  case parents =>
    exact fun reactor above lineage => ⟨described.parent?_eq lineage, described.depth_eq lineage⟩
  case ancestors =>
    intro reactor above lineage
    rw [described.ancestorsOrSelf_eq lineage, described.depth_eq lineage]
    exact ⟨rfl, List.length_map _⟩
  case climbs => exact described.ancestorsOrSelf_eq_cons
  case ends => exact described.wellFounded_parent?
  case ports => exact fun id entry => described.port?_eq_some_iff_lineage
  case reactions => exact fun id entry => described.reaction?_eq_some_iff
  case connections => exact described.connections_eq
  case readers => exact described.readers_eq
  case writers => exact described.writers_eq
  case once => exact fun port => ⟨described.nodup_readers port, described.nodup_writers port⟩
  case links => exact described.answers_links

/-- Two reactions at the desk read what comes in. -/
def Reactor.desk : Reactor where
  id := ⟨3⟩
  name := "desk"
  ports := [⟨⟨2⟩, "in", .input⟩]
  reactions := [
    { id := ⟨1⟩, index := 0, triggers := [.port ⟨2⟩] },
    { id := ⟨0⟩, index := 1, triggers := [.startup], sources := [.port ⟨2⟩] }]

def Reactor.mailroom : Reactor where
  id := ⟨1⟩
  name := "mailroom"
  ports := [⟨⟨1⟩, "in", .input⟩]
  children := [desk]
  connections := [{ id := ⟨0⟩, source := ⟨1⟩, target := ⟨2⟩ }]

/-- What is sent goes to a desk inside another reactor. -/
def Program.delivery : Program where
  main :=
    { id := ⟨0⟩, name := "main"
      children := [
        { id := ⟨2⟩, name := "sender", ports := [⟨⟨0⟩, "out", .output⟩]
          reactions := [
            { id := ⟨2⟩, index := 0, triggers := [.startup], effects := [.port ⟨0⟩] }] },
        .mailroom]
      connections := [{ id := ⟨1⟩, source := ⟨0⟩, target := ⟨1⟩ }] }

theorem Program.lineage_desk : delivery.Lineage .desk [.mailroom, delivery.main] :=
  .child (.child .main (by decide)) (by decide)

/-- The two reactions of the desk are found in the order in which they are declared. -/
theorem lookups_describe_tree_delivery : ∃ index, Index.build .delivery = .ok index ∧
    index.reactors.map ReactorEntry.reactor = Program.delivery.reactors ∧
    index.ancestorsOrSelf ⟨3⟩ = [⟨3⟩, ⟨1⟩, ⟨0⟩] ∧ index.ancestorsOrSelf ⟨4⟩ = [⟨4⟩] ∧
    index.reaction? ⟨0⟩ = some
      ⟨{ id := ⟨0⟩, index := 1, triggers := [.startup], sources := [.port ⟨2⟩] }, ⟨3⟩,
        "main.mailroom.desk.reaction_2"⟩ ∧
    index.readers ⟨2⟩ = [⟨1⟩, ⟨0⟩] ∧ index.links.readers.find ⟨2⟩ = [⟨1⟩, ⟨0⟩] := by
  have accepted : Index.build .delivery = .ok (Index.survey .delivery).index := rfl
  have lookups := lookups_describe_tree accepted
  have readers : (Index.survey .delivery).index.readers ⟨2⟩ = [⟨1⟩, ⟨0⟩] := by
    rw [lookups.readers]
    rfl
  refine ⟨_, accepted, lookups.preorder, (lookups.ancestors _ _ Program.lineage_desk).1, ?_, ?_,
    readers, (lookups.links.readers ⟨2⟩).trans readers⟩
  · rw [lookups.climbs]
    rfl
  · exact (lookups.reactions _ _).mpr
      ⟨_, _, Program.lineage_desk, _, .tail _ (.head _), rfl, by decide +kernel⟩

end ReactorCausality
