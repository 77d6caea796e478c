import Mathlib.Data.List.Nodup
import Mathlib.Tactic.MkIffOfInductiveProp
import Mathlib.Tactic.Tauto
import ReactorCausality.Index.Survey

/-!
What the survey of a program lays out. Every step of a survey puts something into the index or
notes a problem (`Adds`), and steps that follow each other do so together. A program is accepted
exactly if its index is the tree laid out in pre-order with no id used twice, every reaction at its
place, and no reference problem (`build_eq_ok_iff`).
-/
namespace ReactorCausality

/-! ### The tree laid out -/

namespace ReactorEntry

def ports (entry : ReactorEntry) : List PortEntry :=
  entry.reactor.ports.map fun port => ⟨port, entry.reactor.id, s!"{entry.name}.{port.name}"⟩

def reactions (entry : ReactorEntry) : List ReactionEntry :=
  entry.reactor.reactions.map fun reaction =>
    ⟨reaction, entry.reactor.id, s!"{entry.name}.reaction_{reaction.index.toNat + 1}"⟩

def connections (entry : ReactorEntry) : List ConnectionEntry :=
  entry.reactor.connections.map fun connection => ⟨connection, entry.reactor.id⟩

/-- The index of every reaction is its position. -/
def WellPlaced (entry : ReactorEntry) : Prop :=
  ∀ declared ∈ entry.reactor.reactions.zipIdx, declared.1.index.toNat = declared.2

end ReactorEntry

namespace Reactor

mutual

/-- The entries of a reactor and everything below it, in pre-order. -/
def entries (parent : Option ReactorId) (depth : Nat) (path : String) :
    Reactor → List ReactorEntry
  | ⟨id, name, ports, reactions, connections, children, modes, mode⟩ =>
    ⟨⟨id, name, ports, reactions, connections, children, modes, mode⟩, parent, depth, path⟩
      :: entriesAll id (depth + 1) path children

/-- The entries of the children of a reactor and everything below them. -/
def entriesAll (parent : ReactorId) (depth : Nat) (path : String) :
    List Reactor → List ReactorEntry
  | [] => []
  | child :: rest =>
    entries (some parent) depth s!"{path}.{child.name}" child ++ entriesAll parent depth path rest

end

mutual

theorem map_reactor_entries (parent : Option ReactorId) (depth : Nat) (path : String) :
    (reactor : Reactor) →
      (reactor.entries parent depth path).map ReactorEntry.reactor = reactor.preorder
  | ⟨id, _, _, _, _, children, _, _⟩ => by
    simp [entries, preorder, map_reactor_entriesAll id (depth + 1) path children]

theorem map_reactor_entriesAll (parent : ReactorId) (depth : Nat) (path : String) :
    (reactors : List Reactor) →
      (entriesAll parent depth path reactors).map ReactorEntry.reactor = preorderAll reactors
  | [] => by simp [entriesAll, preorderAll]
  | child :: rest => by
    simp [entriesAll, preorderAll, map_reactor_entries (some parent) depth _ child,
      map_reactor_entriesAll parent depth path rest]

end

end Reactor

structure Layout where
  reactors : List ReactorEntry := []
  ports : List PortEntry := []
  reactions : List ReactionEntry := []
  connections : List ConnectionEntry := []

namespace Layout

def ofAll (layouts : List Layout) : Layout :=
  ⟨layouts.flatMap reactors, layouts.flatMap ports, layouts.flatMap reactions,
    layouts.flatMap connections⟩

theorem ofAll_cons (layout : Layout) (layouts : List Layout) :
    ofAll [layout, ofAll layouts] = ofAll (layout :: layouts) := by
  simp [ofAll]

end Layout

namespace ReactorEntry

/-- What a reactor declares, without the reactor. -/
def declarations (entry : ReactorEntry) : Layout :=
  { ports := entry.ports, reactions := entry.reactions, connections := entry.connections }

def layout (entry : ReactorEntry) : Layout :=
  { entry.declarations with reactors := [entry] }

end ReactorEntry

namespace Index

/-- No id is used twice. -/
@[mk_iff]
structure DistinctIds (index : Index) : Prop where
  reactors : (index.reactors.map fun entry => entry.reactor.id).Nodup
  ports : (index.ports.map fun entry => entry.port.id).Nodup
  reactions : (index.reactions.map fun entry => entry.reaction.id).Nodup
  connections : (index.connections.map fun entry => entry.connection.id).Nodup

def extend (index : Index) (layout : Layout) : Index :=
  { index with
    reactors := index.reactors ++ layout.reactors
    ports := index.ports ++ layout.ports
    reactions := index.reactions ++ layout.reactions
    connections := index.connections ++ layout.connections }

theorem extend_extend (index : Index) (first second : Layout) :
    (index.extend first).extend second = index.extend (.ofAll [first, second]) := by
  simp [extend, Layout.ofAll]

theorem DistinctIds.of_extend {index : Index} {layout : Layout}
    (distinct : (index.extend layout).DistinctIds) : index.DistinctIds := by
  obtain ⟨reactors, ports, reactions, connections⟩ := distinct
  simp only [extend, List.map_append] at reactors ports reactions connections
  exact ⟨reactors.of_append_left, ports.of_append_left, reactions.of_append_left,
    connections.of_append_left⟩

theorem distinctIds_extend_reactor_iff (index : Index) (entry : ReactorEntry) :
    (index.extend { reactors := [entry] }).DistinctIds ↔
      index.DistinctIds ∧ (index.reactor? entry.reactor.id).isSome = false := by
  simp [distinctIds_iff, extend, reactor?, List.nodup_append]
  tauto

theorem distinctIds_extend_port_iff (index : Index) (entry : PortEntry) :
    (index.extend { ports := [entry] }).DistinctIds ↔
      index.DistinctIds ∧ (index.port? entry.port.id).isSome = false := by
  simp [distinctIds_iff, extend, port?, List.nodup_append]
  tauto

theorem distinctIds_extend_reaction_iff (index : Index) (entry : ReactionEntry) :
    (index.extend { reactions := [entry] }).DistinctIds ↔
      index.DistinctIds ∧ (index.reaction? entry.reaction.id).isSome = false := by
  simp [distinctIds_iff, extend, reaction?, List.nodup_append]
  tauto

theorem distinctIds_extend_connection_iff (index : Index) (entry : ConnectionEntry) :
    (index.extend { connections := [entry] }).DistinctIds ↔
      index.DistinctIds ∧ (index.connection? entry.connection.id).isSome = false := by
  simp [distinctIds_iff, extend, connection?, List.nodup_append]
  tauto

end Index

/-! ### Steps of a survey -/

namespace Survey

/-- A step of a survey that puts a layout into the index, or notes a problem: it notes none
exactly if no id is used twice afterwards and the layout fits its place. -/
structure Adds (step : Survey → Survey) (layout : Layout) (fits : Prop) : Prop where
  keeps : ∀ survey, survey.index.DistinctIds → (step survey).index.DistinctIds
  clean_iff : ∀ survey, survey.index.DistinctIds →
    ((step survey).problems = [] ↔
      survey.problems = [] ∧ (survey.index.extend layout).DistinctIds ∧ fits)
  index_eq : ∀ survey, survey.index.DistinctIds → (step survey).problems = [] →
    (step survey).index = survey.index.extend layout

theorem Adds.refl : Adds (fun survey => survey) {} True where
  keeps _ distinct := distinct
  clean_iff survey distinct := by simpa [Index.extend] using fun _ => distinct
  index_eq survey _ _ := by simp [Index.extend]

theorem Adds.congr {step : Survey → Survey} {layout layout' : Layout} {fits fits' : Prop}
    (adds : Adds step layout fits) (sameLayout : layout = layout') (sameFits : fits ↔ fits') :
    Adds step layout' fits' := by
  subst sameLayout
  rwa [← propext sameFits]

theorem Adds.comp {first second : Survey → Survey} {layout₁ layout₂ : Layout}
    {fits₁ fits₂ : Prop} (later : Adds second layout₂ fits₂) (earlier : Adds first layout₁ fits₁) :
    Adds (fun survey => second (first survey)) (.ofAll [layout₁, layout₂]) (fits₁ ∧ fits₂) where
  keeps survey distinct := later.keeps _ (earlier.keeps survey distinct)
  clean_iff survey distinct := by
    rw [later.clean_iff _ (earlier.keeps survey distinct), ← Index.extend_extend]
    constructor
    · rintro ⟨clean, after, fits⟩
      rw [earlier.index_eq survey distinct clean] at after
      obtain ⟨before, -, fitsToo⟩ := (earlier.clean_iff survey distinct).mp clean
      exact ⟨before, after, fitsToo, fits⟩
    · rintro ⟨before, after, fitsToo, fits⟩
      have clean := (earlier.clean_iff survey distinct).mpr ⟨before, after.of_extend, fitsToo⟩
      rw [earlier.index_eq survey distinct clean]
      exact ⟨clean, after, fits⟩
  index_eq survey distinct clean := by
    have before := ((later.clean_iff _ (earlier.keeps survey distinct)).mp clean).1
    rw [later.index_eq _ (earlier.keeps survey distinct) clean,
      earlier.index_eq survey distinct before, Index.extend_extend]

theorem Adds.foldl {α : Type} {step : Survey → α → Survey} {layout : α → Layout}
    {fits : α → Prop} (items : List α)
    (each : ∀ item ∈ items, Adds (step · item) (layout item) (fits item)) :
    Adds (fun survey => items.foldl step survey) (.ofAll (items.map layout))
      (∀ item ∈ items, fits item) := by
  induction items with
  | nil => simpa [Layout.ofAll] using Adds.refl
  | cons item rest ih =>
    have later := ih fun other member => each other (List.mem_cons_of_mem _ member)
    have both := later.comp (each item List.mem_cons_self)
    simpa [Layout.ofAll_cons] using both

/-- A step that notes a problem if an id has been used, and else changes the index and goes on. -/
theorem Adds.guarded {next : Survey → Survey} {later : Layout} {fits : Prop}
    (goesOn : Adds next later fits) (used : Index → Bool) (change : Index → Index)
    (problem : Problem) (layout : Layout) (change_eq : ∀ index, change index = index.extend layout)
    (distinct_iff : ∀ index : Index,
      (index.extend layout).DistinctIds ↔ index.DistinctIds ∧ used index = false) :
    Adds
      (fun survey =>
        if used survey.index then survey.note problem else next (survey.update change))
      (.ofAll [layout, later]) fits where
  keeps survey distinct := by
    split
    · exact distinct
    · next free =>
      refine goesOn.keeps _ ?_
      simpa [update, change_eq, distinct_iff, distinct] using free
  clean_iff survey distinct := by
    rw [← Index.extend_extend]
    split
    · next taken =>
      have twice : ¬ ((survey.index.extend layout).extend later).DistinctIds := by
        intro after
        simpa [taken] using ((distinct_iff _).mp after.of_extend).2
      simp [note, twice]
    · next free =>
      rw [goesOn.clean_iff _ (by simpa [update, change_eq, distinct_iff, distinct] using free)]
      simp [update, change_eq]
  index_eq survey distinct clean := by
    split at clean
    · simp [note] at clean
    · next free =>
      rw [if_neg free, goesOn.index_eq _ _ clean, ← Index.extend_extend]
      · simp [update, change_eq]
      · simpa [update, change_eq, distinct_iff, distinct] using free

theorem Adds.checked (fits : Prop) [Decidable fits] (problem : Problem) :
    Adds (fun survey => if fits then survey else survey.note problem) {} fits where
  keeps survey distinct := by split <;> exact distinct
  clean_iff survey distinct := by
    split
    · next holds => simpa [Index.extend, holds] using fun _ => distinct
    · next fails => simp [note, fails]
  index_eq survey _ clean := by
    revert clean
    split <;> simp [note, Index.extend]

theorem addPort_adds (owner : ReactorId) (path : String) (port : Port) :
    Adds (addPort owner path · port) { ports := [⟨port, owner, s!"{path}.{port.name}"⟩] } True :=
  Adds.refl.guarded (fun index => (index.port? port.id).isSome) _ _
    { ports := [⟨port, owner, s!"{path}.{port.name}"⟩] } (by simp [Index.extend])
    fun index => index.distinctIds_extend_port_iff _

theorem addReaction_adds (owner : ReactorId) (path : String) (declared : Reaction × Nat) :
    Adds (addReaction owner path · declared)
      { reactions := [⟨declared.1, owner, s!"{path}.reaction_{declared.1.index.toNat + 1}"⟩] }
      (declared.1.index.toNat = declared.2) := by
  obtain ⟨reaction, position⟩ := declared
  have placed := Adds.checked (reaction.index.toNat = position)
    (.misplacedReaction s!"{path}.reaction_{reaction.index.toNat + 1}" position reaction.index)
  have put := Adds.refl.guarded (fun index => (index.reaction? reaction.id).isSome)
    (fun index => { index with
      reactions := index.reactions ++
        [⟨reaction, owner, s!"{path}.reaction_{reaction.index.toNat + 1}"⟩] })
    (.duplicateReaction reaction.id s!"{path}.reaction_{reaction.index.toNat + 1}")
    { reactions := [⟨reaction, owner, s!"{path}.reaction_{reaction.index.toNat + 1}"⟩] }
    (by simp [Index.extend]) fun index => index.distinctIds_extend_reaction_iff _
  exact (put.comp placed).congr rfl (by rw [and_true])

theorem addConnection_adds (container : ReactorId) (path : String) (connection : Connection) :
    Adds (addConnection container path · connection) { connections := [⟨connection, container⟩] }
      True :=
  Adds.refl.guarded (fun index => (index.connection? connection.id).isSome) _ _
    { connections := [⟨connection, container⟩] } (by simp [Index.extend])
    fun index => index.distinctIds_extend_connection_iff _

theorem declarations_adds (entry : ReactorEntry) :
    Adds
      (fun survey =>
        entry.reactor.connections.foldl (addConnection entry.reactor.id entry.name)
          (entry.reactor.reactions.zipIdx.foldl (addReaction entry.reactor.id entry.name)
            (entry.reactor.ports.foldl (addPort entry.reactor.id entry.name) survey)))
      entry.declarations entry.WellPlaced := by
  have ports := Adds.foldl entry.reactor.ports
    fun port _ => addPort_adds entry.reactor.id entry.name port
  have reactions := Adds.foldl entry.reactor.reactions.zipIdx
    fun declared _ => addReaction_adds entry.reactor.id entry.name declared
  have connections := Adds.foldl entry.reactor.connections
    fun connection _ => addConnection_adds entry.reactor.id entry.name connection
  refine (connections.comp (reactions.comp ports)).congr ?_ (by simp [ReactorEntry.WellPlaced])
  have nothing {α β : Type} (items : List α) : (items.flatMap fun _ => ([] : List β)) = [] :=
    List.flatMap_eq_nil_iff.mpr fun _ _ => rfl
  -- The positions play no part in the entries of the reactions.
  have unplaced {β : Type} (f : Reaction → β) :
      (entry.reactor.reactions.zipIdx.map fun declared => f declared.1) =
        entry.reactor.reactions.map f := by
    rw [← List.zipIdx_map_fst 0 entry.reactor.reactions, List.map_map, List.zipIdx_map_fst]
    rfl
  simp [Layout.ofAll, ReactorEntry.declarations, ReactorEntry.ports, ReactorEntry.reactions,
    ReactorEntry.connections, List.flatMap_map, nothing, ← List.map_eq_flatMap]
  exact unplaced fun reaction => ReactionEntry.mk reaction entry.reactor.id
    s!"{entry.name}.reaction_{reaction.index.toNat + 1}"

mutual

theorem visit_adds (parent : Option ReactorId) (depth : Nat) (path : String) :
    (reactor : Reactor) →
      Adds (visit parent depth path · reactor)
        (.ofAll ((reactor.entries parent depth path).map ReactorEntry.layout))
        (∀ entry ∈ reactor.entries parent depth path, entry.WellPlaced)
  | ⟨id, name, ports, reactions, connections, children, modes, mode⟩ => by
    let entry : ReactorEntry :=
      ⟨⟨id, name, ports, reactions, connections, children, modes, mode⟩, parent, depth, path⟩
    have inside := (visitAll_adds id (depth + 1) path children).comp (declarations_adds entry)
    have all := inside.guarded (fun index => (index.reactor? id).isSome)
      (fun index => { index with reactors := index.reactors ++ [entry] })
      (.duplicateReactor id path) { reactors := [entry] } (by simp [Index.extend])
      fun index => index.distinctIds_extend_reactor_iff entry
    refine all.congr ?_ ?_
    · simp [Reactor.entries, Layout.ofAll, ReactorEntry.layout, ReactorEntry.declarations, entry]
    · simp [Reactor.entries, entry]

theorem visitAll_adds (parent : ReactorId) (depth : Nat) (path : String) :
    (reactors : List Reactor) →
      Adds (visitAll parent depth path · reactors)
        (.ofAll ((Reactor.entriesAll parent depth path reactors).map ReactorEntry.layout))
        (∀ entry ∈ Reactor.entriesAll parent depth path reactors, entry.WellPlaced)
  | [] => by
    simpa [visitAll, Reactor.entriesAll, Layout.ofAll] using Adds.refl
  | child :: rest => by
    have first := visit_adds (some parent) depth s!"{path}.{child.name}" child
    have later := visitAll_adds parent depth path rest
    refine (later.comp first).congr ?_ ?_
    · simp [Reactor.entriesAll, Layout.ofAll]
    · simp [Reactor.entriesAll, or_imp, forall_and]

end

end Survey

/-! ### Accepted programs -/

namespace Index

/-- The index lays out the tree of a program, whatever is wrong with it. -/
structure LaysOut (index : Index) (program : Program) : Prop where
  main : index.main = program.main
  reactors : index.reactors = program.main.entries none 0 program.main.name
  ports : index.ports = index.reactors.flatMap ReactorEntry.ports
  reactions : index.reactions = index.reactors.flatMap ReactorEntry.reactions
  connections : index.connections = index.reactors.flatMap ReactorEntry.connections

/-- The index lays out a program that has no problem. -/
structure Describes (index : Index) (program : Program) : Prop extends index.LaysOut program where
  distinct : index.DistinctIds
  placed : ∀ entry ∈ index.reactors, entry.WellPlaced
  references : index.referenceProblems = []

def ofProgram (program : Program) : Index :=
  extend { main := program.main }
    (.ofAll ((program.main.entries none 0 program.main.name).map ReactorEntry.layout))

theorem laysOut_iff (index : Index) (program : Program) :
    index.LaysOut program ↔ index = ofProgram program := by
  constructor
  · rintro ⟨main, reactors, ports, reactions, connections⟩
    cases index
    simp_all [ofProgram, extend, Layout.ofAll, List.flatMap_map, ReactorEntry.layout,
      ReactorEntry.declarations]
  · rintro rfl
    constructor <;>
      simp [ofProgram, extend, Layout.ofAll, List.flatMap_map, ReactorEntry.layout,
        ReactorEntry.declarations]

theorem describes_iff (index : Index) (program : Program) :
    index.Describes program ↔
      index = ofProgram program ∧ (ofProgram program).DistinctIds ∧
        (∀ entry ∈ program.main.entries none 0 program.main.name, entry.WellPlaced) ∧
        (ofProgram program).referenceProblems = [] := by
  constructor
  · intro described
    have same := (laysOut_iff index program).mp described.toLaysOut
    rw [← same]
    exact ⟨rfl, described.distinct, described.reactors ▸ described.placed, described.references⟩
  · rintro ⟨rfl, distinct, placed, references⟩
    have laidOut := (laysOut_iff _ program).mpr rfl
    exact ⟨laidOut, distinct, laidOut.reactors ▸ placed, references⟩

/-- The survey of a program finds no problem exactly if the program is laid out without one. -/
theorem build_eq_ok_iff (program : Program) (index : Index) :
    build program = .ok index ↔ index.Describes program := by
  have adds := Survey.visit_adds none 0 program.main.name program.main
  have nothing : ({ main := program.main } : Index).DistinctIds := by simp [distinctIds_iff]
  have clean := adds.clean_iff ⟨{ main := program.main }, []⟩ nothing
  have laidOut := adds.index_eq ⟨{ main := program.main }, []⟩ nothing
  simp only [true_and] at clean
  rw [describes_iff, build]
  constructor
  · intro built
    split at built
    · next problems =>
      obtain ⟨noProblem, references⟩ := List.append_eq_nil_iff.mp problems
      have same : (survey program).index = ofProgram program := laidOut noProblem
      obtain ⟨distinct, placed⟩ := clean.mp noProblem
      rw [laidOut noProblem] at references
      rw [Except.ok.injEq, same] at built
      exact ⟨built.symm, distinct, placed, references⟩
    · contradiction
  · rintro ⟨rfl, distinct, placed, references⟩
    have noProblem := clean.mpr ⟨distinct, placed⟩
    have same : (survey program).index = ofProgram program := laidOut noProblem
    have problems : (survey program).problems = [] := by
      refine List.append_eq_nil_iff.mpr ⟨noProblem, ?_⟩
      rw [laidOut noProblem]
      exact references
    simp [problems, same]

end Index

end ReactorCausality
