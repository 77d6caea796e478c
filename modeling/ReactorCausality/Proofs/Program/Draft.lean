import Mathlib.Data.List.Pairwise
import ReactorCausality.Proofs.Index.References
import ReactorCausality.Proofs.Program.Assembly
import ReactorCausality.Proofs.Program.Drafting

/-!
The programs that drafts are finished to. A finished program holds what the steps of its draft
declare (`Yields`): every reactor once, under its parent and behind its elder siblings, with all
that is declared for it in the order of the steps. Ids and indexes come out right whatever the steps are,
so a step can do nothing wrong but name a reactor that does not exist, and a finished program can
have nothing wrong but its references (`drafts_are_sound`).
-/
namespace ReactorCausality

namespace Draft

variable {mainName : String} {steps : List Step}

/-! ### The reactors of the draft -/

/-- No two entries declare the same. -/
theorem eq_of_nodup_filterMap {α β : Type} {what : α → Option β} {items : List α}
    (distinct : (items.filterMap what).Nodup) {first second : α} {value : β}
    (memberFirst : first ∈ items) (memberSecond : second ∈ items)
    (ofFirst : what first = some value) (ofSecond : what second = some value) :
    first = second := by
  by_contra different
  have symmetric : Std.Symm fun left right : α => ∀ ofLeft, what left = some ofLeft →
      ∀ ofRight, what right = some ofRight → ofLeft ≠ ofRight :=
    ⟨fun _ _ differ ofRight isRight ofLeft isLeft => (differ ofLeft isLeft ofRight isRight).symm⟩
  have apart := (List.pairwise_filterMap.mp distinct).forall memberFirst memberSecond different
  exact apart value ofFirst value ofSecond rfl

/-- A reactor that is created comes behind the reactor that it is created under. -/
theorem lt_of_creates {earlier later : List Step} (further : KnownAfter earlier later)
    {entry : Step × Nat} (member : entry ∈ numberedAfter earlier later)
    (creates : (Step.reactor? entry).isSome) :
    entry.1.reactorId.number.toNat < entry.2 ∧
      entry.2 < taken (earlier ++ later) .reactor := by
  induction later generalizing earlier with
  | nil => contradiction
  | cons step later ih =>
    obtain ⟨inside, rest⟩ := further
    rw [List.append_cons]
    rcases List.mem_cons.mp member with rfl | behind
    · have isReactor : step.kind? = some .reactor := by
        cases step with
        | reactor parent name => rfl
        | _ => contradiction
      have more := taken_le_append (earlier ++ [step]) later .reactor
      rw [taken_snoc, if_pos isReactor] at more
      simp only [Step.number, isReactor]
      omega
    · exact ih rest behind

/-- A step that creates a reactor, by the reactor. -/
theorem mem_childIdsAfter_iff {id parent : ReactorId} :
    id ∈ childIdsAfter steps parent ↔ ∃ entry ∈ numbered steps,
      entry.1.reactorId = parent ∧ (Step.reactor? entry).map Prod.fst = some id := by
  rw [childIdsAfter, declaredOn, List.map_filterMap]
  simp [and_assoc]

section Reached

variable (known : KnownAfter [] steps) (bounded : taken steps .reactor < UInt32.size)

section Fits

include bounded

theorem nodup_fst_created (mainName : String) :
    ((created mainName steps).map Prod.fst).Nodup := by
  rw [map_fst_created]
  exact nodup_map_idAt (Nat.le_of_lt bounded)

theorem nodup_fst_declared : ((declared Step.reactor? steps).map Prod.fst).Nodup :=
  (List.nodup_cons.mp (nodup_fst_created bounded "")).2

theorem ne_mainId_of_declared {named : ReactorId × String}
    (member : named ∈ declared Step.reactor? steps) : named.1 ≠ mainId := by
  have fresh := (List.nodup_cons.mp (nodup_fst_created bounded "")).1
  intro same
  have isMain : named.1 ∈ (declared Step.reactor? steps).map Prod.fst := List.mem_map_of_mem member
  rw [same] at isMain
  exact fresh isMain

/-- A reactor that steps create is in the slot of its id. -/
theorem slot?_reached_of_declared (mainName : String) {named : ReactorId × String}
    (member : named ∈ declared Step.reactor? steps) :
    (reached mainName steps).slot? named.1 = some (bodyAfter steps named) := by
  have isCreated : named ∈ created mainName steps := List.mem_cons_of_mem _ member
  have inside : named.1.number.toNat < taken steps .reactor := by
    rw [← mem_map_idAt_iff (Nat.le_of_lt bounded), ← map_fst_created mainName]
    exact List.mem_map_of_mem isCreated
  obtain ⟨name, found⟩ := getElem?_created mainName inside
  have same : (named.1, name) = named :=
    List.inj_on_of_nodup_map (nodup_fst_created bounded mainName) (List.mem_of_getElem? found)
      isCreated rfl
  rw [slot?, reached, List.getElem?_map, found, same, Option.map_some, slotAfter,
    if_neg (ne_mainId_of_declared bounded member)]
  rfl

theorem inSlots_reached (mainName : String) :
    (reached mainName steps).inSlots =
      (declared Step.reactor? steps).map (bodyAfter steps) := by
  rw [inSlots, reached, created, List.map_cons, slotAfter, if_pos rfl, List.filterMap_cons,
    List.filterMap_map, ← List.filterMap_eq_map]
  refine List.filterMap_congr fun named member => ?_
  exact if_neg (ne_mainId_of_declared bounded member)

end Fits

theorem eq_of_reactor?_reached {id : ReactorId} {body : Reactor}
    (found : (reached mainName steps).reactor? id = some body) :
    ∃ name, body = bodyAfter steps (id, name) := by
  rw [reactor?] at found
  split at found
  · next isMain =>
    cases found
    exact ⟨mainName, by rw [isMain]; rfl⟩
  · next other =>
    have inside := (isSome_slot?_reached mainName steps id).mp (by rw [found]; rfl)
    obtain ⟨name, atPosition⟩ := getElem?_created mainName inside.2
    rw [slot?, reached, List.getElem?_map, atPosition, Option.map_some, slotAfter,
      if_neg other] at found
    cases found
    exact ⟨name, rfl⟩

include known bounded

/-- A child has a number, which is behind that of its parent. -/
theorem lt_of_mem_childIds {id parent : ReactorId} (isChild : id ∈ childIdsAfter steps parent) :
    parent.number.toNat < id.number.toNat ∧ id.number.toNat < taken steps .reactor := by
  obtain ⟨entry, member, rfl, isId⟩ := mem_childIdsAfter_iff.mp isChild
  have creates : (Step.reactor? entry).isSome := by
    rw [← Option.isSome_map, isId]
    rfl
  obtain ⟨older, inside⟩ := lt_of_creates known member creates
  have number : id = idAt entry.2 := by
    rw [reactor?_map_fst, numberOf?] at isId
    split at isId <;> cases isId
    rfl
  rw [List.nil_append] at inside
  rw [(eq_idAt_iff (Nat.lt_trans inside bounded)).mp number]
  exact ⟨older, inside⟩

/-- In the draft that steps lead to, every reactor is below the main reactor. -/
theorem rooted_reached (mainName : String) : (reached mainName steps).Rooted := by
  have childIds := childIds_reached known.all mainName
  constructor
  · constructor
    · intro id
      rw [childIds]
      exact ((declaredOn_sublist _ steps id).map Prod.fst).nodup (nodup_fst_declared bounded)
    · intro id parent other isChild isChildToo
      rw [childIds, mem_childIdsAfter_iff] at isChild isChildToo
      obtain ⟨entry, member, rfl, isId⟩ := isChild
      obtain ⟨another, memberToo, rfl, isIdToo⟩ := isChildToo
      have distinct := nodup_fst_declared bounded
      rw [declared, List.map_filterMap] at distinct
      rw [eq_of_nodup_filterMap distinct member memberToo isId isIdToo]
    · intro id isChild
      rw [childIds] at isChild
      exact Nat.lt_irrefl _ (lt_of_mem_childIds known bounded isChild).1
  · rw [reached, List.length_map, length_created]
    exact Nat.le_of_lt bounded
  · rw [← Option.not_isSome_iff_eq_none, isSome_slot?_reached]
    simp
  · intro parent _ child isChild
    rw [childIds] at isChild
    obtain ⟨older, inside⟩ := lt_of_mem_childIds known bounded isChild
    refine (isSome_slot?_reached mainName steps child).mpr ⟨?_, inside⟩
    rintro rfl
    exact Nat.not_lt_zero _ older
  · intro id filled
    obtain ⟨other, inside⟩ := (isSome_slot?_reached mainName steps id).mp filled
    obtain ⟨name, found⟩ := getElem?_created mainName inside
    rcases List.mem_cons.mp (List.mem_of_getElem? found) with isMain | isDeclared
    · cases isMain
      contradiction
    · obtain ⟨entry, member, creates⟩ := List.mem_filterMap.mp isDeclared
      have isChild : id ∈ childIdsAfter steps entry.1.reactorId :=
        mem_childIdsAfter_iff.mpr ⟨entry, member, rfl, by rw [creates]; rfl⟩
      obtain ⟨older, -⟩ := lt_of_mem_childIds known bounded isChild
      exact ⟨_, (knows_reached ..).mpr (by omega), childIds _ ▸ isChild, older⟩

end Reached

/-! ### The reactors of the program -/

section Finish

variable (mainName) (known : KnownAfter [] steps) (bounded : taken steps .reactor < UInt32.size)
include known bounded

theorem perm_finish_reached :
    ((reached mainName steps).finish.reactors.map Reactor.bare).Perm
      ((created mainName steps).map (bodyAfter steps)) := by
  have all := (rooted_reached known bounded mainName).perm_finish
  rw [inSlots_reached bounded, List.map_cons, List.map_map] at all
  exact all

/-- A reactor of the program is what the steps make of its id and its name. -/
theorem bare_eq_bodyAfter {reactor : Reactor}
    (inside : reactor ∈ (reached mainName steps).finish.reactors) :
    reactor.bare = bodyAfter steps (reactor.id, reactor.name) := by
  have all := perm_finish_reached mainName known bounded
  obtain ⟨named, -, same⟩ := List.mem_map.mp (all.mem_iff.mp (List.mem_map_of_mem inside))
  have id : named.1 = reactor.id := congrArg Reactor.id same
  have name : named.2 = reactor.name := congrArg Reactor.name same
  rw [← same, ← id, ← name]

theorem perm_named :
    ((reached mainName steps).finish.reactors.map fun reactor => (reactor.id, reactor.name)).Perm
      (created mainName steps) := by
  have perm := (perm_finish_reached mainName known bounded).map
    fun reactor => (reactor.id, reactor.name)
  rw [List.map_map, List.map_map] at perm
  exact perm.trans (.of_eq (List.map_id _))

theorem children_named {reactor : Reactor}
    (inside : reactor ∈ (reached mainName steps).finish.reactors) :
    (reactor.children.map fun child => (child.id, child.name)) =
      declaredOn Step.reactor? steps reactor.id := by
  obtain ⟨id, body, found, same, children⟩ :=
    (rooted_reached known bounded mainName).exists_of_mem_finish inside
  obtain ⟨name, rfl⟩ := eq_of_reactor?_reached found
  obtain rfl : reactor.id = id := congrArg Reactor.id same
  rw [childIds_reached known.all, childIdsAfter, List.map_map] at children
  have bodies : (declaredOn Step.reactor? steps reactor.id).map
        ((fun child => ((reached mainName steps).slot? child).map Reactor.bare) ∘ Prod.fst) =
      (declaredOn Step.reactor? steps reactor.id).map fun named => some (bodyAfter steps named) :=
    List.map_congr_left fun named member => by
      rw [Function.comp_apply, slot?_reached_of_declared bounded mainName
        ((declaredOn_sublist ..).subset member)]
      rfl
  have bare : reactor.children.map Reactor.bare =
      (declaredOn Step.reactor? steps reactor.id).map (bodyAfter steps) := by
    refine List.map_injective_iff.mpr (fun _ _ same => Option.some.inj same) ?_
    rw [List.map_map, List.map_map]
    exact children.trans bodies
  have names := congrArg (List.map fun child : Reactor => (child.id, child.name)) bare
  rw [List.map_map, List.map_map] at names
  exact names.trans (List.map_id _)

theorem perm_reactorIds :
    ((reached mainName steps).finish.reactors.map Reactor.id).Perm
      ((List.range (taken steps .reactor)).map idAt) := by
  rw [← map_fst_created mainName]
  simpa [List.map_map, Function.comp_def] using (perm_named mainName known bounded).map Prod.fst

section Declared

variable {α : Type} {what : Step × Nat → Option α} {field : Reactor → List α}
  (same : ∀ reactor ∈ (reached mainName steps).finish.reactors,
    field reactor = declaredOn what steps reactor.id)
include same

/-- What all reactors of the program have is all that is declared. -/
theorem flatMap_perm_declared :
    ((reached mainName steps).finish.reactors.flatMap field).Perm (declared what steps) := by
  have ids := perm_reactorIds mainName known bounded
  have distinct := ids.nodup_iff.mpr (nodup_map_idAt (Nat.le_of_lt bounded))
  rw [List.flatMap_congr same, ← List.flatMap_map Reactor.id (declaredOn what steps)]
  refine flatMap_declaredOn_perm what distinct fun step member => ids.mem_iff.mpr ?_
  rw [mem_map_idAt_iff (Nat.le_of_lt bounded)]
  exact known.all step member

/-- Where every step of a kind declares something, its ids have the numbers up to the last. -/
theorem perm_numbers {kind : Entity} {id : α → EntityId kind}
    (numbers : ∀ entry, (what entry).map id = (numberOf? kind entry).map idAt)
    (isOther : kind ≠ .reactor) (fits : taken steps kind < UInt32.size) :
    (((reached mainName steps).finish.reactors.flatMap field).map fun item =>
      (id item).number.toNat).Perm (List.range (taken steps kind)) := by
  have total : taken steps kind = steps.countP fun step => step.kind? = some kind := by
    rw [taken, if_neg isOther, Nat.zero_add]
  have perm := (flatMap_perm_declared mainName known bounded same).map id
  rw [map_id_declared numbers, taken_nil, if_neg isOther, ← List.range_eq_range', ← total] at perm
  exact perm_numbers_of_perm_ids (Nat.le_of_lt fits) perm

end Declared

end Finish

theorem map_id_reactions (entries : List (ReactionId × Declaration)) :
    (entries.mapIdx fun position entry => entry.2.reaction entry.1 position).map Reaction.id =
      entries.map Prod.fst := by
  refine List.ext_getElem? fun position => ?_
  cases found : entries[position]? <;>
    simp [List.getElem?_map, List.getElem?_mapIdx, found, Declaration.reaction]

theorem index_of_getElem? {entries : List (ReactionId × Declaration)} {position : Nat}
    {reaction : Reaction} (fits : entries.length ≤ UInt32.size)
    (found : (entries.mapIdx fun position entry => entry.2.reaction entry.1 position)[position]? =
      some reaction) : reaction.index.toNat = position := by
  rw [List.getElem?_mapIdx, Option.map_eq_some_iff] at found
  obtain ⟨entry, isThere, rfl⟩ := found
  have below := (List.getElem?_eq_some_iff.mp isThere).1
  exact UInt32.toNat_ofNat_of_lt' (Nat.lt_of_lt_of_le below fits)

theorem length_reactions_le (fits : taken steps .reaction < UInt32.size) (id : ReactorId) :
    (declaredOn Step.reaction? steps id).length ≤ UInt32.size := by
  have count := (reactionIds_sublist steps).length_le
  have few := (declaredOn_sublist Step.reaction? steps id).length_le
  rw [List.length_map, List.length_map, List.length_range] at count
  omega

theorem nodup_reactionIds (mainName : String) (known : KnownAfter [] steps)
    (bounded : ∀ kind, taken steps kind < UInt32.size)
    (reactions : ∀ reactor ∈ (reached mainName steps).finish.reactors,
      reactor.reactions = (declaredOn Step.reaction? steps reactor.id).mapIdx fun position entry =>
        entry.2.reaction entry.1 position) :
    ((reached mainName steps).finish.reactions.map Reaction.id).Nodup := by
  have all : ((reached mainName steps).finish.reactors.flatMap fun reactor =>
      declaredOn Step.reaction? steps reactor.id).Perm (declared Step.reaction? steps) :=
    flatMap_perm_declared mainName known (bounded .reactor) fun _ _ => rfl
  have ids : (reached mainName steps).finish.reactions.map Reaction.id =
      ((reached mainName steps).finish.reactors.flatMap fun reactor =>
        declaredOn Step.reaction? steps reactor.id).map Prod.fst := by
    rw [Program.reactions, List.map_flatMap, List.map_flatMap]
    exact List.flatMap_congr fun reactor inside => by
      rw [reactions reactor inside, map_id_reactions]
  rw [ids]
  exact (all.map Prod.fst).nodup_iff.mpr
    ((reactionIds_sublist steps).nodup (nodup_map_idAt (Nat.le_of_lt (bounded .reaction))))

/-! ### Soundness -/

/-- A program that holds what steps declare. -/
structure Yields (mainName : String) (steps : List Step) (program : Program) : Prop where
  main : (program.main.id, program.main.name) = (mainId, mainName)
  /-- Every reactor that was created is in the tree once. -/
  reactors : (program.reactors.map fun reactor => (reactor.id, reactor.name)).Perm
    (created mainName steps)
  /-- The children of a reactor are those that were created under it, in that order. -/
  children : ∀ reactor ∈ program.reactors,
    (reactor.children.map fun child => (child.id, child.name)) =
      declaredOn Step.reactor? steps reactor.id
  ports : ∀ reactor ∈ program.reactors, reactor.ports = declaredOn Step.port? steps reactor.id
  modes : ∀ reactor ∈ program.reactors, reactor.modes = declaredOn Step.mode? steps reactor.id
  connections : ∀ reactor ∈ program.reactors,
    reactor.connections = declaredOn Step.connection? steps reactor.id
  reactions : ∀ reactor ∈ program.reactors,
    reactor.reactions = (declaredOn Step.reaction? steps reactor.id).mapIdx fun position entry =>
      entry.2.reaction entry.1 position
  /-- A reactor is in the mode that it was put into last. -/
  placements : ∀ reactor ∈ program.reactors,
    reactor.mode = (declaredOn Step.placement? steps reactor.id).getLast?
  reactorIds : (program.reactors.map fun reactor => reactor.id.number.toNat).Perm
    (List.range (taken steps .reactor))
  portIds : ((program.reactors.flatMap Reactor.ports).map fun port => port.id.number.toNat).Perm
    (List.range (taken steps .port))
  connectionIds : ((program.reactors.flatMap Reactor.connections).map fun connection =>
    connection.id.number.toNat).Perm (List.range (taken steps .connection))
  modeIds : ((program.reactors.flatMap Reactor.modes).map fun mode => mode.id.number.toNat).Perm
    (List.range (taken steps .mode))
  reactionIds : (program.reactions.map Reaction.id).Nodup
  indexes : ∀ reactor ∈ program.reactors, ∀ (position : Nat) (reaction : Reaction),
    reactor.reactions[position]? = some reaction → reaction.index.toNat = position

/-- The program of a run holds what its steps declare. -/
theorem yields (known : KnownAfter [] steps) (bounded : ∀ kind, taken steps kind < UInt32.size)
    (mainName : String) : Yields mainName steps (reached mainName steps).finish := by
  have bodies : ∀ reactor ∈ (reached mainName steps).finish.reactors,
      reactor.bare = bodyAfter steps (reactor.id, reactor.name) :=
    fun reactor inside => bare_eq_bodyAfter mainName known (bounded .reactor) inside
  have ports : ∀ reactor ∈ (reached mainName steps).finish.reactors,
      reactor.ports = declaredOn Step.port? steps reactor.id :=
    fun reactor inside => congrArg Reactor.ports (bodies reactor inside)
  have modes : ∀ reactor ∈ (reached mainName steps).finish.reactors,
      reactor.modes = declaredOn Step.mode? steps reactor.id :=
    fun reactor inside => congrArg Reactor.modes (bodies reactor inside)
  have connections : ∀ reactor ∈ (reached mainName steps).finish.reactors,
      reactor.connections = declaredOn Step.connection? steps reactor.id :=
    fun reactor inside => congrArg Reactor.connections (bodies reactor inside)
  have reactions : ∀ reactor ∈ (reached mainName steps).finish.reactors,
      reactor.reactions = (declaredOn Step.reaction? steps reactor.id).mapIdx fun position entry =>
        entry.2.reaction entry.1 position :=
    fun reactor inside => congrArg Reactor.reactions (bodies reactor inside)
  exact {
    main := rfl
    reactors := perm_named mainName known (bounded .reactor)
    children := fun reactor inside => children_named mainName known (bounded .reactor) inside
    ports := ports
    modes := modes
    connections := connections
    reactions := reactions
    placements := fun reactor inside => congrArg Reactor.mode (bodies reactor inside)
    reactorIds :=
      perm_numbers_of_perm_ids (Nat.le_of_lt (bounded .reactor))
        (perm_reactorIds mainName known (bounded .reactor))
    portIds := perm_numbers mainName known (bounded .reactor) ports port?_map_id nofun
      (bounded .port)
    connectionIds := perm_numbers mainName known (bounded .reactor) connections
      connection?_map_id nofun (bounded .connection)
    modeIds := perm_numbers mainName known (bounded .reactor) modes mode?_map_id nofun
      (bounded .mode)
    reactionIds := nodup_reactionIds mainName known bounded reactions
    indexes := by
      intro reactor inside position reaction found
      rw [reactions reactor inside] at found
      exact index_of_getElem? (length_reactions_le (bounded .reaction) reactor.id) found }

namespace Yields

variable {program : Program} (yields : Yields mainName steps program)
include yields

/-- Only what the steps refer to can be wrong with the program. -/
theorem isReference_of_build_error {problems : List Problem}
    (refused : Index.build program = .error problems) :
    ∀ problem ∈ problems, problem.IsReference := by
  have distinct {α : Type} {kind : Entity} {items : List α} {id : α → EntityId kind} {count : Nat}
      (numbers : (items.map fun item => (id item).number.toNat).Perm (List.range count)) :
      (items.map id).Nodup :=
    List.Nodup.of_map (fun id => id.number.toNat)
      (by rw [List.map_map]; exact numbers.nodup_iff.mpr List.nodup_range)
  exact Index.isReference_of_build_error (distinct yields.reactorIds) (distinct yields.portIds)
    yields.reactionIds (distinct yields.connectionIds) yields.indexes refused

end Yields

end Draft

/-- A step fails exactly if it is given a reactor whose id has not been handed out. When no step
fails, the finished program holds all that the steps declare, each kind numbered without gaps, and
nothing can be wrong with it but what the steps refer to. -/
theorem drafts_are_sound (mainName : String) (steps : List Draft.Step) (draft : Draft)
    (handed : List Draft.Handed)
    (ran : (Draft.start mainName).run [] steps = (draft, handed, none))
    (bounded : ∀ kind, Draft.taken steps kind < UInt32.size) :
    (∀ step, (∃ fault, draft.apply step = .error fault) ↔
      step.reactorId ∉ Draft.returned steps handed) ∧
    Draft.Yields mainName steps draft.finish ∧
    ∀ problems, Index.build draft.finish = .error problems →
      ∀ problem ∈ problems, problem.IsReference := by
  obtain ⟨known, rfl, rfl⟩ := Draft.run_start (bounded .reactor) ran
  have yields := Draft.yields known bounded mainName
  refine ⟨fun step => ?_, yields, fun problems refused => yields.isReference_of_build_error refused⟩
  rw [Draft.mem_returned_iff (bounded .reactor), ← Draft.knows_reached mainName, Draft.apply_eq]
  by_cases inside : (Draft.reached mainName steps).knows step.reactorId <;> simp [inside]

/-- A device with a sensor inside, whose first reaction is discarded. The device is put into a mode
that nothing declares. -/
def Draft.device : List Draft.Step := [
  .reactor ⟨0⟩ "device",
  .reactor ⟨1⟩ "sensor",
  .port ⟨1⟩ "level" .output,
  .port ⟨2⟩ "value" .output,
  .connect ⟨1⟩ ⟨1⟩ ⟨0⟩ none false,
  .reaction ⟨2⟩ { triggers := [.startup], isDiscarded := true },
  .reaction ⟨2⟩ { triggers := [.timer "tick"], effects := [.port ⟨1⟩] },
  .mode ⟨0⟩ "active" true,
  .place ⟨1⟩ ⟨1⟩]

/-- What the steps of the device come to. -/
def Draft.ofDevice : Draft :=
  ((start "main").run [] device).1

def Reactor.sensor : Reactor :=
  { id := ⟨2⟩
    name := "sensor"
    ports := [{ id := ⟨1⟩, name := "value", direction := .output }]
    reactions := [
      { id := ⟨1⟩, index := 0, triggers := [.timer "tick"], effects := [.port ⟨1⟩] }] }

/-- The device without what is inside. -/
def Reactor.device : Reactor :=
  { id := ⟨1⟩
    name := "device"
    ports := [{ id := ⟨0⟩, name := "level", direction := .output }]
    connections := [{ id := ⟨0⟩, source := ⟨1⟩, target := ⟨0⟩ }]
    mode := some ⟨1⟩ }

theorem Draft.assemble_singleton {draft : Draft} {id : ReactorId} {reactor : Reactor}
    (found : draft.slot? id = some reactor) : (draft.assemble [id]).1 =
      [{ reactor with children := ((draft.moveOut id).assemble (draft.childIds id)).1 }] := by
  rw [assemble]
  split
  · simp_all
  · next other foundToo =>
    obtain rfl : reactor = other := Option.some.inj (found.symm.trans foundToo)
    simp only [assemble]

theorem Draft.finish_ofDevice : ofDevice.finish = ⟨{ ofDevice.main with
    children := [{ Reactor.device with children := [.sensor] }] }⟩ := by
  have device : (ofDevice.moveOut mainId).slot? ⟨1⟩ = some .device := by decide +kernel
  have sensor : ((ofDevice.moveOut mainId).moveOut ⟨1⟩).slot? ⟨2⟩ = some .sensor := by
    decide +kernel
  have below : ofDevice.childIds mainId = [⟨1⟩] ∧
      (ofDevice.moveOut mainId).childIds ⟨1⟩ = [⟨2⟩] ∧
        ((ofDevice.moveOut mainId).moveOut ⟨1⟩).childIds ⟨2⟩ = [] := by decide +kernel
  rw [finish, below.1, assemble_singleton device, below.2.1, assemble_singleton sensor, below.2.2,
    assemble]
  rfl

theorem drafts_are_sound_device :
    (Draft.start "main").run [] Draft.device = (Draft.ofDevice,
      [some 1, some 2, some 0, some 1, some 0, none, some 1, some 0, none], none) ∧
    (∃ fault, Draft.ofDevice.apply (.reactor ⟨3⟩ "probe") = .error fault) ∧
    Draft.Yields "main" Draft.device Draft.ofDevice.finish ∧
    (Draft.ofDevice.finish.reactions.map fun reaction => (reaction.id, reaction.index)) =
      [(⟨1⟩, 0)] ∧
    Index.build Draft.ofDevice.finish = .error [.reactorMode "main.device" ⟨1⟩ "main"] ∧
    Problem.IsReference (.reactorMode "main.device" ⟨1⟩ "main") := by
  have ran : (Draft.start "main").run [] Draft.device = (Draft.ofDevice,
      [some 1, some 2, some 0, some 1, some 0, none, some 1, some 0, none], none) :=
    Prod.ext rfl (by decide)
  have bounded : ∀ kind, Draft.taken Draft.device kind < UInt32.size := by
    intro kind
    cases kind <;> decide
  have problems : (Index.survey Draft.ofDevice.finish).problems =
      [.reactorMode "main.device" ⟨1⟩ "main"] := by
    rw [Draft.finish_ofDevice]
    decide +kernel
  have numbered : (Draft.ofDevice.finish.reactions.map fun reaction =>
      (reaction.id, reaction.index)) = [(⟨1⟩, 0)] := by
    rw [Draft.finish_ofDevice]
    decide +kernel
  have refused : Index.build Draft.ofDevice.finish =
      .error [.reactorMode "main.device" ⟨1⟩ "main"] := by rw [Index.build, problems]
  obtain ⟨fails, yields, references⟩ := drafts_are_sound "main" Draft.device _ _ ran bounded
  exact ⟨ran, (fails (.reactor ⟨3⟩ "probe")).mpr (by decide), yields, numbered,
    refused, references _ refused _ List.mem_cons_self⟩

end ReactorCausality
