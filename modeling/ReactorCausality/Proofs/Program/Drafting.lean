import ReactorCausality.Proofs.Program.Declared

/-!
Runs of steps. A step fails exactly if the reactor that it is given is not in the draft
(`apply_eq`). The draft that steps lead to can be read off the steps: what stands at a position is
the reactor that has its id, with all that the steps declare for it (`reached`). One step leads from
the draft after the steps before it to the draft after it (`after_reached`), and so does a run
(`run_reached`).
-/
namespace ReactorCausality

namespace Draft

/-! ### One step -/

/-- What a step changes in the body of the reactor that it is given. -/
def Step.change (number : Nat) : Step → Reactor → Reactor
  | .reactor _ _, body => body
  | .port _ name direction, body =>
    { body with ports := body.ports ++ [⟨idAt number, name, direction⟩] }
  | .mode _ name isInitial, body =>
    { body with modes := body.modes ++ [⟨idAt number, name, isInitial⟩] }
  | .place _ target, body => { body with mode := some target }
  | .connect _ source target delay isPhysical, body =>
    { body with
      connections := body.connections ++ [⟨idAt number, source, target, delay, isPhysical⟩] }
  | .reaction _ declaration, body =>
    if declaration.isDiscarded then body
    else
      { body with
        reactions := body.reactions ++ [declaration.reaction (idAt number) body.reactions.length] }

/-- How many ids of the kind that a step takes have been handed out by a draft. -/
def count (draft : Draft) : Entity → Nat
  | .reactor => draft.reactorCount
  | .port => draft.portCount
  | .reaction => draft.reactionCount
  | .connection => draft.connectionCount
  | .mode => draft.modeCount

def next (draft : Draft) (step : Step) : Nat :=
  (step.kind?.map draft.count).getD 0

/-- The draft after a step that is given one of its reactors. -/
def after (draft : Draft) (step : Step) : Draft where
  main := if step.reactorId = mainId then step.change (draft.next step) draft.main else draft.main
  slots :=
    match Step.reactor? (step, draft.next step) with
    | some named => draft.slots ++ [some { id := named.1, name := named.2 }]
    | none =>
      if step.reactorId = mainId then draft.slots
      else draft.slots.modify step.reactorId.number.toNat
        (Option.map (step.change (draft.next step)))
  children :=
    match Step.reactor? (step, draft.next step) with
    | some named =>
      (draft.children ++ [[]]).modify step.reactorId.number.toNat (· ++ [named.1])
    | none => draft.children
  reactorCount := draft.reactorCount + if step.kind? = some .reactor then 1 else 0
  portCount := draft.portCount + if step.kind? = some .port then 1 else 0
  reactionCount := draft.reactionCount + if step.kind? = some .reaction then 1 else 0
  connectionCount := draft.connectionCount + if step.kind? = some .connection then 1 else 0
  modeCount := draft.modeCount + if step.kind? = some .mode then 1 else 0

theorem amend_eq (draft : Draft) (id : ReactorId) (change : Reactor → Reactor) :
    draft.amend id change = { draft with
      main := if id = mainId then change draft.main else draft.main
      slots := if id = mainId then draft.slots
        else draft.slots.modify id.number.toNat (Option.map change) } := by
  rw [amend]
  split <;> rfl

/-- A step fails exactly if the reactor that it is given is not in the draft. -/
theorem apply_eq (draft : Draft) (step : Step) :
    draft.apply step =
      if draft.knows step.reactorId then
        .ok (draft.after step, Step.handed (step, draft.next step))
      else .error ⟨step.reactorId⟩ := by
  by_cases known : draft.knows step.reactorId
  · rw [if_pos known]
    cases step <;> simp only [Step.reactorId] at known
    case reactor parent name =>
      have unchanged : (draft.after (.reactor parent name)).main = draft.main := ite_self _
      rw [apply, if_pos known]
      exact congrArg (fun main => Except.ok ({ draft.after (.reactor parent name) with main }, _))
        unchanged.symm
    all_goals
      simp only [apply, modify]
      rw [if_pos (by exact known), amend_eq]
      rfl
  · rw [if_neg known]
    cases step <;> simp only [Step.reactorId] at known <;> simp only [apply, modify] <;>
      rw [if_neg (by exact known)] <;> rfl

/-! ### The draft that steps lead to -/

/-- What is in the slot of a reactor after some steps. -/
def slotAfter (steps : List Step) (named : ReactorId × String) : Option Reactor :=
  if named.1 = mainId then none else some (bodyAfter steps named)

/-- The children of a reactor after some steps. -/
def childIdsAfter (steps : List Step) (id : ReactorId) : List ReactorId :=
  (declaredOn Step.reactor? steps id).map Prod.fst

/-- The draft after some steps. -/
def reached (mainName : String) (steps : List Step) : Draft where
  main := bodyAfter steps (mainId, mainName)
  slots := (created mainName steps).map (slotAfter steps)
  children := (created mainName steps).map fun named => childIdsAfter steps named.1
  reactorCount := taken steps .reactor
  portCount := taken steps .port
  reactionCount := taken steps .reaction
  connectionCount := taken steps .connection
  modeCount := taken steps .mode

theorem reached_nil (mainName : String) : reached mainName [] = start mainName :=
  rfl

variable {mainName : String} {steps : List Step} {step : Step}

theorem next_reached (mainName : String) (steps : List Step) (step : Step) :
    (reached mainName steps).next step = step.number steps := by
  rw [next, Step.number]
  cases step.kind? with
  | none => rfl
  | some kind => cases kind <;> rfl

theorem created_snoc (mainName : String) (steps : List Step) (step : Step) :
    created mainName (steps ++ [step]) =
      created mainName steps ++ (Step.reactor? (step, step.number steps)).toList := by
  rw [created, declared, numbered_snoc, List.filterMap_append, created, List.cons_append]
  cases isReactor : Step.reactor? (step, step.number steps) <;> simp [declared, isReactor]

theorem bodyAfter_snoc (steps : List Step) (step : Step) (named : ReactorId × String) :
    bodyAfter (steps ++ [step]) named =
      if step.reactorId = named.1 then step.change (step.number steps) (bodyAfter steps named)
      else bodyAfter steps named := by
  simp only [bodyAfter, declaredOn_snoc]
  by_cases given : step.reactorId = named.1
  · simp only [if_pos given]
    cases step with
    | reaction _ declaration =>
      by_cases isDiscarded : declaration.isDiscarded <;>
        simp [Step.port?, Step.mode?, Step.placement?, Step.connection?, Step.reaction?,
          Step.change, isDiscarded, List.mapIdx_append]
    | _ =>
      simp [Step.port?, Step.mode?, Step.placement?, Step.connection?, Step.reaction?, Step.change]
  · simp [given]

theorem slotAfter_snoc (steps : List Step) (step : Step) (named : ReactorId × String) :
    slotAfter (steps ++ [step]) named =
      if step.reactorId = named.1 then
        (slotAfter steps named).map (step.change (step.number steps))
      else slotAfter steps named := by
  rw [slotAfter, slotAfter, bodyAfter_snoc]
  split <;> split <;> rfl

theorem childIdsAfter_snoc (steps : List Step) (step : Step) (id : ReactorId) :
    childIdsAfter (steps ++ [step]) id =
      childIdsAfter steps id ++
        if step.reactorId = id then
          (Step.reactor? (step, step.number steps)).toList.map Prod.fst
        else [] := by
  rw [childIdsAfter, declaredOn_snoc, List.map_append, apply_ite (List.map Prod.fst), List.map_nil]
  rfl

/-- What nothing is declared for is as it was created. -/
theorem bodyAfter_of_unused {named : ReactorId × String}
    (unused : ∀ step ∈ steps, step.reactorId ≠ named.1) :
    bodyAfter steps named = { id := named.1, name := named.2 } := by
  simp [bodyAfter, declaredOn_eq_nil _ unused]

theorem childIdsAfter_of_unused {id : ReactorId} (unused : ∀ step ∈ steps, step.reactorId ≠ id) :
    childIdsAfter steps id = [] := by
  rw [childIdsAfter, declaredOn_eq_nil _ unused, List.map_nil]

/-! ### Positions -/

/-- At the position of an id that is taken stands the reactor that has it. -/
theorem getElem?_created (mainName : String) {id : ReactorId}
    (inside : id.number.toNat < taken steps .reactor) :
    ∃ name, (created mainName steps)[id.number.toNat]? = some (id, name) := by
  have atPosition := congrArg (·[id.number.toNat]?) (map_fst_created mainName steps)
  simp only [List.getElem?_map, List.getElem?_range inside, Option.map_some] at atPosition
  obtain ⟨named, found, same⟩ := Option.map_eq_some_iff.mp atPosition
  obtain rfl : named.1 = id := same.trans (by simp [idAt])
  exact ⟨named.2, found⟩

theorem length_created (mainName : String) (steps : List Step) :
    (created mainName steps).length = taken steps .reactor := by
  simpa using congrArg List.length (map_fst_created mainName steps)

theorem mainId_lt (steps : List Step) : mainId.number.toNat < taken steps .reactor := by
  have zero : mainId.number.toNat = 0 := rfl
  rw [zero, taken, if_pos rfl]
  omega

/-- Where ids are positions, changing what stands at a position is changing what has the id. -/
theorem modify_map_created {α : Type} (bounded : taken steps .reactor ≤ UInt32.size)
    (mainName : String) (of : ReactorId × String → α) (id : ReactorId) (change : α → α) :
    ((created mainName steps).map of).modify id.number.toNat change =
      (created mainName steps).map fun named =>
        if id = named.1 then change (of named) else of named := by
  refine List.ext_getElem? fun position => ?_
  rw [List.getElem?_modify, List.getElem?_map, List.getElem?_map]
  cases found : (created mainName steps)[position]? with
  | none => rfl
  | some named =>
    have below : position < taken steps .reactor := by
      rw [← length_created mainName]
      exact (List.getElem?_eq_some_iff.mp found).1
    have isPosition : named.1 = idAt position := by
      have atPosition := congrArg (·[position]?) (map_fst_created mainName steps)
      simpa [List.getElem?_map, found, List.getElem?_range below] using atPosition
    have fits := Nat.lt_of_lt_of_le below bounded
    simp only [Option.map_eq_map, Option.map_some, isPosition, eq_idAt_iff fits]

/-- Every step is given a reactor that exists after all of them. -/
def Known (steps : List Step) : Prop :=
  ∀ step ∈ steps, step.reactorId.number.toNat < taken steps .reactor

/-- What a step creates has an id that nothing is declared for yet. -/
theorem unused_of_reactor? (known : Known steps) (bounded : taken steps .reactor < UInt32.size)
    {named : ReactorId × String} (creates : Step.reactor? (step, step.number steps) = some named) :
    named.1 ≠ mainId ∧ ∀ earlier ∈ steps, earlier.reactorId ≠ named.1 := by
  have isNext : named.1 = idAt (taken steps .reactor) := by
    cases step with
    | reactor parent name =>
      cases creates
      rfl
    | _ => contradiction
  rw [eq_idAt_iff bounded] at isNext
  constructor
  · intro isMain
    rw [isMain, taken, if_pos rfl] at isNext
    have zero : mainId.number.toNat = 0 := rfl
    omega
  · intro earlier member same
    have older := known earlier member
    rw [same] at older
    omega

theorem change_of_reactor? {number : Nat} {named : ReactorId × String}
    (creates : Step.reactor? (step, number) = some named) : step.change number = id := by
  cases step with
  | reactor parent name => rfl
  | _ => contradiction

section After

variable (known : Known steps) (bounded : taken steps .reactor < UInt32.size)
  (mainName : String) (step : Step)
include known bounded

theorem slots_after_reached : ((reached mainName steps).after step).slots =
    (reached mainName (steps ++ [step])).slots := by
  rw [after, next_reached]
  simp only [reached, created_snoc, List.map_append]
  cases creates : Step.reactor? (step, step.number steps) with
  | none =>
    rw [Option.toList_none, List.map_nil, List.append_nil]
    by_cases isMain : step.reactorId = mainId
    · rw [if_pos isMain]
      refine List.map_congr_left fun named _ => ?_
      rw [slotAfter_snoc]
      by_cases same : step.reactorId = named.1
      · rw [if_pos same, slotAfter, if_pos (same.symm.trans isMain), Option.map_none]
      · rw [if_neg same]
    · rw [if_neg isMain, modify_map_created (Nat.le_of_lt bounded)]
      exact List.map_congr_left fun named _ => (slotAfter_snoc steps step named).symm
  | some named =>
    obtain ⟨other, unused⟩ := unused_of_reactor? known bounded creates
    have same : slotAfter (steps ++ [step]) = slotAfter steps := by
      funext other
      rw [slotAfter_snoc, change_of_reactor? creates, Option.map_id]
      exact ite_self _
    have fresh : slotAfter steps named = some { id := named.1, name := named.2 } := by
      rw [slotAfter, if_neg other, bodyAfter_of_unused unused]
    rw [same, Option.toList_some, List.map_singleton, fresh]

theorem children_after_reached : ((reached mainName steps).after step).children =
    (reached mainName (steps ++ [step])).children := by
  rw [after, next_reached]
  simp only [reached, childIdsAfter_snoc]
  cases creates : Step.reactor? (step, step.number steps) with
  | none =>
    rw [created_snoc, creates, Option.toList_none, List.append_nil]
    simp
  | some named =>
    obtain ⟨-, unused⟩ := unused_of_reactor? known bounded creates
    have all : (created mainName steps).map (fun other => childIdsAfter steps other.1) ++ [[]] =
        (created mainName (steps ++ [step])).map fun other => childIdsAfter steps other.1 := by
      rw [created_snoc, creates, List.map_append, Option.toList_some, List.map_singleton,
        childIdsAfter_of_unused unused]
    have fits : taken (steps ++ [step]) .reactor ≤ UInt32.size := by
      rw [taken_snoc]
      split <;> omega
    dsimp only
    rw [all, modify_map_created fits]
    refine List.map_congr_left fun other _ => ?_
    by_cases same : step.reactorId = other.1 <;> simp [same]

end After

theorem after_reached (known : Known steps) (bounded : taken steps .reactor < UInt32.size)
    (mainName : String) (step : Step) :
    (reached mainName steps).after step = reached mainName (steps ++ [step]) := by
  have main : ((reached mainName steps).after step).main =
      (reached mainName (steps ++ [step])).main := by
    rw [after, next_reached]
    exact (bodyAfter_snoc steps step (mainId, mainName)).symm
  calc (reached mainName steps).after step
      = { (reached mainName steps).after step with
          main := (reached mainName (steps ++ [step])).main
          slots := (reached mainName (steps ++ [step])).slots
          children := (reached mainName (steps ++ [step])).children } := by
        rw [← main, ← slots_after_reached known bounded, ← children_after_reached known bounded]
    _ = reached mainName (steps ++ [step]) := by
        simp only [after, reached, taken_snoc]

/-! ### Ids of the draft -/

theorem isSome_slot?_reached (mainName : String) (steps : List Step) (id : ReactorId) :
    ((reached mainName steps).slot? id).isSome ↔
      id ≠ mainId ∧ id.number.toNat < taken steps .reactor := by
  rw [slot?, reached, List.getElem?_map]
  by_cases inside : id.number.toNat < taken steps .reactor
  · obtain ⟨name, found⟩ := getElem?_created mainName inside
    rw [found]
    by_cases isMain : id = mainId <;> simp [slotAfter, isMain, inside]
  · rw [List.getElem?_eq_none (by rw [length_created]; omega)]
    simp [inside]

theorem knows_reached (mainName : String) (steps : List Step) (id : ReactorId) :
    (reached mainName steps).knows id ↔ id.number.toNat < taken steps .reactor := by
  rw [knows, Bool.or_eq_true, decide_eq_true_iff, isSome_slot?_reached]
  by_cases isMain : id = mainId
  · simp [isMain, mainId_lt]
  · simp [isMain]

theorem childIds_reached (known : Known steps) (mainName : String) (id : ReactorId) :
    (reached mainName steps).childIds id = childIdsAfter steps id := by
  rw [childIds, reached, List.getElem?_map]
  by_cases inside : id.number.toNat < taken steps .reactor
  · obtain ⟨name, found⟩ := getElem?_created mainName inside
    rw [found]
    rfl
  · have unused : ∀ step ∈ steps, step.reactorId ≠ id := by
      rintro step member rfl
      exact inside (known step member)
    rw [List.getElem?_eq_none (by rw [length_created]; omega), childIdsAfter_of_unused unused]
    rfl

/-! ### Runs -/

/-- Every step after earlier ones is given a reactor that exists by then. -/
def KnownAfter (earlier : List Step) : List Step → Prop
  | [] => True
  | step :: later =>
    step.reactorId.number.toNat < taken earlier .reactor ∧ KnownAfter (earlier ++ [step]) later

theorem Known.snoc (known : Known steps)
    (inside : step.reactorId.number.toNat < taken steps .reactor) : Known (steps ++ [step]) := by
  intro other member
  have more := taken_le_append steps [step] .reactor
  rcases List.mem_append.mp member with earlier | last
  · exact Nat.lt_of_lt_of_le (known other earlier) more
  · rw [List.mem_singleton.mp last]
    exact Nat.lt_of_lt_of_le inside more

theorem KnownAfter.known {earlier later : List Step} (further : KnownAfter earlier later)
    (known : Known earlier) : Known (earlier ++ later) := by
  induction later generalizing earlier with
  | nil => rwa [List.append_nil]
  | cons step later ih =>
    obtain ⟨inside, rest⟩ := further
    rw [List.append_cons]
    exact ih rest (known.snoc inside)

theorem KnownAfter.all (known : KnownAfter [] steps) : Known steps :=
  known.known fun _ member => absurd member List.not_mem_nil

/-- A run that takes all its steps comes to the draft after them, and hands out their numbers. -/
theorem run_reached {earlier later : List Step} {draft : Draft} {handed handedLater : List Handed}
    (known : Known earlier) (bounded : taken (earlier ++ later) .reactor < UInt32.size)
    (ran : (reached mainName earlier).run handed later = (draft, handedLater, none)) :
    KnownAfter earlier later ∧ draft = reached mainName (earlier ++ later) ∧
      handedLater = handed ++ (numberedAfter earlier later).map Step.handed := by
  induction later generalizing earlier handed with
  | nil =>
    cases ran
    exact ⟨trivial, by rw [List.append_nil], by simp [numberedAfter]⟩
  | cons step later ih =>
    rw [List.append_cons] at bounded ⊢
    have boundedNow : taken earlier .reactor < UInt32.size := by
      have more := taken_le_append earlier ([step] ++ later) .reactor
      rw [← List.append_assoc] at more
      omega
    rw [run, apply_eq] at ran
    by_cases inside : (reached mainName earlier).knows step.reactorId
    · rw [if_pos inside, after_reached known boundedNow, next_reached] at ran
      rw [knows_reached] at inside
      obtain ⟨rest, same, numbers⟩ := ih (known.snoc inside) bounded ran
      refine ⟨⟨inside, rest⟩, same, ?_⟩
      rw [numbers, numberedAfter, List.map_cons, List.append_assoc, List.singleton_append]
    · rw [if_neg inside] at ran
      simp at ran

theorem run_start {draft : Draft} {handed : List Handed}
    (bounded : taken steps .reactor < UInt32.size)
    (ran : (start mainName).run [] steps = (draft, handed, none)) :
    KnownAfter [] steps ∧ draft = reached mainName steps ∧
      handed = (numbered steps).map Step.handed := by
  have nothing : Known [] := nofun
  rw [← reached_nil] at ran
  exact run_reached nothing bounded ran

/-- The reactors whose ids have been handed out. The main reactor counts among them. -/
def returned (steps : List Step) (handed : List Handed) : List ReactorId :=
  mainId :: (steps.zip handed).filterMap fun
    | (.reactor _ _, some number) => some ⟨number⟩
    | _ => none

theorem mem_returned_iff (bounded : taken steps .reactor < UInt32.size) {id : ReactorId} :
    id ∈ returned steps ((numbered steps).map Step.handed) ↔
      id.number.toNat < taken steps .reactor := by
  have ids : returned steps ((numbered steps).map Step.handed) =
      (List.range (taken steps .reactor)).map idAt := by
    have pairs : steps.zip ((numbered steps).map Step.handed) =
        (numbered steps).map fun entry => (entry.1, Step.handed entry) := by
      rw [← List.zip_map', map_fst_numbered]
    rw [← map_fst_created "", created, List.map_cons, declared, List.map_filterMap, returned, pairs,
      List.filterMap_map]
    refine congrArg (mainId :: ·) (List.filterMap_congr fun entry _ => ?_)
    obtain ⟨step, number⟩ := entry
    cases step <;> rfl
  rw [ids, mem_map_idAt_iff (Nat.le_of_lt bounded)]

end Draft

end ReactorCausality
