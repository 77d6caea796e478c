import ReactorCausality.Program.Basic

/-!
Drafting a program step by step. A draft hands out ids in the order in which things are declared,
per kind of entity, and the finished program holds every reactor under the parent it was declared
with. A step fails only if it names a reactor that the draft has not handed out.

A reaction is declared as a whole; one that is discarded leaves nothing behind but its id, which
is not handed out again.
-/
namespace ReactorCausality

/-- A step named a reactor that does not belong to the draft. -/
structure UnknownReactor where
  id : ReactorId
  deriving DecidableEq, Repr

def UnknownReactor.message (fault : UnknownReactor) : String :=
  s!"ProgramBuilder: unknown reactor ReactorId({fault.id.text})"

/-- A program in the making. The main reactor stands apart. Every other reactor is in the slot of
its id, and the slot of the main reactor stays empty. -/
structure Draft where
  main : Reactor
  slots : List (Option Reactor)
  /-- The children of every reactor, in the order in which they are declared. -/
  children : List (List ReactorId)
  reactorCount : Nat
  portCount : Nat := 0
  reactionCount : Nat := 0
  connectionCount : Nat := 0
  modeCount : Nat := 0
  deriving Repr

namespace Draft

/-- The id that is handed out when so many of its kind have been. -/
def idAt {kind : Entity} (count : Nat) : EntityId kind :=
  ⟨UInt32.ofNat count⟩

def mainId : ReactorId :=
  idAt 0

def start (mainName : String) : Draft where
  main := { id := mainId, name := mainName }
  slots := [none]
  children := [[]]
  reactorCount := 1

/-- The reactor in the slot of an id. -/
def slot? (draft : Draft) (id : ReactorId) : Option Reactor :=
  draft.slots[id.number.toNat]?.join

def knows (draft : Draft) (id : ReactorId) : Bool :=
  id = mainId || (draft.slot? id).isSome

/-- Changes the reactor with an id. -/
def amend (draft : Draft) (id : ReactorId) (change : Reactor → Reactor) : Draft :=
  if id = mainId then { draft with main := change draft.main }
  else { draft with slots := draft.slots.modify id.number.toNat (Option.map change) }

/-- Changes one reactor of the draft. -/
def modify (draft : Draft) (id : ReactorId) (change : Reactor → Reactor) :
    Except UnknownReactor Draft :=
  if draft.knows id then .ok (draft.amend id change) else .error ⟨id⟩

/-- A reaction as it is declared, before it has an id and an index. -/
structure Declaration where
  triggers : List Trigger := []
  sources : List Trigger := []
  effects : List Trigger := []
  ordering : Ordering := .ordered
  mode : Option ModeId := none
  safeToProcess : Option TimeValue := none
  isDiscarded : Bool := false
  deriving Repr

/-- One step of drafting. -/
inductive Step where
  | reactor (parent : ReactorId) (name : String)
  | port (reactor : ReactorId) (name : String) (direction : Direction)
  | mode (reactor : ReactorId) (name : String) (isInitial : Bool)
  /-- Puts a reactor into a mode of its parent. -/
  | place (child : ReactorId) (mode : ModeId)
  | connect (container : ReactorId) (source target : PortId) (delay : Option TimeValue)
      (isPhysical : Bool)
  | reaction (reactor : ReactorId) (declaration : Declaration)
  deriving Repr

/-- What a step hands out: the number of an id, unless it declares nothing. -/
abbrev Handed := Option UInt32

/-- The draft after a step, and the id that the step hands out. -/
def apply (draft : Draft) : Step → Except UnknownReactor (Draft × Handed)
  | .reactor parent name =>
    if draft.knows parent then
      let id : ReactorId := idAt draft.reactorCount
      let children := (draft.children ++ [[]]).modify parent.number.toNat (· ++ [id])
      .ok ({ draft with
          reactorCount := draft.reactorCount + 1
          slots := draft.slots ++ [some { id := id, name := name }]
          children := children }, some id.number)
    else .error ⟨parent⟩
  | .port reactor name direction => do
    let id : PortId := idAt draft.portCount
    let draft := { draft with portCount := draft.portCount + 1 }
    let draft ← draft.modify reactor fun body =>
      { body with ports := body.ports ++ [⟨id, name, direction⟩] }
    return (draft, some id.number)
  | .mode reactor name isInitial => do
    let id : ModeId := idAt draft.modeCount
    let draft := { draft with modeCount := draft.modeCount + 1 }
    let draft ← draft.modify reactor fun body =>
      { body with modes := body.modes ++ [⟨id, name, isInitial⟩] }
    return (draft, some id.number)
  | .place child mode => do
    let draft ← draft.modify child fun body => { body with mode := some mode }
    return (draft, none)
  | .connect container source target delay isPhysical => do
    let id : ConnectionId := idAt draft.connectionCount
    let draft := { draft with connectionCount := draft.connectionCount + 1 }
    let draft ← draft.modify container fun body =>
      { body with
        connections := body.connections ++ [⟨id, source, target, delay, isPhysical⟩] }
    return (draft, some id.number)
  | .reaction reactor declaration => do
    let id : ReactionId := idAt draft.reactionCount
    let draft := { draft with reactionCount := draft.reactionCount + 1 }
    let draft ← draft.modify reactor fun body =>
      if declaration.isDiscarded then body
      else
        { body with
          reactions := body.reactions ++ [{
            id := id
            index := UInt32.ofNat body.reactions.length
            triggers := declaration.triggers
            sources := declaration.sources
            effects := declaration.effects
            ordering := declaration.ordering
            mode := declaration.mode
            safeToProcess := declaration.safeToProcess }] }
    return (draft, if declaration.isDiscarded then none else some id.number)

/-! ### Finishing -/

/-- How many slots have a reactor. -/
def filled (draft : Draft) : Nat :=
  draft.slots.countP Option.isSome

/-- Leaves the slot of a reactor and the list of its children empty. -/
def moveOut (draft : Draft) (id : ReactorId) : Draft :=
  { draft with
    slots := draft.slots.set id.number.toNat none
    children := draft.children.set id.number.toNat [] }

def childIds (draft : Draft) (id : ReactorId) : List ReactorId :=
  draft.children[id.number.toNat]?.getD []

theorem countP_set_none {slots : List (Option Reactor)} {position : Nat} {reactor : Reactor}
    (found : slots[position]? = some (some reactor)) :
    (slots.set position none).countP Option.isSome < slots.countP Option.isSome := by
  induction slots generalizing position with
  | nil => simp at found
  | cons slot slots ih =>
    cases position with
    | zero => simp_all
    | succ position =>
      have behind : slots[position]? = some (some reactor) := by simpa using found
      have fewer := ih behind
      simpa [List.countP_cons] using fewer

theorem filled_moveOut_lt {draft : Draft} {id : ReactorId} {reactor : Reactor}
    (found : draft.slot? id = some reactor) : (draft.moveOut id).filled < draft.filled :=
  countP_set_none (Option.join_eq_some_iff.mp found)

/-- Moves reactors out of their slots, each with everything below it. Gives them as trees, and the
draft with what is left. -/
def assemble (draft : Draft) :
    List ReactorId → List Reactor × { rest : Draft // rest.filled ≤ draft.filled }
  | [] => ([], ⟨draft, Nat.le_refl _⟩)
  | id :: ids =>
    match found : draft.slot? id with
    | none => draft.assemble ids
    | some reactor =>
      have fewer := filled_moveOut_lt found
      let (children, ⟨rest, left⟩) := (draft.moveOut id).assemble (draft.childIds id)
      let (others, ⟨last, leftLast⟩) := rest.assemble ids
      ({ reactor with children } :: others, ⟨last, by omega⟩)
termination_by ids => (draft.filled, ids.length)

/-- The program that a draft comes to. -/
def finish (draft : Draft) : Program :=
  ⟨{ draft.main with children := ((draft.moveOut mainId).assemble (draft.childIds mainId)).1 }⟩

/-- Takes steps until one fails. Gives the last draft that was reached with the ids handed out, and
the fault if there was one. -/
def run (draft : Draft) (handed : List Handed) :
    List Step → Draft × List Handed × Option UnknownReactor
  | [] => (draft, handed, none)
  | step :: steps =>
    match draft.apply step with
    | .ok (draft, id) => draft.run (handed ++ [id]) steps
    | .error fault => (draft, handed, some fault)

end Draft

end ReactorCausality
