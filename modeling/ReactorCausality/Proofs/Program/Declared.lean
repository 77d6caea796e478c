import Mathlib.Data.List.Nodup
import Mathlib.Data.List.Perm.Basic
import ReactorCausality.Program.Draft

/-!
What the steps of a draft declare, read off the steps alone. Every kind of entity counts its ids on
its own, and a step takes the number that the steps in front of it have come to (`numbered`). A
reaction that is discarded takes a number too, but declares nothing.
-/
namespace ReactorCausality

namespace Draft

/-! ### Ids -/

theorem number_idAt {kind : Entity} {position : Nat} (fits : position < UInt32.size) :
    (idAt position : EntityId kind).number.toNat = position :=
  UInt32.toNat_ofNat_of_lt' fits

theorem eq_idAt_iff {kind : Entity} {id : EntityId kind} {position : Nat}
    (fits : position < UInt32.size) : id = idAt position ↔ id.number.toNat = position := by
  constructor
  · rintro rfl
    exact number_idAt fits
  · rintro rfl
    simp [idAt]

theorem map_number_idAt {kind : Entity} {count : Nat} (fits : count ≤ UInt32.size) :
    ((List.range count).map fun position => (idAt position : EntityId kind).number.toNat) =
      List.range count := by
  refine (List.map_congr_left fun position below => ?_).trans (List.map_id _)
  exact number_idAt (Nat.lt_of_lt_of_le (List.mem_range.mp below) fits)

theorem nodup_map_idAt {kind : Entity} {count : Nat} (fits : count ≤ UInt32.size) :
    ((List.range count).map fun position => (idAt position : EntityId kind)).Nodup := by
  have numbers : ((List.range count).map fun position =>
      (idAt position : EntityId kind).number.toNat).Nodup := by
    rw [map_number_idAt fits]
    exact List.nodup_range
  exact List.Nodup.of_map (fun id => id.number.toNat) (by rwa [List.map_map])

theorem mem_map_idAt_iff {kind : Entity} {id : EntityId kind} {count : Nat}
    (fits : count ≤ UInt32.size) : id ∈ (List.range count).map idAt ↔ id.number.toNat < count := by
  rw [List.mem_map]
  constructor
  · rintro ⟨position, below, rfl⟩
    rw [List.mem_range] at below
    rwa [number_idAt (by omega)]
  · intro below
    exact ⟨id.number.toNat, List.mem_range.mpr below, ((eq_idAt_iff (by omega)).mpr rfl).symm⟩

theorem perm_numbers_of_perm_ids {α : Type} {kind : Entity} {items : List α}
    {id : α → EntityId kind} {count : Nat} (fits : count ≤ UInt32.size)
    (perm : (items.map id).Perm ((List.range count).map idAt)) :
    (items.map fun item => (id item).number.toNat).Perm (List.range count) := by
  have numbers := perm.map fun id => id.number.toNat
  rw [List.map_map, List.map_map] at numbers
  exact numbers.trans (.of_eq (map_number_idAt fits))

/-! ### Steps and their numbers -/

/-- The reaction that a declaration stands for at a position of its reactor. -/
def Declaration.reaction (declaration : Declaration) (id : ReactionId) (position : Nat) :
    Reaction where
  id := id
  index := UInt32.ofNat position
  triggers := declaration.triggers
  sources := declaration.sources
  effects := declaration.effects
  ordering := declaration.ordering
  mode := declaration.mode
  safeToProcess := declaration.safeToProcess

namespace Step

/-- The reactor that a step is given. -/
def reactorId : Step → ReactorId
  | .reactor parent _ => parent
  | .port owner _ _ => owner
  | .mode owner _ _ => owner
  | .place child _ => child
  | .connect container _ _ _ _ => container
  | .reaction owner _ => owner

/-- The kind of the id that a step takes, unless it takes none. -/
def kind? : Step → Option Entity
  | .reactor .. => some .reactor
  | .port .. => some .port
  | .mode .. => some .mode
  | .place .. => none
  | .connect .. => some .connection
  | .reaction .. => some .reaction

end Step

/-- How many ids of a kind are taken after some steps. The main reactor has one from the start. -/
def taken (steps : List Step) (kind : Entity) : Nat :=
  (if kind = .reactor then 1 else 0) + steps.countP fun step => step.kind? = some kind

/-- The number that a step takes after others. -/
def Step.number (earlier : List Step) (step : Step) : Nat :=
  match step.kind? with
  | some kind => taken earlier kind
  | none => 0

/-- Steps with the numbers that they take after earlier ones. -/
def numberedAfter (earlier : List Step) : List Step → List (Step × Nat)
  | [] => []
  | step :: later => (step, step.number earlier) :: numberedAfter (earlier ++ [step]) later

def numbered (steps : List Step) : List (Step × Nat) :=
  numberedAfter [] steps

/-! ### What a step declares -/

namespace Step

def reactor? : Step × Nat → Option (ReactorId × String)
  | (.reactor _ name, number) => some (idAt number, name)
  | _ => none

def port? : Step × Nat → Option Port
  | (.port _ name direction, number) => some ⟨idAt number, name, direction⟩
  | _ => none

def mode? : Step × Nat → Option Mode
  | (.mode _ name isInitial, number) => some ⟨idAt number, name, isInitial⟩
  | _ => none

def placement? : Step × Nat → Option ModeId
  | (.place _ target, _) => some target
  | _ => none

def connection? : Step × Nat → Option Connection
  | (.connect _ source target delay isPhysical, number) =>
    some ⟨idAt number, source, target, delay, isPhysical⟩
  | _ => none

def reaction? : Step × Nat → Option (ReactionId × Declaration)
  | (.reaction _ declaration, number) =>
    if declaration.isDiscarded then none else some (idAt number, declaration)
  | _ => none

/-- What a step hands out if it takes a number. -/
def handed : Step × Nat → Handed
  | (.place _ _, _) => none
  | (.reaction _ declaration, number) =>
    if declaration.isDiscarded then none else some (UInt32.ofNat number)
  | (_, number) => some (UInt32.ofNat number)

end Step

section Declared

variable {α : Type}

/-- All that steps declare, in their order. -/
def declared (what : Step × Nat → Option α) (steps : List Step) : List α :=
  (numbered steps).filterMap what

/-- What steps declare for one reactor, in their order. -/
def declaredOn (what : Step × Nat → Option α) (steps : List Step) (id : ReactorId) : List α :=
  ((numbered steps).filter fun entry => entry.1.reactorId = id).filterMap what

end Declared

/-- The main reactor and every reactor that steps create, with their names. -/
def created (mainName : String) (steps : List Step) : List (ReactorId × String) :=
  (mainId, mainName) :: declared Step.reactor? steps

/-- What becomes of a reactor over some steps, without its children. -/
def bodyAfter (steps : List Step) (named : ReactorId × String) : Reactor where
  id := named.1
  name := named.2
  ports := declaredOn Step.port? steps named.1
  reactions := (declaredOn Step.reaction? steps named.1).mapIdx fun position entry =>
    entry.2.reaction entry.1 position
  connections := declaredOn Step.connection? steps named.1
  modes := declaredOn Step.mode? steps named.1
  mode := (declaredOn Step.placement? steps named.1).getLast?

/-! ### Numbers -/

theorem taken_nil (kind : Entity) : taken [] kind = if kind = .reactor then 1 else 0 := by
  simp [taken]

theorem taken_append (steps later : List Step) (kind : Entity) :
    taken (steps ++ later) kind =
      taken steps kind + later.countP fun step => step.kind? = some kind := by
  rw [taken, taken, List.countP_append, Nat.add_assoc]

theorem taken_snoc (steps : List Step) (step : Step) (kind : Entity) :
    taken (steps ++ [step]) kind = taken steps kind + if step.kind? = some kind then 1 else 0 := by
  rw [taken_append, List.countP_singleton]
  simp only [decide_eq_true_eq]

theorem taken_le_append (steps later : List Step) (kind : Entity) :
    taken steps kind ≤ taken (steps ++ later) kind := by
  rw [taken_append]
  exact Nat.le_add_right _ _

theorem numberedAfter_snoc (earlier steps : List Step) (step : Step) :
    numberedAfter earlier (steps ++ [step]) =
      numberedAfter earlier steps ++ [(step, step.number (earlier ++ steps))] := by
  induction steps generalizing earlier with
  | nil => simp [numberedAfter]
  | cons first rest ih =>
    rw [List.cons_append, numberedAfter, numberedAfter, ih, List.append_assoc, List.cons_append]
    rfl

theorem numbered_snoc (steps : List Step) (step : Step) :
    numbered (steps ++ [step]) = numbered steps ++ [(step, step.number steps)] :=
  numberedAfter_snoc [] steps step

theorem map_fst_numberedAfter (earlier steps : List Step) :
    (numberedAfter earlier steps).map Prod.fst = steps := by
  induction steps generalizing earlier with
  | nil => rfl
  | cons step later ih => rw [numberedAfter, List.map_cons, ih]

theorem map_fst_numbered (steps : List Step) : (numbered steps).map Prod.fst = steps :=
  map_fst_numberedAfter [] steps

/-- The number of a step if the step takes an id of the kind. -/
def numberOf? (kind : Entity) (entry : Step × Nat) : Option Nat :=
  if entry.1.kind? = some kind then some entry.2 else none

/-- The steps of one kind take the numbers one after the other. -/
theorem filterMap_numberOf? (earlier steps : List Step) (kind : Entity) :
    (numberedAfter earlier steps).filterMap (numberOf? kind) =
      List.range' (taken earlier kind) (steps.countP fun step => step.kind? = some kind) := by
  induction steps generalizing earlier with
  | nil => rfl
  | cons step later ih =>
    rw [numberedAfter, List.filterMap_cons, ih, taken_snoc, List.countP_cons, numberOf?]
    by_cases isKind : step.kind? = some kind
    · simp [isKind, Step.number, List.range'_succ]
    · simp [isKind]

theorem filterMap_sublist {α β : Type} {some? all? : α → Option β}
    (agree : ∀ item value, some? item = some value → all? item = some value) (items : List α) :
    (items.filterMap some?).Sublist (items.filterMap all?) := by
  induction items with
  | nil => exact .refl _
  | cons item rest ih =>
    cases found : some? item with
    | some value =>
      rw [List.filterMap_cons_some found, List.filterMap_cons_some (agree item value found)]
      exact ih.cons_cons value
    | none =>
      rw [List.filterMap_cons_none found, List.filterMap_cons]
      split
      · exact ih
      · exact ih.cons _

section Ids

variable {α : Type} {kind : Entity} {what : Step × Nat → Option α} {id : α → EntityId kind}

/-- What every step of a kind declares has the numbers of the kind one after the other. -/
theorem map_id_declared
    (numbers : ∀ entry, (what entry).map id = (numberOf? kind entry).map idAt) (steps : List Step) :
    (declared what steps).map id =
      (List.range' (taken [] kind) (steps.countP fun step => step.kind? = some kind)).map idAt := by
  rw [declared, List.map_filterMap, List.filterMap_congr fun entry _ => numbers entry,
    ← List.map_filterMap, numbered, filterMap_numberOf?]

/-- What only some steps of a kind declare has some of the numbers, in their order. -/
theorem map_id_declared_sublist
    (numbers : ∀ entry declared, (what entry).map id = some declared →
      (numberOf? kind entry).map idAt = some declared) (steps : List Step) :
    ((declared what steps).map id).Sublist
      ((List.range' (taken [] kind)
        (steps.countP fun step => step.kind? = some kind)).map idAt) := by
  rw [declared, List.map_filterMap, ← filterMap_numberOf?, List.map_filterMap]
  exact filterMap_sublist numbers _

end Ids

theorem reactor?_map_fst (entry : Step × Nat) :
    (Step.reactor? entry).map Prod.fst = (numberOf? .reactor entry).map idAt := by
  obtain ⟨step, number⟩ := entry
  cases step <;> rfl

theorem port?_map_id (entry : Step × Nat) :
    (Step.port? entry).map Port.id = (numberOf? .port entry).map idAt := by
  obtain ⟨step, number⟩ := entry
  cases step <;> rfl

theorem mode?_map_id (entry : Step × Nat) :
    (Step.mode? entry).map Mode.id = (numberOf? .mode entry).map idAt := by
  obtain ⟨step, number⟩ := entry
  cases step <;> rfl

theorem connection?_map_id (entry : Step × Nat) :
    (Step.connection? entry).map Connection.id = (numberOf? .connection entry).map idAt := by
  obtain ⟨step, number⟩ := entry
  cases step <;> rfl

/-- The ids of the created reactors are those of their positions. -/
theorem map_fst_created (mainName : String) (steps : List Step) :
    (created mainName steps).map Prod.fst = (List.range (taken steps .reactor)).map idAt := by
  rw [created, List.map_cons, map_id_declared reactor?_map_fst, taken_nil, if_pos rfl, taken,
    if_pos rfl, List.range_eq_range', Nat.add_comm, List.range'_succ, List.map_cons]
  rfl

/-- Built reactions have some of the numbers that reactions have taken. -/
theorem reactionIds_sublist (steps : List Step) :
    ((declared Step.reaction? steps).map Prod.fst).Sublist
      ((List.range (taken steps .reaction)).map idAt) := by
  have numbers : ∀ entry id, (Step.reaction? entry).map Prod.fst = some id →
      (numberOf? .reaction entry).map idAt = some id := by
    rintro ⟨step, number⟩ id found
    cases step with
    | reaction owner declaration =>
      by_cases isDiscarded : declaration.isDiscarded <;>
        simp_all [Step.reaction?, numberOf?, Step.kind?]
    | _ => cases found
  have sublist := map_id_declared_sublist numbers steps
  rw [taken_nil, if_neg nofun, ← List.range_eq_range'] at sublist
  rwa [taken, if_neg nofun, Nat.zero_add]

/-! ### Reactor by reactor -/

/-- Entries put together key by key. -/
theorem perm_flatMap_filter {α β : Type} [DecidableEq β] (key : α → β) (entries : List α)
    {keys : List β} (distinct : keys.Nodup) :
    (keys.flatMap fun wanted => entries.filter fun entry => key entry = wanted).Perm
      (entries.filter fun entry => key entry ∈ keys) := by
  induction keys with
  | nil => simp
  | cons first keys ih =>
    obtain ⟨fresh, distinctRest⟩ := List.nodup_cons.mp distinct
    have split := List.filter_append_perm (fun entry => decide (key entry = first))
      (entries.filter fun entry => key entry ∈ first :: keys)
    rw [List.filter_filter, List.filter_filter] at split
    have ofFirst : entries.filter (fun entry =>
          decide (key entry = first) && decide (key entry ∈ first :: keys)) =
        entries.filter fun entry => key entry = first :=
      List.filter_congr fun entry _ => by
        by_cases same : key entry = first <;> simp [same]
    have ofOthers : entries.filter (fun entry =>
          !decide (key entry = first) && decide (key entry ∈ first :: keys)) =
        entries.filter fun entry => key entry ∈ keys :=
      List.filter_congr fun entry _ => by
        by_cases same : key entry = first
        · simp [same, fresh]
        · simp [same]
    rw [ofFirst, ofOthers] at split
    exact ((ih distinctRest).append_left _).trans split

section Declared

variable {α : Type} (what : Step × Nat → Option α) {steps : List Step}

theorem declaredOn_snoc (steps : List Step) (step : Step) (id : ReactorId) :
    declaredOn what (steps ++ [step]) id =
      declaredOn what steps id ++
        if step.reactorId = id then (what (step, step.number steps)).toList else [] := by
  rw [declaredOn, numbered_snoc, List.filter_append, List.filterMap_append]
  refine congrArg (_ ++ ·) ?_
  by_cases same : step.reactorId = id
  · rw [List.filter_cons_of_pos (by simpa using same), List.filter_nil, if_pos same]
    cases declares : what (step, step.number steps) <;> simp [declares]
  · rw [List.filter_cons_of_neg (by simpa using same), List.filter_nil, if_neg same]
    rfl

theorem declaredOn_eq_nil {id : ReactorId} (unused : ∀ step ∈ steps, step.reactorId ≠ id) :
    declaredOn what steps id = [] := by
  rw [← map_fst_numbered steps, List.forall_mem_map] at unused
  rw [declaredOn, List.filter_eq_nil_iff.mpr (by simpa using unused), List.filterMap_nil]

theorem declaredOn_sublist (steps : List Step) (id : ReactorId) :
    (declaredOn what steps id).Sublist (declared what steps) :=
  List.filter_sublist.filterMap what

/-- What is declared for all reactors together is all that is declared. -/
theorem flatMap_declaredOn_perm {ids : List ReactorId} (distinct : ids.Nodup)
    (known : ∀ step ∈ steps, step.reactorId ∈ ids) :
    (ids.flatMap (declaredOn what steps)).Perm (declared what steps) := by
  have all : (numbered steps).filter (fun entry => entry.1.reactorId ∈ ids) = numbered steps := by
    rw [← map_fst_numbered steps, List.forall_mem_map] at known
    exact List.filter_eq_self.mpr (by simpa using known)
  have together := perm_flatMap_filter (fun entry : Step × Nat => entry.1.reactorId)
    (numbered steps) distinct
  rw [all] at together
  have parts : ids.flatMap (declaredOn what steps) = (ids.flatMap fun id =>
      (numbered steps).filter fun entry => entry.1.reactorId = id).filterMap what :=
    (List.filterMap_flatMap ..).symm
  rw [parts]
  exact together.filterMap what

end Declared

end Draft

end ReactorCausality
