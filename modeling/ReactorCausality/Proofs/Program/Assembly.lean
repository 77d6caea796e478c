import Mathlib.Data.List.Perm.Basic
import ReactorCausality.Program.Draft

/-!
The tree that a draft is assembled into. While reactors are moved out of their slots, one that is
still in its slot has all its children in theirs (`Intact`), since it is the only one that they are
moved out for. So every reactor gets the children that it has in the draft, and all of them are gone
once their parent is (`Assembled`). In the end the tree has every reactor of the draft once
(`perm_finish`).
-/
namespace ReactorCausality

/-- The reactor without its children. -/
def Reactor.bare (reactor : Reactor) : Reactor :=
  { reactor with children := [] }

namespace Draft

variable {origin draft rest : Draft} {id other : ReactorId} {ids : List ReactorId}

/-! ### Moving out -/

theorem number_ne (different : id ≠ other) : id.number.toNat ≠ other.number.toNat := by
  intro same
  exact different (congrArg EntityId.mk (UInt32.toNat_inj.mp same))

@[simp]
theorem slot?_moveOut_self (draft : Draft) (id : ReactorId) :
    (draft.moveOut id).slot? id = none := by
  rw [slot?, moveOut, List.getElem?_set_self']
  cases draft.slots[id.number.toNat]? <;> rfl

theorem slot?_moveOut_of_ne (different : id ≠ other) :
    (draft.moveOut id).slot? other = draft.slot? other := by
  rw [slot?, moveOut, List.getElem?_set_ne (number_ne different), slot?]

theorem childIds_moveOut_of_ne (different : id ≠ other) :
    (draft.moveOut id).childIds other = draft.childIds other := by
  rw [childIds, moveOut, List.getElem?_set_ne (number_ne different), childIds]

theorem ne_of_isSome_moveOut (filled : ((draft.moveOut id).slot? other).isSome) : id ≠ other := by
  rintro rfl
  simp at filled

theorem isSome_of_moveOut (filled : ((draft.moveOut id).slot? other).isSome) :
    (draft.slot? other).isSome := by
  rwa [← slot?_moveOut_of_ne (ne_of_isSome_moveOut filled)]

/-- The reactors in their slots. -/
def inSlots (draft : Draft) : List Reactor :=
  draft.slots.filterMap fun slot => slot

/-- What no two reactors of a draft share. -/
structure Disjoint (origin : Draft) : Prop where
  distinct : ∀ id, (origin.childIds id).Nodup
  parent : ∀ {id parent other}, id ∈ origin.childIds parent → id ∈ origin.childIds other →
    parent = other
  proper : ∀ id, id ∉ origin.childIds id

/-- What is left of a draft is as it was, and no reactor is left without its children. -/
structure Intact (origin draft : Draft) : Prop where
  slot : ∀ {id reactor}, draft.slot? id = some reactor → origin.slot? id = some reactor
  childIds : ∀ {id}, (draft.slot? id).isSome → draft.childIds id = origin.childIds id
  children : ∀ {id}, (draft.slot? id).isSome → ∀ child ∈ origin.childIds id,
    (draft.slot? child).isSome

/-- The reactors are in their slots, and what they are children of is not. -/
structure Ready (origin draft : Draft) (ids : List ReactorId) : Prop
    extends Intact origin draft where
  isSome : ∀ id ∈ ids, (draft.slot? id).isSome
  distinct : ids.Nodup
  orphaned : ∀ id ∈ ids, ∀ parent, (draft.slot? parent).isSome → id ∉ origin.childIds parent

/-- What becomes of a draft when reactors are moved out of it. -/
structure Assembled (origin draft : Draft) (ids : List ReactorId) (trees : List Reactor)
    (rest : Draft) : Prop extends Intact origin rest where
  fewer : ∀ {id}, draft.slot? id = none → rest.slot? id = none
  gone : ∀ id ∈ ids, rest.slot? id = none
  /-- Only the reactors and their descendants are moved out. -/
  only : ∀ {id}, (draft.slot? id).isSome → rest.slot? id = none →
    id ∈ ids ∨ ∃ parent, (draft.slot? parent).isSome ∧ id ∈ origin.childIds parent
  /-- What is moved out takes its children with it. -/
  below : ∀ {id}, (draft.slot? id).isSome → rest.slot? id = none →
    ∀ child ∈ origin.childIds id, rest.slot? child = none
  roots : trees.map (fun tree => some tree.bare) =
    ids.map fun id => (origin.slot? id).map Reactor.bare
  inside : ∀ reactor ∈ Reactor.preorderAll trees, ∃ id body, origin.slot? id = some body ∧
    reactor.bare = body.bare ∧
    (reactor.children.map fun child => some child.bare) =
      (origin.childIds id).map fun child => (origin.slot? child).map Reactor.bare

theorem Ready.moveOut (disjoint : origin.Disjoint) (ready : Ready origin draft (id :: ids)) :
    Ready origin (draft.moveOut id) (draft.childIds id) := by
  have present := ready.isSome id List.mem_cons_self
  constructor
  · constructor
    · intro other reactor found
      have different : id ≠ other := ne_of_isSome_moveOut (by rw [found]; rfl)
      rw [slot?_moveOut_of_ne different] at found
      exact ready.slot found
    · intro other filled
      rw [childIds_moveOut_of_ne (ne_of_isSome_moveOut filled)]
      exact ready.childIds (isSome_of_moveOut filled)
    · intro other filled child isChild
      have different : id ≠ child := by
        rintro rfl
        exact ready.orphaned id List.mem_cons_self other (isSome_of_moveOut filled) isChild
      rw [slot?_moveOut_of_ne different]
      exact ready.children (isSome_of_moveOut filled) child isChild
  · intro child isChild
    rw [ready.childIds present] at isChild
    have different : id ≠ child := by
      rintro rfl
      exact disjoint.proper id isChild
    rw [slot?_moveOut_of_ne different]
    exact ready.children present child isChild
  · rw [ready.childIds present]
    exact disjoint.distinct id
  · intro child isChild parent filled isChildToo
    rw [ready.childIds present] at isChild
    exact ne_of_isSome_moveOut filled (disjoint.parent isChild isChildToo)

theorem isSome_of_fewer (fewer : draft.slot? id = none → rest.slot? id = none)
    (filled : (rest.slot? id).isSome) : (draft.slot? id).isSome := by
  rw [Option.isSome_iff_ne_none] at filled ⊢
  exact fun none => filled (fewer none)

/-- When the children of the first reactor are gone, the others are still there. -/
theorem Ready.others {trees : List Reactor} (ready : Ready origin draft (id :: ids))
    (below : Assembled origin (draft.moveOut id) (draft.childIds id) trees rest) :
    Ready origin rest ids := by
  have present := ready.isSome id List.mem_cons_self
  have older {other : ReactorId} (filled : (rest.slot? other).isSome) :
      (draft.slot? other).isSome :=
    isSome_of_moveOut (isSome_of_fewer below.fewer filled)
  refine ⟨below.toIntact, ?_, (List.nodup_cons.mp ready.distinct).2, ?_⟩
  · intro sibling member
    have different : id ≠ sibling := by
      rintro rfl
      exact (List.nodup_cons.mp ready.distinct).1 member
    have orphaned := ready.orphaned sibling (List.mem_cons_of_mem _ member)
    rw [Option.isSome_iff_ne_none]
    intro gone
    have filled : ((draft.moveOut id).slot? sibling).isSome := by
      rw [slot?_moveOut_of_ne different]
      exact ready.isSome sibling (List.mem_cons_of_mem _ member)
    rcases below.only filled gone with isChild | ⟨parent, filledParent, isChild⟩
    · rw [ready.childIds present] at isChild
      exact orphaned id present isChild
    · exact orphaned parent (isSome_of_moveOut filledParent) isChild
  · intro sibling member parent filled
    exact ready.orphaned sibling (List.mem_cons_of_mem _ member) parent (older filled)

theorem Assembled.cons {reactor : Reactor} {last : Draft} {children others : List Reactor}
    (ready : Ready origin draft (id :: ids)) (found : draft.slot? id = some reactor)
    (below : Assembled origin (draft.moveOut id) (draft.childIds id) children rest)
    (after : Assembled origin rest ids others last) :
    Assembled origin draft (id :: ids) ({ reactor with children } :: others) last := by
  have present := ready.isSome id List.mem_cons_self
  have childIds := ready.childIds present
  have goneSelf : rest.slot? id = none := below.fewer (slot?_moveOut_self draft id)
  -- A reactor that is moved out is the first, or goes with its children, or goes with the others.
  have cases {other : ReactorId} (filled : (draft.slot? other).isSome)
      (gone : last.slot? other = none) : other = id ∨
        ((draft.moveOut id).slot? other).isSome ∧ rest.slot? other = none ∨
        (rest.slot? other).isSome := by
    by_cases same : id = other
    · exact .inl same.symm
    · rw [slot?_moveOut_of_ne same]
      cases still : rest.slot? other with
      | none => exact .inr (.inl ⟨filled, rfl⟩)
      | some _ => exact .inr (.inr rfl)
  refine ⟨after.toIntact, ?_, ?_, ?_, ?_, ?_, ?_⟩
  · intro other gone
    refine after.fewer (below.fewer ?_)
    by_cases same : id = other
    · rw [← same, slot?_moveOut_self]
    · rwa [slot?_moveOut_of_ne same]
  · rintro other (_ | ⟨_, member⟩)
    · exact after.fewer goneSelf
    · exact after.gone other member
  · intro other filled gone
    rcases cases filled gone with rfl | ⟨moved, goneBelow⟩ | still
    · exact .inl List.mem_cons_self
    · rcases below.only moved goneBelow with isChild | ⟨parent, filledParent, isChild⟩
      · exact .inr ⟨id, present, childIds ▸ isChild⟩
      · exact .inr ⟨parent, isSome_of_moveOut filledParent, isChild⟩
    · rcases after.only still gone with member | ⟨parent, filledParent, isChild⟩
      · exact .inl (List.mem_cons_of_mem _ member)
      · exact .inr ⟨parent, isSome_of_moveOut (isSome_of_fewer below.fewer filledParent), isChild⟩
  · intro other filled gone child isChild
    rcases cases filled gone with rfl | ⟨moved, goneBelow⟩ | still
    · exact after.fewer (below.gone child (childIds ▸ isChild))
    · exact after.fewer (below.below moved goneBelow child isChild)
    · exact after.below still gone child isChild
  · rw [List.map_cons, List.map_cons, after.roots, ready.slot found]
    rfl
  · intro inner member
    rw [Reactor.preorderAll, Reactor.preorder_eq, ← Reactor.preorderAll_eq_flatMap,
      List.cons_append, List.mem_cons, List.mem_append] at member
    rcases member with rfl | inside | behind
    · exact ⟨id, reactor, ready.slot found, rfl, childIds ▸ below.roots⟩
    · exact below.inside inner inside
    · exact after.inside inner behind

/-- Assembling reactors whose parents are out moves out them and all that is below them. -/
theorem assembled (disjoint : origin.Disjoint) (draft : Draft) (ids : List ReactorId)
    (ready : Ready origin draft ids) :
    Assembled origin draft ids (draft.assemble ids).1 (draft.assemble ids).2.val := by
  fun_induction assemble draft ids with
  | case1 draft =>
    refine ⟨ready.toIntact, fun none => none, nofun, ?_, ?_, rfl, nofun⟩
    · intro id filled gone
      simp [gone] at filled
    · intro id filled gone
      simp [gone] at filled
  | case2 draft id ids empty ih =>
    have present := ready.isSome id List.mem_cons_self
    simp [empty] at present
  | case3 draft id ids reactor found fewer children rest left isBelow others last leftLast isAfter
      ihBelow ihAfter =>
    have below := ihBelow (ready.moveOut disjoint)
    rw [isBelow] at below
    have after := ihAfter (ready.others below)
    rw [isAfter] at after
    exact Assembled.cons ready found below after

/-! ### Nothing is lost -/

theorem perm_filterMap_set_none {slots : List (Option Reactor)} {position : Nat} {reactor : Reactor}
    (found : slots[position]? = some (some reactor)) :
    (slots.filterMap fun slot => slot).Perm
      (reactor :: (slots.set position none).filterMap fun slot => slot) := by
  induction slots generalizing position with
  | nil => simp at found
  | cons slot slots ih =>
    cases position with
    | zero =>
      obtain rfl : slot = some reactor := by simpa using found
      exact .refl _
    | succ position =>
      have behind : slots[position]? = some (some reactor) := by simpa using found
      rw [List.set_cons_succ, List.filterMap_cons, List.filterMap_cons]
      cases slot with
      | none => exact ih behind
      | some first => exact ((ih behind).cons first).trans (.swap ..)

theorem set_none_eq_self {slots : List (Option Reactor)} {position : Nat}
    (empty : slots[position]?.join = none) : slots.set position none = slots := by
  refine List.ext_getElem? fun other => ?_
  by_cases same : position = other
  · subst same
    rw [List.getElem?_set_self']
    rcases Option.join_eq_none_iff.mp empty with outside | isNone
    · rw [outside]
      rfl
    · rw [isNone]
      rfl
  · rw [List.getElem?_set_ne same]

theorem perm_inSlots_moveOut {reactor : Reactor} (found : draft.slot? id = some reactor) :
    draft.inSlots.Perm (reactor :: (draft.moveOut id).inSlots) :=
  perm_filterMap_set_none (Option.join_eq_some_iff.mp found)

/-- What is not in the trees is still in the slots. -/
theorem perm_assemble (draft : Draft) (ids : List ReactorId) :
    ((Reactor.preorderAll (draft.assemble ids).1 ++ (draft.assemble ids).2.val.inSlots).map
      Reactor.bare).Perm (draft.inSlots.map Reactor.bare) := by
  fun_induction assemble draft ids with
  | case1 draft => exact .refl _
  | case2 draft id ids empty ih => exact ih
  | case3 draft id ids reactor found fewer children rest left isBelow others last leftLast isAfter
      ihBelow ihAfter =>
    rw [isBelow] at ihBelow
    rw [isAfter] at ihAfter
    refine .trans ?_ ((perm_inSlots_moveOut found).map Reactor.bare).symm
    rw [Reactor.preorderAll, Reactor.preorder_eq, ← Reactor.preorderAll_eq_flatMap,
      List.cons_append, List.cons_append, List.append_assoc, List.map_cons]
    simp only [List.map_append] at ihBelow ihAfter ⊢
    exact ((ihAfter.append_left _).trans ihBelow).cons _

theorem length_slots_assemble (draft : Draft) (ids : List ReactorId) :
    (draft.assemble ids).2.val.slots.length = draft.slots.length := by
  fun_induction assemble draft ids with
  | case1 draft => rfl
  | case2 draft id ids empty ih => exact ih
  | case3 draft id ids reactor found fewer children rest left isBelow others last leftLast isAfter
      ihBelow ihAfter =>
    rw [isBelow] at ihBelow
    rw [isAfter] at ihAfter
    exact (ihAfter.trans ihBelow).trans List.length_set

/-! ### The finished program -/

/-- The reactor with an id. -/
def reactor? (draft : Draft) (id : ReactorId) : Option Reactor :=
  if id = mainId then some draft.main else draft.slot? id

/-- A draft whose reactors are all below the main reactor. -/
structure Rooted (draft : Draft) : Prop extends Disjoint draft where
  fits : draft.slots.length ≤ UInt32.size
  mainSlot : draft.slot? mainId = none
  children : ∀ id, draft.knows id → ∀ child ∈ draft.childIds id, (draft.slot? child).isSome
  older : ∀ id, (draft.slot? id).isSome → ∃ parent, draft.knows parent ∧
    id ∈ draft.childIds parent ∧ parent.number.toNat < id.number.toNat

namespace Rooted

variable (rooted : draft.Rooted)
include rooted

theorem ready : Ready draft (draft.moveOut mainId) (draft.childIds mainId) := by
  have knows {id : ReactorId} (filled : (draft.slot? id).isSome) : draft.knows id := by
    simp [Draft.knows, filled]
  have main : draft.knows mainId := by simp [Draft.knows]
  have other {id : ReactorId} (filled : (draft.slot? id).isSome) : mainId ≠ id := by
    rintro rfl
    simp [rooted.mainSlot] at filled
  have same (id : ReactorId) : (draft.moveOut mainId).slot? id = draft.slot? id := by
    by_cases isMain : mainId = id
    · rw [← isMain, slot?_moveOut_self, rooted.mainSlot]
    · exact slot?_moveOut_of_ne isMain
  constructor
  · constructor
    · intro id reactor found
      rwa [same] at found
    · intro id filled
      rw [same] at filled
      exact childIds_moveOut_of_ne (other filled)
    · intro id filled child isChild
      rw [same] at filled ⊢
      exact rooted.children id (knows filled) child isChild
  · intro child isChild
    rw [same]
    exact rooted.children mainId main child isChild
  · exact rooted.distinct mainId
  · intro child isChild parent filled isChildToo
    rw [same] at filled
    exact other filled (rooted.parent isChild isChildToo)

/-- When the main reactor has its children, all slots are empty. -/
theorem all_gone (id : ReactorId) (filled : (draft.slot? id).isSome) :
    ((draft.moveOut mainId).assemble (draft.childIds mainId)).2.val.slot? id = none := by
  have moved := assembled rooted.toDisjoint _ _ rooted.ready
  generalize age : id.number.toNat = number
  induction number using Nat.strongRecOn generalizing id with
  | _ number ih =>
    obtain ⟨parent, knows, isChild, older⟩ := rooted.older id filled
    by_cases isMain : mainId = parent
    · exact moved.gone id (isMain ▸ isChild)
    · have filledParent : (draft.slot? parent).isSome := by
        simpa [Draft.knows, Ne.symm isMain] using knows
      have gone := ih parent.number.toNat (age ▸ older) parent filledParent rfl
      rw [← slot?_moveOut_of_ne isMain] at filledParent
      exact moved.below filledParent gone id isChild

theorem inSlots_eq_nil :
    ((draft.moveOut mainId).assemble (draft.childIds mainId)).2.val.inSlots = [] := by
  rw [inSlots, List.filterMap_eq_nil_iff]
  intro slot member
  obtain ⟨position, found⟩ := List.mem_iff_getElem?.mp member
  cases slot with
  | none => rfl
  | some reactor =>
    have below := (List.getElem?_eq_some_iff.mp found).1
    rw [length_slots_assemble] at below
    have fits : position < UInt32.size := by
      have length : (draft.moveOut mainId).slots.length = draft.slots.length := List.length_set
      have := rooted.fits
      omega
    have number : (UInt32.ofNat position).toNat = position := UInt32.toNat_ofNat_of_lt' fits
    have still : ((draft.moveOut mainId).assemble (draft.childIds mainId)).2.val.slot?
        (idAt position) = some reactor := by
      rw [slot?, idAt, number, found]
      rfl
    have moved := assembled rooted.toDisjoint _ _ rooted.ready
    have before := moved.slot still
    rw [rooted.all_gone (idAt position) (by rw [before]; rfl)] at still
    contradiction

theorem perm_finish : (draft.finish.reactors.map Reactor.bare).Perm
    ((draft.main :: draft.inSlots).map Reactor.bare) := by
  have all := perm_assemble (draft.moveOut mainId) (draft.childIds mainId)
  rw [rooted.inSlots_eq_nil, List.append_nil] at all
  have slots : (draft.moveOut mainId).inSlots = draft.inSlots :=
    congrArg (List.filterMap fun slot => slot) (set_none_eq_self rooted.mainSlot)
  rw [Program.reactors, finish, Reactor.preorder_eq, ← Reactor.preorderAll_eq_flatMap]
  exact (slots ▸ all).cons _

/-- Every reactor of the program has the children that it has in the draft. -/
theorem exists_of_mem_finish {reactor : Reactor} (inside : reactor ∈ draft.finish.reactors) :
    ∃ id body, draft.reactor? id = some body ∧ reactor.bare = body.bare ∧
      (reactor.children.map fun child => some child.bare) =
        (draft.childIds id).map fun child => (draft.slot? child).map Reactor.bare := by
  have moved := assembled rooted.toDisjoint _ _ rooted.ready
  rw [Program.reactors, finish, Reactor.preorder_eq, ← Reactor.preorderAll_eq_flatMap,
    List.mem_cons] at inside
  rcases inside with rfl | below
  · exact ⟨mainId, draft.main, if_pos rfl, rfl, moved.roots⟩
  · obtain ⟨id, body, found, same, children⟩ := moved.inside reactor below
    have other : id ≠ mainId := by
      rintro rfl
      rw [rooted.mainSlot] at found
      contradiction
    exact ⟨id, body, (if_neg other).trans found, same, children⟩

end Rooted

end Draft

end ReactorCausality
