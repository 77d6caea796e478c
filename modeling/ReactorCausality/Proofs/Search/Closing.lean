import ReactorCausality.Proofs.Search.DepthFirst

/-!
How a search for components leaves a vertex. Where no smaller number has been found behind the vertex,
what lies above it on the stack is a component, and no edge from there leads to a vertex that is still
open (`Invariant.closed_of_isLeast`, `Invariant.close`). Otherwise what was met behind the vertex is left
to the one before it on the way (`Invariant.merge`).
-/
namespace ReactorCausality

namespace Component

open BreadthFirst Relation

namespace Search

variable {count : Nat} {next : Nat → List Nat} {search : Search} {vertex : Nat}

theorem splitBehind_eq {stack : List Nat} (member : vertex ∈ stack) : ∃ above below,
    stack = above ++ vertex :: below ∧ splitBehind vertex stack = (above ++ [vertex], below) := by
  induction stack with
  | nil => simp at member
  | cons first rest ih =>
    rw [splitBehind]
    split
    · next same => exact ⟨[], rest, by simp [same], by simp [same]⟩
    · next differs =>
      obtain ⟨above, below, rest_eq, split⟩ :=
        ih ((List.mem_cons.mp member).resolve_left (Ne.symm differs))
      exact ⟨first :: above, below, by simp [rest_eq], by simp [split]⟩

theorem isOpen_foldl_iff {members : List Nat} {isOpen : Array Bool} {other : Nat} :
    (members.foldl (fun isOpen member => isOpen.setIfInBounds member false) isOpen).getD other false =
      true ↔ isOpen.getD other false = true ∧ other ∉ members := by
  induction members generalizing isOpen with
  | nil => simp
  | cons first rest ih =>
    rw [List.foldl_cons, ih]
    simp only [Array.getD_eq_getD_getElem?, Array.getElem?_setIfInBounds]
    grind

theorem size_foldl {members : List Nat} {isOpen : Array Bool} :
    (members.foldl (fun isOpen member => isOpen.setIfInBounds member false) isOpen).size =
      isOpen.size := by
  induction members generalizing isOpen with
  | nil => rfl
  | cons first rest ih => rw [List.foldl_cons, ih, Array.size_setIfInBounds]

namespace Invariant

variable (inv : Invariant count next search)
include inv

/-- The stack is split into what was met from an open vertex on and what was met before. -/
theorem exists_splitBehind {vertex : Nat} (isOpen : vertex ∈ search.stack) : ∃ members behind,
    splitBehind vertex search.stack = (members, behind) ∧
      members.Sublist search.stack ∧ behind.Sublist search.stack ∧
      (∀ other, other ∈ members ↔
        other ∈ search.stack ∧ search.number vertex ≤ search.number other) ∧
      ∀ other, other ∈ behind ↔
        other ∈ search.stack ∧ search.number other < search.number vertex := by
  obtain ⟨above, behind, stack_eq, split_eq⟩ := splitBehind_eq isOpen
  have descending := inv.descending
  rw [stack_eq] at descending
  obtain ⟨-, sortedBehind, cross⟩ := List.pairwise_append.mp descending
  have isLater (other : Nat) (isAbove : other ∈ above) : search.number vertex < search.number other :=
    cross other isAbove vertex List.mem_cons_self
  have isEarlier (other : Nat) (isBehind : other ∈ behind) :
      search.number other < search.number vertex := List.rel_of_pairwise_cons sortedBehind isBehind
  refine ⟨above ++ [vertex], behind, split_eq, by simp [stack_eq], by simp [stack_eq],
    fun other => ?_, fun other => ?_⟩
  · rw [stack_eq, List.mem_append, List.mem_append, List.mem_singleton, List.mem_cons]
    grind
  · rw [stack_eq, List.mem_append, List.mem_cons]
    grind

/-! ### Leaving a vertex -/

section Leave

variable {vertex : Nat} {below : List Frame} (onWay : search.frames = ⟨vertex, []⟩ :: below)
include onWay

omit inv in
theorem way_of_frames : search.way = vertex :: below.map Frame.vertex := by
  simp [way, onWay]

omit inv in
theorem mem_way_of_frames : vertex ∈ search.way :=
  way_of_frames onWay ▸ List.mem_cons_self

omit inv in
theorem mem_way_of_mem_below {other : Nat} (isEarlier : other ∈ below.map Frame.vertex) :
    other ∈ search.way :=
  way_of_frames onWay ▸ List.mem_cons_of_mem _ isEarlier

omit inv in
theorem eq_or_mem_below {other : Nat} (isOther : other ∈ search.way) :
    other = vertex ∨ other ∈ below.map Frame.vertex :=
  List.mem_cons.mp (way_of_frames onWay ▸ isOther)

omit inv in
/-- No edge from the last vertex of the way is still to be followed. -/
theorem isPending_iff_of_frames {source target : Nat} :
    search.IsPending source target ↔
      ({ search with frames := below } : Search).IsPending source target := by
  simp [IsPending, onWay]

theorem nested_below : (below.map Frame.vertex).Pairwise fun later earlier =>
    search.number earlier < search.number later :=
  (way_of_frames onWay ▸ inv.nested).tail

theorem number_lt_of_mem_below {other : Nat} (isEarlier : other ∈ below.map Frame.vertex) :
    search.number other < search.number vertex := by
  have nested := inv.nested
  rw [way_of_frames onWay] at nested
  exact List.rel_of_pairwise_cons nested isEarlier

theorem mem_stack_of_frames : vertex ∈ search.stack :=
  inv.onStack vertex (mem_way_of_frames onWay)

theorem isEdge_below (source target : Nat)
    (pending : ({ search with frames := below } : Search).IsPending source target) :
    target ∈ next source :=
  inv.isEdge source target ((isPending_iff_of_frames onWay).mpr pending)

theorem followed_below (source : Nat) (isMet : search.IsMet source) (target : Nat)
    (leads : Leads next (List.range count) source target) :
    search.IsMet target ∨ ({ search with frames := below } : Search).IsPending source target :=
  (inv.followed source isMet target leads).imp_right (isPending_iff_of_frames onWay).mp

/-- What was met after the last vertex of the way lies behind that. -/
theorem liesBehind_of_le {other : Nat} (isOpen : other ∈ search.stack)
    (after : search.number vertex ≤ search.number other) : search.LiesBehind vertex other := by
  refine ⟨isOpen, after, fun third isThird _ => ?_⟩
  rcases eq_or_mem_below onWay isThird with rfl | isEarlier
  · exact Nat.le_refl _
  · exact Nat.le_of_lt (inv.number_lt_of_mem_below onWay isEarlier)

/-- A vertex behind which a smaller number was found is left open. It is not the first of the way, and
the vertex before it takes over what lies behind it. -/
theorem merge (isLess : search.low vertex < search.number vertex)
    (passed : ∀ parent earlier, below = parent :: earlier →
      search.low parent.vertex ≤ search.low vertex) :
    Invariant count next { search with frames := below } := by
  have onWayToo {other : Nat} : other ∈ below.map Frame.vertex → other ∈ search.way :=
    mem_way_of_mem_below onWay
  -- What is found behind the vertex returns to a vertex that is earlier on the way.
  obtain ⟨ahead, isAhead, ahead_lt, back⟩ : ∃ ahead ∈ below.map Frame.vertex,
      search.number ahead < search.number vertex ∧ Reaches count next vertex ahead := by
    obtain ⟨other, isOpen, number_eq, there⟩ := inv.found vertex (mem_way_of_frames onWay)
    obtain ⟨ahead, isAhead, before, back⟩ := inv.returns other isOpen
    have ahead_lt : search.number ahead < search.number vertex :=
      Nat.lt_of_le_of_lt (number_eq ▸ before) isLess
    have isEarlier := (eq_or_mem_below onWay isAhead).resolve_left fun same =>
      Nat.lt_irrefl _ (same ▸ ahead_lt)
    exact ⟨ahead, isEarlier, ahead_lt, there.trans back⟩
  exact { inv with
    onStack := fun other isOther => inv.onStack other (onWayToo isOther)
    nested := inv.nested_below onWay
    isEdge := inv.isEdge_below onWay
    followed := inv.followed_below onWay
    reaches := fun other isOther => inv.reaches other (onWayToo isOther)
    returns := fun other isOpen => by
      obtain ⟨third, isThird, before, there⟩ := inv.returns other isOpen
      rcases eq_or_mem_below onWay isThird with rfl | isEarlier
      · exact ⟨ahead, isAhead, ahead_lt.le.trans before, there.trans back⟩
      · exact ⟨third, isEarlier, before, there⟩
    low_le := fun other isOther => inv.low_le other (onWayToo isOther)
    found := fun other isOther => inv.found other (onWayToo isOther)
    least := fun other isOther source behind target isTarget leads => by
      rw [← isPending_iff_of_frames onWay]
      by_cases isLater : search.number vertex ≤ search.number source
      · -- The source is taken over by the last vertex that is still on the way.
        have isLast : search.low other ≤ search.low vertex := by
          cases below with
          | nil => exact absurd isOther List.not_mem_nil
          | cons parent earlier =>
            have parent_lt := inv.number_lt_of_mem_below onWay List.mem_cons_self
            have parent_le : search.number parent.vertex ≤ search.number other :=
              behind.latest parent.vertex List.mem_cons_self (parent_lt.le.trans isLater)
            rcases List.mem_cons.mp isOther with rfl | isEarlier
            · exact passed parent earlier rfl
            · have before := List.rel_of_pairwise_cons (inv.nested_below onWay) isEarlier
              exact absurd parent_le (Nat.not_le_of_lt before)
        have behind := inv.liesBehind_of_le onWay behind.isOpen isLater
        exact (inv.least vertex (mem_way_of_frames onWay) source behind target isTarget
          leads).imp_left isLast.trans
      · refine inv.least other (onWayToo isOther) source ⟨behind.isOpen, behind.after, ?_⟩ target
          isTarget leads
        intro third isThird before
        rcases eq_or_mem_below onWay isThird with rfl | isEarlier
        · exact absurd before isLater
        · exact behind.latest third isEarlier before }

/-- Every open vertex that was met after the last of the way reaches back to it. -/
theorem reaches_of_le {other : Nat} (isOpen : other ∈ search.stack) :
    Reaches count next other vertex := by
  obtain ⟨ahead, isAhead, -, back⟩ := inv.returns other isOpen
  refine back.trans (inv.reaches ahead isAhead vertex (inv.mem_stack_of_frames onWay) ?_)
  rcases eq_or_mem_below onWay isAhead with rfl | isEarlier
  · exact Nat.le_refl _
  · exact (inv.number_lt_of_mem_below onWay isEarlier).le

/-- Where no smaller number was found behind the last vertex of the way, no edge leads further down the
stack. -/
theorem closed_of_isLeast (isLeast : search.low vertex = search.number vertex) {source target : Nat}
    (isOpen : source ∈ search.stack) (after : search.number vertex ≤ search.number source)
    (leads : Leads next (List.range count) source target) :
    target ∈ search.stack ∧ search.number vertex ≤ search.number target ∨
      target ∈ search.components.flatten := by
  have notPending : ¬ search.IsPending source target := by
    rintro ⟨frame, isFrame, rfl, follows⟩
    rw [onWay] at isFrame
    rcases List.mem_cons.mp isFrame with rfl | isEarlier
    · exact List.not_mem_nil follows
    · exact Nat.not_lt_of_le after
        (inv.number_lt_of_mem_below onWay (List.mem_map_of_mem isEarlier))
  have isMet : search.IsMet target :=
    (inv.followed source (inv.isMet_of_mem isOpen) target leads).resolve_right notPending
  refine ((inv.isMet target).mp isMet).imp_left fun isTarget => ⟨isTarget, ?_⟩
  have behind := inv.liesBehind_of_le onWay isOpen after
  exact isLeast ▸ (inv.least vertex (mem_way_of_frames onWay) source behind target isTarget
    leads).resolve_right notPending

/-- What was met from the last vertex of the way on is a component then. -/
theorem listed_cons (isLeast : search.low vertex = search.number vertex) {members : List Nat}
    (ascending : members.Pairwise (· < ·)) (exactly : ∀ other, other ∈ members ↔
      other ∈ search.stack ∧ search.number vertex ≤ search.number other) :
    Listed count next (members :: search.components) := by
  have closed (source : Nat) (isMember : source ∈ members) (target : Nat)
      (leads : Leads next (List.range count) source target) :
      target ∈ members ∨ target ∈ search.components.flatten := by
    obtain ⟨isOpen, after⟩ := (exactly source).mp isMember
    rw [exactly]
    exact inv.closed_of_isLeast onWay isLeast isOpen after leads
  have isNew (other : Nat) (isMember : other ∈ members) : other ∉ search.components.flatten :=
    inv.apart other ((exactly other).mp isMember).1
  refine .cons inv.listed ⟨ascending, ?_, fun one isMember other => ?_⟩ isNew closed
  · exact List.ne_nil_of_mem ((exactly vertex).mpr ⟨inv.mem_stack_of_frames onWay, Nat.le_refl _⟩)
  · have isOne := (exactly one).mp isMember
    have back {third : Nat} (isThird : third ∈ members) : Reaches count next third vertex :=
      inv.reaches_of_le onWay ((exactly third).mp isThird).1
    have there {third : Nat} (isThird : third ∈ members) : Reaches count next vertex third :=
      inv.reaches vertex (mem_way_of_frames onWay) third
        ((exactly third).mp isThird).1 ((exactly third).mp isThird).2
    constructor
    · intro isOther
      have isMet : search.IsMet other := inv.isMet_of_mem ((exactly other).mp isOther).1
      exact ⟨inv.lt_of_isMet isMet, (back isMember).trans (there isOther),
        (back isOther).trans (there isMember)⟩
    · rintro ⟨-, leads, leadsBack⟩
      have inside : other ∈ members ∨ other ∈ search.components.flatten := by
        clear leadsBack
        induction leads with
        | refl => exact .inl isMember
        | tail _ leads ih =>
          rcases ih with inside | isListed
          · exact closed _ inside _ leads
          · exact .inr (inv.listed.mem_flatten_of_leads leads isListed)
      refine inside.resolve_right fun isListed => isNew one isMember ?_
      exact inv.listed.mem_flatten_of_reaches leadsBack isListed

/-- A vertex behind which no smaller number was found is the first of a component, which is closed. -/
theorem close (isLeast : search.low vertex = search.number vertex) :
    Invariant count next ({ search with frames := below }.close vertex) := by
  obtain ⟨members, behind, split_eq, isSublist, isSublistToo, isMember, isBehind⟩ :=
    inv.exists_splitBehind (inv.mem_stack_of_frames onWay)
  have onWayToo {other : Nat} : other ∈ below.map Frame.vertex → other ∈ search.way :=
    mem_way_of_mem_below onWay
  have isEarlier {other third : Nat} (isThird : third ∈ behind) (isOther : other ∈ search.way)
      (before : search.number other ≤ search.number third) : other ∈ below.map Frame.vertex := by
    refine (eq_or_mem_below onWay isOther).resolve_left fun same => ?_
    exact Nat.not_lt_of_le (same ▸ before) ((isBehind third).mp isThird).2
  have close_eq : ({ search with frames := below } : Search).close vertex =
      { search with
        frames := below
        isOpen := members.foldl (fun isOpen member => isOpen.setIfInBounds member false) search.isOpen
        stack := behind
        components := members.mergeSort :: search.components } := by
    simp only [Search.close, split_eq]
  rw [close_eq]
  exact {
    sizes := ⟨inv.sizes.1, inv.sizes.2.1, size_foldl.trans inv.sizes.2.2⟩
    isOpen := fun other => by
      rw [isOpen_foldl_iff, inv.isOpen, isMember, isBehind, not_and, Nat.not_le]
      exact and_congr_right fun isOpen => forall_prop_of_true isOpen
    isMet := fun other => by
      have splits : other ∈ search.stack ↔ other ∈ behind ∨ other ∈ members := by
        rw [isMember, isBehind, ← and_or_left]
        exact (and_iff_left (Nat.lt_or_ge _ _)).symm
      rw [List.flatten_cons, List.mem_append, List.mem_mergeSort, ← or_assoc, ← splits]
      exact inv.isMet other
    apart := fun other isOther => by
      rw [List.flatten_cons, List.mem_append, List.mem_mergeSort, isMember]
      obtain ⟨isOpen, before⟩ := (isBehind other).mp isOther
      rintro (⟨-, after⟩ | isListed)
      · exact Nat.not_lt_of_le after before
      · exact inv.apart other isOpen isListed
    listed := by
      have nodup := (List.Nodup.of_map _ inv.nodup_numbers).sublist isSublist
      have ascending := List.sortedLE_mergeSort.sortedLT_of_nodup nodup.mergeSort
      exact inv.listed_cons onWay isLeast ascending.pairwise fun other =>
        List.mem_mergeSort.trans (isMember other)
    numbered := fun other isOther => inv.numbered other (isSublistToo.subset isOther)
    descending := inv.descending.sublist isSublistToo
    onStack := fun other isOther => (isBehind other).mpr
      ⟨inv.onStack other (onWayToo isOther), inv.number_lt_of_mem_below onWay isOther⟩
    nested := inv.nested_below onWay
    isEdge := inv.isEdge_below onWay
    followed := inv.followed_below onWay
    reaches := fun other isOther third isThird =>
      inv.reaches other (onWayToo isOther) third (isSublistToo.subset isThird)
    returns := fun other isOther => by
      obtain ⟨ahead, isAhead, before, back⟩ := inv.returns other (isSublistToo.subset isOther)
      exact ⟨ahead, isEarlier isOther isAhead before, before, back⟩
    low_le := fun other isOther => inv.low_le other (onWayToo isOther)
    found := fun other isOther => by
      obtain ⟨third, isThird, number_eq, there⟩ := inv.found other (onWayToo isOther)
      have before : search.number third < search.number vertex := number_eq ▸
        (inv.low_le other (onWayToo isOther)).trans_lt (inv.number_lt_of_mem_below onWay isOther)
      exact ⟨third, (isBehind third).mpr ⟨isThird, before⟩, number_eq, there⟩
    least := fun other isOther source liesBehind target isTarget leads => by
      have isSource := liesBehind.isOpen
      have liesBehind : search.LiesBehind other source :=
        ⟨isSublistToo.subset isSource, liesBehind.after, fun third isThird before =>
          liesBehind.latest third (isEarlier isSource isThird before) before⟩
      exact (inv.least other (onWayToo isOther) source liesBehind target
        (isSublistToo.subset isTarget) leads).imp_right (isPending_iff_of_frames onWay).mp }

/-- Before a vertex is left, what was found behind it is passed on. -/
theorem passOn : ∃ passed : Search, Invariant count next passed ∧
    passed.frames = search.frames ∧ passed.low vertex = search.low vertex ∧
    passed.number vertex = search.number vertex ∧
    (∀ parent earlier, below = parent :: earlier → passed.low parent.vertex ≤ passed.low vertex) ∧
    { search with frames := below }.passOn vertex = { passed with frames := below } := by
  cases below with
  | nil => exact ⟨search, inv, rfl, rfl, rfl, by simp, rfl⟩
  | cons parent earlier =>
    have parent_lt := inv.number_lt_of_mem_below onWay List.mem_cons_self
    have isParent : parent.vertex ∈ search.way := mem_way_of_mem_below onWay List.mem_cons_self
    have isVertex : vertex ∈ search.way := mem_way_of_frames onWay
    have reaches := inv.reaches parent.vertex isParent vertex (inv.onStack vertex isVertex) parent_lt.le
    obtain ⟨other, isOpen, number_eq, there⟩ := inv.found vertex isVertex
    have differ : vertex ≠ parent.vertex := fun same => Nat.lt_irrefl _ (same ▸ parent_lt)
    have low_eq : (search.lower parent.vertex (search.low vertex)).low vertex = search.low vertex := by
      rw [low_lower, if_neg differ]
    refine ⟨search.lower parent.vertex (search.low vertex),
      number_eq ▸ inv.lower isOpen (reaches.trans there), rfl, low_eq, rfl, ?_, rfl⟩
    rintro _ _ ⟨⟩
    rw [low_eq, low_lower, if_pos rfl]
    exact Nat.min_le_right _ _

theorem leave : Invariant count next ({ search with frames := below }.leave vertex) := by
  obtain ⟨passed, invPassed, frames_eq, low_eq, number_eq, low_le, passOn_eq⟩ := inv.passOn onWay
  have onWayToo : passed.frames = ⟨vertex, []⟩ :: below := frames_eq.trans onWay
  have isVertex : vertex ∈ search.way := mem_way_of_frames onWay
  rw [Search.leave, passOn_eq]
  split
  · next isLeast => exact invPassed.close onWayToo ((low_eq.trans isLeast).trans number_eq.symm)
  · next isNotLeast =>
    refine invPassed.merge onWayToo ?_ low_le
    rw [low_eq, number_eq]
    exact Nat.lt_of_le_of_ne (inv.low_le vertex isVertex) isNotLeast

end Leave

end Invariant

end Search

end Component

end ReactorCausality
