import ReactorCausality.Proofs.Search.Component

/-!
What is true of a search for components at any time (`Invariant`). The open vertices lie on the stack
by their numbers, a vertex of the way reaches whatever lies above it, and every open vertex reaches back
to the way. Following an edge keeps this up (`Invariant.follow`).
-/
namespace ReactorCausality

namespace Component

open BreadthFirst Relation

/-- There is a way from one vertex to another below a bound. -/
def Reaches (count : Nat) (next : Nat → List Nat) : Nat → Nat → Prop :=
  ReflTransGen (Leads next (List.range count))

namespace Search

variable {count : Nat} {next : Nat → List Nat} {search : Search} {vertex : Nat}

/-! ### Vertices, numbers and edges -/

def IsMet (search : Search) (vertex : Nat) : Prop :=
  (search.numbers.getD vertex none).isSome

/-- The vertices on the way, the latest first. -/
def way (search : Search) : List Nat :=
  search.frames.map Frame.vertex

/-- An edge from a vertex on the way is still to be followed. -/
def IsPending (search : Search) (source target : Nat) : Prop :=
  ∃ frame ∈ search.frames, frame.vertex = source ∧ target ∈ frame.rest

theorem isUnmet_iff : search.isUnmet vertex ↔
    vertex < search.numbers.size ∧ ¬ search.IsMet vertex := by
  simp only [isUnmet, IsMet, beq_iff_eq, Array.getD_eq_getD_getElem?]
  by_cases less : vertex < search.numbers.size <;> simp [less]

theorem IsMet.lt (isMet : search.IsMet vertex) : vertex < search.numbers.size := by
  by_contra notLess
  simp [IsMet, Array.getD_eq_getD_getElem?, notLess] at isMet

variable (next vertex) in
@[simp]
theorem stack_meet (search : Search) : (search.meet next vertex).stack = vertex :: search.stack :=
  rfl

variable (next vertex) in
@[simp]
theorem way_meet (search : Search) : (search.meet next vertex).way = vertex :: search.way :=
  rfl

theorem isPending_meet_iff {source target : Nat} : (search.meet next vertex).IsPending source target ↔
    vertex = source ∧ target ∈ next vertex ∨ search.IsPending source target := by
  simp [IsPending, meet]

section Meet

variable (less : vertex < search.numbers.size)
include less

variable (next) in
theorem isMet_meet_iff (other : Nat) :
    (search.meet next vertex).IsMet other ↔ other = vertex ∨ search.IsMet other := by
  simp only [IsMet, meet, Array.getD_eq_getD_getElem?, Array.getElem?_setIfInBounds]
  grind

theorem number_meet (other : Nat) : (search.meet next vertex).number other =
    if other = vertex then search.met else search.number other := by
  simp only [number, meet, Array.getD_eq_getD_getElem?, Array.getElem?_setIfInBounds]
  grind

end Meet

theorem low_meet (less : vertex < search.lows.size) (other : Nat) :
    (search.meet next vertex).low other =
      if other = vertex then search.met else search.low other := by
  simp only [low, meet, Array.getD_eq_getD_getElem?, Array.getElem?_setIfInBounds]
  grind

theorem isOpen_meet_iff (less : vertex < search.isOpen.size) {other : Nat} :
    (search.meet next vertex).isOpen.getD other false = true ↔
      other = vertex ∨ search.isOpen.getD other false = true := by
  simp only [meet, Array.getD_eq_getD_getElem?, Array.getElem?_setIfInBounds]
  grind

theorem low_lower (number other : Nat) : (search.lower vertex number).low other =
    if other = vertex then min (search.low vertex) number else search.low other := by
  simp only [low, lower, Array.getD_eq_getD_getElem?, Array.getElem?_modify]
  by_cases same : other = vertex
  · subst same
    cases search.lows[other]? <;> simp
  · simp [same, Ne.symm same]

/-! ### The invariant -/

/-- An open vertex was met behind a vertex of the way, and behind none that is later on the way. -/
structure LiesBehind (search : Search) (ahead vertex : Nat) : Prop where
  isOpen : vertex ∈ search.stack
  after : search.number ahead ≤ search.number vertex
  latest : ∀ other ∈ search.way, search.number other ≤ search.number vertex →
    search.number other ≤ search.number ahead

/-- What is true of a search between two steps. -/
structure Invariant (count : Nat) (next : Nat → List Nat) (search : Search) : Prop where
  sizes : search.numbers.size = count ∧ search.lows.size = count ∧ search.isOpen.size = count
  isOpen : ∀ vertex, search.isOpen.getD vertex false = true ↔ vertex ∈ search.stack
  isMet : ∀ vertex, search.IsMet vertex ↔
    vertex ∈ search.stack ∨ vertex ∈ search.components.flatten
  apart : ∀ vertex ∈ search.stack, vertex ∉ search.components.flatten
  listed : Listed count next search.components
  numbered : ∀ vertex ∈ search.stack, search.number vertex < search.met
  descending : search.stack.Pairwise fun later earlier =>
    search.number earlier < search.number later
  onStack : ∀ vertex ∈ search.way, vertex ∈ search.stack
  nested : search.way.Pairwise fun later earlier => search.number earlier < search.number later
  isEdge : ∀ source target, search.IsPending source target → target ∈ next source
  followed : ∀ source, search.IsMet source → ∀ target, Leads next (List.range count) source target →
    search.IsMet target ∨ search.IsPending source target
  reaches : ∀ ahead ∈ search.way, ∀ vertex ∈ search.stack,
    search.number ahead ≤ search.number vertex → Reaches count next ahead vertex
  returns : ∀ vertex ∈ search.stack, ∃ ahead ∈ search.way,
    search.number ahead ≤ search.number vertex ∧ Reaches count next vertex ahead
  low_le : ∀ ahead ∈ search.way, search.low ahead ≤ search.number ahead
  found : ∀ ahead ∈ search.way, ∃ vertex ∈ search.stack,
    search.number vertex = search.low ahead ∧ Reaches count next ahead vertex
  /-- No edge that has been followed leads further down the stack. -/
  least : ∀ ahead ∈ search.way, ∀ source, search.LiesBehind ahead source →
    ∀ target ∈ search.stack, Leads next (List.range count) source target →
      search.low ahead ≤ search.number target ∨ search.IsPending source target

theorem invariant_start (count : Nat) (next : Nat → List Nat) :
    Invariant count next (start count) where
  sizes := by simp [start]
  isOpen vertex := by
    by_cases less : vertex < count <;> simp [start, less]
  isMet vertex := by
    by_cases less : vertex < count <;> simp [start, IsMet, less]
  apart := by simp [start]
  listed := .nil
  numbered := by simp [start]
  descending := .nil
  onStack := by simp [start, way]
  nested := .nil
  isEdge := by simp [start, IsPending]
  followed vertex isMet := by
    by_cases less : vertex < count <;> simp [start, IsMet, less] at isMet
  reaches := by simp [start, way]
  returns := by simp [start]
  low_le := by simp [start, way]
  found := by simp [start, way]
  least := by simp [start, way]

namespace Invariant

variable (inv : Invariant count next search)
include inv

theorem lt_of_isMet {vertex : Nat} (isMet : search.IsMet vertex) : vertex < count :=
  inv.sizes.1 ▸ isMet.lt

theorem isMet_of_mem {vertex : Nat} (isOpen : vertex ∈ search.stack) : search.IsMet vertex :=
  (inv.isMet vertex).mpr (.inl isOpen)

/-! ### Meeting a vertex -/

section Meet

variable {vertex : Nat} (less : vertex < count) (isNew : ¬ search.IsMet vertex)

include isNew in
theorem not_mem_of_isNew : vertex ∉ search.stack ∧ vertex ∉ search.components.flatten :=
  not_or.mp ((inv.isMet vertex).not.mp isNew)

include less

theorem number_meet_self : (search.meet next vertex).number vertex = search.met := by
  rw [number_meet (inv.sizes.1 ▸ less), if_pos rfl]

theorem low_meet_self : (search.meet next vertex).low vertex = search.met := by
  rw [low_meet (inv.sizes.2.1 ▸ less), if_pos rfl]

include isNew

theorem number_meet_of_mem {other : Nat} (old : other ∈ search.stack) :
    (search.meet next vertex).number other = search.number other := by
  have differ : other ≠ vertex := ne_of_mem_of_not_mem old (inv.not_mem_of_isNew isNew).1
  rw [number_meet (inv.sizes.1 ▸ less), if_neg differ]

theorem low_meet_of_mem {other : Nat} (old : other ∈ search.stack) :
    (search.meet next vertex).low other = search.low other := by
  have differ : other ≠ vertex := ne_of_mem_of_not_mem old (inv.not_mem_of_isNew isNew).1
  rw [low_meet (inv.sizes.2.1 ▸ less), if_neg differ]

/-- What is met last has the greatest number. -/
theorem number_meet_lt {other : Nat} (old : other ∈ search.stack) :
    (search.meet next vertex).number other < (search.meet next vertex).number vertex := by
  rw [inv.number_meet_self less, inv.number_meet_of_mem less isNew old]
  exact inv.numbered other old

/-- Meeting a vertex puts nothing else behind the vertices that were on the way before. -/
theorem liesBehind_of_meet {ahead source : Nat} (isEarlier : ahead ∈ search.way)
    (old : source ∈ search.stack) (behind : (search.meet next vertex).LiesBehind ahead source) :
    search.LiesBehind ahead source := by
  obtain ⟨-, after, latest⟩ := behind
  have isAhead := inv.onStack ahead isEarlier
  refine ⟨old, ?_, fun other isOnWay before => ?_⟩
  · rwa [inv.number_meet_of_mem less isNew isAhead, inv.number_meet_of_mem less isNew old] at after
  · have isOther := inv.onStack other isOnWay
    have notLater := latest other (List.mem_cons_of_mem _ isOnWay)
    rw [inv.number_meet_of_mem less isNew isOther, inv.number_meet_of_mem less isNew old,
      inv.number_meet_of_mem less isNew isAhead] at notLater
    exact notLater before

theorem numbered_meet {other : Nat} (isOpen : other ∈ (search.meet next vertex).stack) :
    (search.meet next vertex).number other < (search.meet next vertex).met := by
  rcases List.mem_cons.mp isOpen with rfl | old
  · exact inv.number_meet_self less ▸ Nat.lt_succ_self _
  · exact inv.number_meet_of_mem less isNew old ▸ Nat.lt_succ_of_lt (inv.numbered other old)

/-- Whatever descends by its numbers still does so with the new vertex in front. -/
theorem pairwise_meet {vertices : List Nat} (areOpen : ∀ other ∈ vertices, other ∈ search.stack)
    (descending : vertices.Pairwise fun later earlier =>
      search.number earlier < search.number later) :
    (vertex :: vertices).Pairwise fun later earlier =>
      (search.meet next vertex).number earlier < (search.meet next vertex).number later := by
  refine List.pairwise_cons.mpr
    ⟨fun other member => inv.number_meet_lt less isNew (areOpen other member), ?_⟩
  refine descending.imp_of_mem fun {later earlier} isLater isEarlier before => ?_
  rwa [inv.number_meet_of_mem less isNew (areOpen _ isEarlier),
    inv.number_meet_of_mem less isNew (areOpen _ isLater)]

omit isNew in
/-- The edges of the new vertex are all still to be followed. -/
theorem followed_meet {source target : Nat} (isSource : (search.meet next vertex).IsMet source)
    (leads : Leads next (List.range count) source target) :
    (search.meet next vertex).IsMet target ∨ (search.meet next vertex).IsPending source target := by
  have isMet {other : Nat} := isMet_meet_iff next (inv.sizes.1 ▸ less) other
  rw [isMet, isPending_meet_iff]
  rcases isMet.mp isSource with rfl | old
  · exact .inr (.inl ⟨rfl, leads.1⟩)
  · exact (inv.followed source old target leads).imp .inr .inr

/-- The new vertex is behind all others, so it need only be reached. -/
theorem reaches_meet (reached : ∀ ahead ∈ search.way, Reaches count next ahead vertex)
    {ahead other : Nat} (onWay : ahead ∈ (search.meet next vertex).way)
    (isOpen : other ∈ (search.meet next vertex).stack)
    (after : (search.meet next vertex).number ahead ≤ (search.meet next vertex).number other) :
    Reaches count next ahead other := by
  rcases List.mem_cons.mp onWay with rfl | isEarlier <;>
    rcases List.mem_cons.mp isOpen with rfl | old
  · exact .refl
  · exact absurd after (Nat.not_le_of_lt (inv.number_meet_lt less isNew old))
  · exact reached ahead isEarlier
  · rw [inv.number_meet_of_mem less isNew (inv.onStack ahead isEarlier),
      inv.number_meet_of_mem less isNew old] at after
    exact inv.reaches ahead isEarlier other old after

/-- The new vertex is on the way itself. -/
theorem returns_meet {other : Nat} (isOpen : other ∈ (search.meet next vertex).stack) :
    ∃ ahead ∈ (search.meet next vertex).way,
      (search.meet next vertex).number ahead ≤ (search.meet next vertex).number other ∧
        Reaches count next other ahead := by
  rcases List.mem_cons.mp isOpen with rfl | old
  · exact ⟨other, List.mem_cons_self, Nat.le_refl _, .refl⟩
  · obtain ⟨ahead, onWay, after, back⟩ := inv.returns other old
    refine ⟨ahead, List.mem_cons_of_mem _ onWay, ?_, back⟩
    rwa [inv.number_meet_of_mem less isNew (inv.onStack ahead onWay),
      inv.number_meet_of_mem less isNew old]

theorem low_le_meet {ahead : Nat} (onWay : ahead ∈ (search.meet next vertex).way) :
    (search.meet next vertex).low ahead ≤ (search.meet next vertex).number ahead := by
  rcases List.mem_cons.mp onWay with rfl | isEarlier
  · exact Nat.le_of_eq ((inv.low_meet_self less).trans (inv.number_meet_self less).symm)
  · have old := inv.onStack ahead isEarlier
    rw [inv.low_meet_of_mem less isNew old, inv.number_meet_of_mem less isNew old]
    exact inv.low_le ahead isEarlier

/-- The new vertex is the lowest that has been found from it so far. -/
theorem found_meet {ahead : Nat} (onWay : ahead ∈ (search.meet next vertex).way) :
    ∃ other ∈ (search.meet next vertex).stack,
      (search.meet next vertex).number other = (search.meet next vertex).low ahead ∧
        Reaches count next ahead other := by
  rcases List.mem_cons.mp onWay with rfl | isEarlier
  · have own := (inv.number_meet_self less).trans (inv.low_meet_self less).symm
    exact ⟨ahead, List.mem_cons_self, own, .refl⟩
  · obtain ⟨other, old, number_eq, way⟩ := inv.found ahead isEarlier
    refine ⟨other, List.mem_cons_of_mem _ old, ?_, way⟩
    rw [inv.number_meet_of_mem less isNew old,
      inv.low_meet_of_mem less isNew (inv.onStack ahead isEarlier), number_eq]

/-- No edge of the new vertex has been followed, and edges that lead to it lead up the stack. -/
theorem least_meet {ahead source target : Nat} (onWay : ahead ∈ (search.meet next vertex).way)
    (behind : (search.meet next vertex).LiesBehind ahead source)
    (isTarget : target ∈ (search.meet next vertex).stack)
    (leads : Leads next (List.range count) source target) :
    (search.meet next vertex).low ahead ≤ (search.meet next vertex).number target ∨
      (search.meet next vertex).IsPending source target := by
  rw [isPending_meet_iff]
  rcases List.mem_cons.mp behind.isOpen with rfl | oldSource
  · exact .inr (.inl ⟨rfl, leads.1⟩)
  rcases List.mem_cons.mp onWay with rfl | isEarlier
  · exact absurd behind.after (Nat.not_le_of_lt (inv.number_meet_lt less isNew oldSource))
  have isAhead := inv.onStack ahead isEarlier
  rw [inv.low_meet_of_mem less isNew isAhead]
  rcases List.mem_cons.mp isTarget with rfl | oldTarget
  · left
    rw [inv.number_meet_self less]
    exact ((inv.low_le ahead isEarlier).trans_lt (inv.numbered ahead isAhead)).le
  · have behind := inv.liesBehind_of_meet less isNew isEarlier oldSource behind
    rw [inv.number_meet_of_mem less isNew oldTarget]
    exact (inv.least ahead isEarlier source behind target oldTarget leads).imp_right .inr

/-- A vertex that has not been met is met next, if it can be reached from all vertices of the way. -/
theorem meet (reached : ∀ ahead ∈ search.way, Reaches count next ahead vertex) :
    Invariant count next (search.meet next vertex) where
  sizes := by
    simpa [Search.meet] using inv.sizes
  isOpen other := by
    rw [isOpen_meet_iff (inv.sizes.2.2 ▸ less), stack_meet, List.mem_cons, inv.isOpen]
  isMet other := by
    rw [isMet_meet_iff next (inv.sizes.1 ▸ less), inv.isMet, stack_meet, List.mem_cons, or_assoc]
    rfl
  apart := List.forall_mem_cons.mpr ⟨(inv.not_mem_of_isNew isNew).2, inv.apart⟩
  listed := inv.listed
  numbered _ isOpen := inv.numbered_meet less isNew isOpen
  descending := inv.pairwise_meet less isNew (fun _ isOpen => isOpen) inv.descending
  onStack := by
    rw [way_meet, stack_meet]
    refine List.forall_mem_cons.mpr ⟨List.mem_cons_self, fun other old => ?_⟩
    exact List.mem_cons_of_mem _ (inv.onStack other old)
  nested := inv.pairwise_meet less isNew inv.onStack inv.nested
  isEdge source target pending := by
    rcases isPending_meet_iff.mp pending with ⟨rfl, follows⟩ | old
    · exact follows
    · exact inv.isEdge source target old
  followed _ isSource _ leads := inv.followed_meet less isSource leads
  reaches _ onWay _ isOpen after := inv.reaches_meet less isNew reached onWay isOpen after
  returns _ isOpen := inv.returns_meet less isNew isOpen
  low_le _ onWay := inv.low_le_meet less isNew onWay
  found _ onWay := inv.found_meet less isNew onWay
  least _ onWay _ behind _ isTarget leads := inv.least_meet less isNew onWay behind isTarget leads

end Meet

/-! ### Following an edge -/

theorem nodup_numbers : (search.stack.map search.number).Nodup :=
  List.pairwise_map.mpr (inv.descending.imp Nat.ne_of_gt)

/-- Open vertices have different numbers. -/
theorem eq_of_number_eq {one other : Nat} (isOpen : one ∈ search.stack)
    (isOpenToo : other ∈ search.stack) (same : search.number one = search.number other) :
    one = other :=
  List.inj_on_of_nodup_map inv.nodup_numbers isOpen isOpenToo same

/-- The number of an open vertex may be taken account of wherever the vertex can be reached. -/
theorem lower {ahead vertex : Nat} (isOpen : vertex ∈ search.stack)
    (reaches : Reaches count next ahead vertex) :
    Invariant count next (search.lower ahead (search.number vertex)) := by
  have lowered (other : Nat) :
      (search.lower ahead (search.number vertex)).low other ≤ search.low other := by
    rw [low_lower]
    split
    · next same => exact same ▸ Nat.min_le_left _ _
    · exact Nat.le_refl _
  exact { inv with
    sizes := by simpa [Search.lower] using inv.sizes
    low_le := fun other onWay => (lowered other).trans (inv.low_le other onWay)
    found := fun other onWay => by
      rw [low_lower]
      split
      · next same =>
        subst same
        rcases Nat.le_total (search.low other) (search.number vertex) with less | less
        · rw [Nat.min_eq_left less]
          exact inv.found other onWay
        · rw [Nat.min_eq_right less]
          exact ⟨vertex, isOpen, rfl, reaches⟩
      · exact inv.found other onWay
    least := fun other onWay source behind target isTarget leads =>
      have behind : search.LiesBehind other source := ⟨behind.isOpen, behind.after, behind.latest⟩
      (inv.least other onWay source behind target isTarget leads).imp_left (lowered other).trans }

/-- An edge is done with when what it leads to has been met and, if that is open, taken account of. -/
theorem drop {vertex successor : Nat} {rest : List Nat} (above : List Frame) {below : List Frame}
    (onWay : search.frames = above ++ ⟨vertex, successor :: rest⟩ :: below)
    (isMet : successor < count → search.IsMet successor)
    (isLow : successor ∈ search.stack → search.low vertex ≤ search.number successor) :
    Invariant count next { search with frames := above ++ ⟨vertex, rest⟩ :: below } := by
  have way_eq : ({ search with frames := above ++ ⟨vertex, rest⟩ :: below } : Search).way =
      search.way := by simp [way, onWay]
  have isOnWay : vertex ∈ search.way := by simp [way, onWay]
  have isPending {source target : Nat} : search.IsPending source target ↔
      source = vertex ∧ target = successor ∨
        ({ search with frames := above ++ ⟨vertex, rest⟩ :: below } : Search).IsPending
          source target := by
    simp only [IsPending, onWay, List.mem_append, List.mem_cons, or_and_right, exists_or,
      exists_eq_left]
    grind
  exact { inv with
    onStack := way_eq ▸ inv.onStack
    nested := way_eq ▸ inv.nested
    isEdge := fun source target pending => inv.isEdge source target (isPending.mpr (.inr pending))
    followed := fun source isSource target leads => by
      rcases inv.followed source isSource target leads with isTarget | pending
      · exact .inl isTarget
      · refine (isPending.mp pending).imp_left fun ⟨_, isSuccessor⟩ => ?_
        subst isSuccessor
        exact isMet (List.mem_range.mp leads.2)
    reaches := way_eq ▸ inv.reaches
    returns := way_eq ▸ inv.returns
    low_le := way_eq ▸ inv.low_le
    found := way_eq ▸ inv.found
    least := fun ahead isAhead source behind target isTarget leads => by
      rw [way_eq] at isAhead
      have latest := behind.latest
      rw [way_eq] at latest
      have behind : search.LiesBehind ahead source := ⟨behind.isOpen, behind.after, latest⟩
      rcases inv.least ahead isAhead source behind target isTarget leads with isLess | pending
      · exact .inl isLess
      · refine (isPending.mp pending).imp_left fun ⟨isVertex, isSuccessor⟩ => ?_
        subst isVertex isSuccessor
        have same : ahead = source := inv.eq_of_number_eq (inv.onStack ahead isAhead) behind.isOpen
          (Nat.le_antisymm behind.after (latest source isOnWay (Nat.le_refl _)))
        exact same ▸ isLow isTarget }

/-- The end of the way goes on along an edge. -/
theorem follow {vertex successor : Nat} {rest : List Nat} {below : List Frame}
    (onWay : search.frames = ⟨vertex, successor :: rest⟩ :: below) :
    Invariant count next
      ({ search with frames := ⟨vertex, rest⟩ :: below }.follow next vertex successor) := by
  have isVertex : vertex ∈ search.way := by simp [way, onWay]
  have isOpen : vertex ∈ search.stack := inv.onStack vertex isVertex
  have isEdge : successor ∈ next vertex :=
    inv.isEdge vertex successor ⟨⟨vertex, successor :: rest⟩, by simp [onWay], rfl, List.mem_cons_self⟩
  have leads (less : successor < count) : Leads next (List.range count) vertex successor :=
    ⟨isEdge, List.mem_range.mpr less⟩
  have unmet_iff : search.isUnmet successor ↔ successor < count ∧ ¬ search.IsMet successor :=
    inv.sizes.1 ▸ isUnmet_iff
  unfold Search.follow
  split
  · next isUnmet =>
    obtain ⟨less, isNew⟩ := unmet_iff.mp isUnmet
    have lessToo : successor < search.numbers.size := inv.sizes.1 ▸ less
    have isOther : vertex ≠ successor := fun same => isNew (same ▸ inv.isMet_of_mem isOpen)
    have met : Invariant count next (search.meet next successor) := by
      refine inv.meet less isNew fun ahead isAhead => ?_
      have before : search.number ahead ≤ search.number vertex := by
        rw [way, onWay] at isAhead
        rcases List.mem_cons.mp isAhead with rfl | isEarlier
        · exact Nat.le_refl _
        · have nested := inv.nested
          rw [way, onWay] at nested
          exact (List.rel_of_pairwise_cons nested isEarlier).le
      exact (inv.reaches ahead isAhead vertex isOpen before).tail (leads less)
    refine met.drop [⟨successor, next successor⟩] (congrArg (_ :: ·) onWay)
      (fun _ => (isMet_meet_iff next lessToo successor).mpr (.inl rfl)) fun _ => ?_
    rw [number_meet lessToo, if_pos rfl, low_meet (inv.sizes.2.1 ▸ less), if_neg isOther]
    exact ((inv.low_le vertex isVertex).trans_lt (inv.numbered vertex isOpen)).le
  · next isNotUnmet =>
    have isMet (less : successor < count) : search.IsMet successor := by
      by_contra isNew
      exact isNotUnmet (unmet_iff.mpr ⟨less, isNew⟩)
    split
    · next isOpenToo =>
      have isOpenToo := (inv.isOpen successor).mp isOpenToo
      have less := inv.lt_of_isMet (inv.isMet_of_mem isOpenToo)
      have lowered := inv.lower isOpenToo (.single (leads less))
      refine lowered.drop [] onWay isMet fun _ => ?_
      rw [low_lower, if_pos rfl]
      exact Nat.min_le_right _ _
    · next isNotOpen =>
      refine inv.drop [] onWay isMet fun isOpenToo => ?_
      exact absurd ((inv.isOpen successor).mpr isOpenToo) isNotOpen

end Invariant

end Search

end Component

end ReactorCausality
