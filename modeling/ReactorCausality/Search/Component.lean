/-!
Strongly connected components of a graph on the numbers below a bound. Two vertices are in one
component if each can be reached from the other. Components are listed in reverse topological
order: an edge from one component to another leads to one that is listed earlier.

One depth-first search finds them all. It numbers the vertices as it meets them, and a vertex stays
open until its component is known. For every vertex on the way to where it is, the search keeps the
smallest number of an open vertex that it has found behind it. Where that is the vertex's own number
when all its successors have been followed, the vertex and all that were met behind it and are still
open are a component. The way is kept in frames, so its length does not matter.
-/
namespace ReactorCausality

namespace Component

/-- A vertex on the way of a search, and its successors that are still to be followed. -/
structure Frame where
  vertex : Nat
  rest : List Nat
  deriving DecidableEq, Repr

/-- A search for components. -/
structure Search where
  /-- For every vertex that has been met, its number. -/
  numbers : Array (Option Nat)
  /-- For every vertex on the way, the smallest number found behind it. -/
  lows : Array Nat
  /-- For every vertex, whether it is open. -/
  isOpen : Array Bool
  /-- The open vertices, the latest first. -/
  stack : List Nat := []
  /-- The way to where the search is, the latest vertex first. -/
  frames : List Frame := []
  /-- How many vertices have been met. -/
  met : Nat := 0
  /-- The components that are known, the latest first. -/
  components : List (List Nat) := []
  deriving Repr

namespace Search

/-- A search of the vertices below a bound that has met none. -/
def start (count : Nat) : Search :=
  { numbers := Array.replicate count none
    lows := Array.replicate count 0
    isOpen := Array.replicate count false }

/-- Whether a vertex is one of the graph that has not been met. -/
def isUnmet (search : Search) (vertex : Nat) : Bool :=
  search.numbers[vertex]? == some none

/-- The number of a vertex that has been met. -/
def number (search : Search) (vertex : Nat) : Nat :=
  (search.numbers.getD vertex none).getD 0

def low (search : Search) (vertex : Nat) : Nat :=
  search.lows.getD vertex 0

/-- Meets a vertex, which goes to the end of the way. -/
def meet (next : Nat → List Nat) (search : Search) (vertex : Nat) : Search :=
  { search with
    numbers := search.numbers.setIfInBounds vertex (some search.met)
    lows := search.lows.setIfInBounds vertex search.met
    isOpen := search.isOpen.setIfInBounds vertex true
    stack := vertex :: search.stack
    frames := ⟨vertex, next vertex⟩ :: search.frames
    met := search.met + 1 }

/-- Takes account of a number that has been found behind a vertex. -/
def lower (search : Search) (vertex number : Nat) : Search :=
  { search with lows := search.lows.modify vertex (min · number) }

/-- Follows an edge: a vertex that has not been met is met, and the number of one that is open is a
number found behind the source of the edge. -/
def follow (next : Nat → List Nat) (search : Search) (vertex successor : Nat) : Search :=
  if search.isUnmet successor then search.meet next successor
  else if search.isOpen.getD successor false then search.lower vertex (search.number successor)
  else search

/-- The first elements of a list up to an element, and those behind it. -/
def splitBehind (vertex : Nat) : List Nat → List Nat × List Nat
  | [] => ([], [])
  | first :: rest =>
    if first = vertex then ([first], rest)
    else
      let (upTo, behind) := splitBehind vertex rest
      (first :: upTo, behind)

/-- Closes a component: the open vertices down to its first one. -/
def close (search : Search) (vertex : Nat) : Search :=
  let (members, stack) := splitBehind vertex search.stack
  { search with
    isOpen := members.foldl (fun isOpen member => isOpen.setIfInBounds member false) search.isOpen
    stack
    components := members.mergeSort :: search.components }

/-- What was found behind a vertex was also found behind the vertex before it on the way. -/
def passOn (search : Search) (vertex : Nat) : Search :=
  match search.frames with
  | [] => search
  | parent :: _ => search.lower parent.vertex (search.low vertex)

/-- Leaves a vertex all of whose successors have been followed. -/
def leave (search : Search) (vertex : Nat) : Search :=
  if search.low vertex = search.number vertex then (search.passOn vertex).close vertex
  else search.passOn vertex

/-- Follows one edge from the end of the way, or leaves the vertex there, until the way is at its
end. -/
def step? (next : Nat → List Nat) (search : Search) : Option Search :=
  match search.frames with
  | [] => none
  | ⟨vertex, successor :: rest⟩ :: frames =>
    some ({ search with frames := ⟨vertex, rest⟩ :: frames }.follow next vertex successor)
  | ⟨vertex, []⟩ :: frames => some ({ search with frames }.leave vertex)

/-! ### The end of a search -/

/-- How many vertices have not been met. -/
def unmet (search : Search) : Nat :=
  search.numbers.countP Option.isNone

/-- How many edges are to be followed and how many vertices are to be left on the way. -/
def pending (search : Search) : Nat :=
  search.frames.foldr (fun frame total => frame.rest.length + 1 + total) 0

theorem unmet_meet_lt (next : Nat → List Nat) {search : Search} {vertex : Nat}
    (isUnmet : search.isUnmet vertex) : (search.meet next vertex).unmet < search.unmet := by
  obtain ⟨less, isNone⟩ := Array.getElem?_eq_some_iff.mp (beq_iff_eq.mp isUnmet)
  have positive : 0 < search.numbers.countP Option.isNone :=
    Array.countP_pos_iff.mpr ⟨none, isNone ▸ Array.getElem_mem less, rfl⟩
  have fewer : (search.meet next vertex).unmet = search.unmet - 1 := by
    simp [unmet, meet, Array.setIfInBounds, less, Array.countP_set, isNone]
  rw [fewer]
  exact Nat.sub_lt positive Nat.one_pos

/-- Leaving a vertex meets none, and it leaves the way as it is. -/
theorem leave_eq (search : Search) (vertex : Nat) :
    (search.leave vertex).numbers = search.numbers ∧
      (search.leave vertex).frames = search.frames := by
  have passed : (search.passOn vertex).numbers = search.numbers ∧
      (search.passOn vertex).frames = search.frames := by
    unfold passOn
    split <;> exact ⟨rfl, rfl⟩
  unfold leave
  split <;> exact passed

/-- A step meets a vertex, or leaves less to be done on the way. -/
theorem step?_descends {next : Nat → List Nat} {search after : Search}
    (steps : search.step? next = some after) :
    after.unmet < search.unmet ∨ after.unmet = search.unmet ∧ after.pending < search.pending := by
  unfold step? at steps
  split at steps
  · contradiction
  · next vertex successor rest frames onWay =>
    cases steps
    unfold follow
    split
    · next isUnmet => exact .inl (unmet_meet_lt next isUnmet)
    · right
      split <;> simp [unmet, pending, lower, onWay]
  · next vertex frames onWay =>
    cases steps
    obtain ⟨numbers, sameFrames⟩ := leave_eq { search with frames } vertex
    right
    simp [unmet, pending, numbers, sameFrames, onWay]

/-- Goes on until the way is at its end. -/
def run (next : Nat → List Nat) (search : Search) : Search :=
  match _steps : search.step? next with
  | none => search
  | some after => run next after
termination_by (search.unmet, search.pending)
decreasing_by
  rcases step?_descends ‹search.step? next = some after› with fewer | ⟨same, less⟩
  · exact Prod.Lex.left _ _ fewer
  · exact same ▸ Prod.Lex.right _ less

/-- Searches from a vertex, unless it has been met. -/
def visit (next : Nat → List Nat) (search : Search) (root : Nat) : Search :=
  if search.isUnmet root then (search.meet next root).run next else search

end Search

/-- The search of all vertices below a bound, when it is done. -/
def search (count : Nat) (next : Nat → List Nat) : Search :=
  (List.range count).foldl (Search.visit next) (.start count)

/-- All components, in reverse topological order. -/
def all (count : Nat) (next : Nat → List Nat) : List (List Nat) :=
  (search count next).components.reverse

/-- Whether there is a cycle inside a component: it has several vertices, or its only vertex leads
to itself. -/
def isCyclic (next : Nat → List Nat) : List Nat → Bool
  | [] => false
  | [only] => (next only).contains only
  | _ => true

end Component
end ReactorCausality
