import Mathlib.Data.List.Sort
import ReactorCausality.Priority.Table
import ReactorCausality.Proofs.Graph.ZeroDelay

/-!
How nodes are placed. At any time the nodes that are ready are exactly those that are not placed
and whose predecessors are, in ascending order, and every node has been placed in its turn, as the
smallest of those that were ready (`Invariant`).
-/
namespace ReactorCausality

namespace DependencyGraph

/-- The nodes that may be placed next when some have been placed. -/
def available (graph : DependencyGraph) (placed : List Nat) : List Nat :=
  (List.range graph.nodes.length).filter fun node =>
    node ∉ placed ∧ ∀ predecessor ∈ graph.predecessors node, predecessor ∈ placed

/-- How many zero-delay edges lead to a node from others than those that have been placed. -/
def pending (graph : DependencyGraph) (placed : List Nat) (node : Nat) : Nat :=
  (graph.predecessors node).countP fun predecessor => predecessor ∉ placed

/-- How many reactions a node is: one or none. -/
def weight (graph : DependencyGraph) (node : Nat) : Nat :=
  (graph.reactionAt? node).toList.length

theorem mem_available_iff {graph : DependencyGraph} {placed : List Nat} {node : Nat} :
    node ∈ graph.available placed ↔ node < graph.nodes.length ∧ node ∉ placed ∧
      ∀ predecessor ∈ graph.predecessors node, predecessor ∈ placed := by
  simp [available]

theorem pending_eq_zero_iff {graph : DependencyGraph} {placed : List Nat} {node : Nat} :
    graph.pending placed node = 0 ↔
      ∀ predecessor ∈ graph.predecessors node, predecessor ∈ placed := by
  simp [pending, List.countP_eq_zero]

/-- Every node of an order is the smallest of those that may be placed when the nodes before it have
been placed. -/
def InTurn (graph : DependencyGraph) (order : List Nat) : Prop :=
  ∀ before node after, order = before ++ node :: after →
    (graph.available before).head? = some node

namespace InTurn

variable {graph : DependencyGraph} {order : List Nat} (inTurn : graph.InTurn order)
include inTurn

/-- A node is placed once, and behind all its predecessors. -/
theorem exists_split {node : Nat} (placed : node ∈ order) : ∃ before after,
    order = before ++ node :: after ∧ node < graph.nodes.length ∧ node ∉ before ∧
      ∀ predecessor ∈ graph.predecessors node, predecessor ∈ before := by
  obtain ⟨before, after, order_eq⟩ := List.append_of_mem placed
  exact ⟨before, after, order_eq,
    mem_available_iff.mp (List.mem_of_head? (inTurn before node after order_eq))⟩

theorem placed_of_mem_predecessors {node : Nat} (placed : node ∈ order) :
    ∀ predecessor ∈ graph.predecessors node, predecessor ∈ order := by
  obtain ⟨before, after, rfl, -, -, closed⟩ := inTurn.exists_split placed
  exact fun predecessor member => List.mem_append_left _ (closed predecessor member)

theorem lt_of_mem {node : Nat} (placed : node ∈ order) : node < graph.nodes.length := by
  obtain ⟨-, -, -, less, -⟩ := inTurn.exists_split placed
  exact less

theorem idxOf_lt {source target : Nat} (step : graph.Step source target)
    (placed : target ∈ order) : order.idxOf source < order.idxOf target := by
  obtain ⟨before, after, rfl, -, isFirst, closed⟩ := inTurn.exists_split placed
  have isBefore : source ∈ before := closed source (mem_predecessors_iff.mpr step)
  rw [List.idxOf_append_of_mem isBefore, List.idxOf_append_of_notMem isFirst]
  exact Nat.lt_add_right _ (List.idxOf_lt_length_of_mem isBefore)

/-- Whatever leads to a placed node is placed. -/
theorem mem_of_leads {source target : Nat} (leads : Relation.ReflTransGen graph.Step source target)
    (placed : target ∈ order) : source ∈ order := by
  induction leads with
  | refl => exact placed
  | tail _ step ih =>
    exact ih (inTurn.placed_of_mem_predecessors placed _ (mem_predecessors_iff.mpr step))

theorem idxOf_lt_of_reaches {source target : Nat} (reaches : graph.Reaches source target)
    (placed : target ∈ order) : order.idxOf source < order.idxOf target := by
  induction reaches with
  | single step => exact inTurn.idxOf_lt step placed
  | tail _ step ih =>
    have isBefore := inTurn.placed_of_mem_predecessors placed _ (mem_predecessors_iff.mpr step)
    exact Nat.lt_trans (ih isBefore) (inTurn.idxOf_lt step placed)

theorem not_behindCycle {node : Nat} (placed : node ∈ order) : ¬ graph.BehindCycle node := by
  rintro ⟨origin, cyclic, leads⟩
  exact Nat.lt_irrefl _ (inTurn.idxOf_lt_of_reaches cyclic (inTurn.mem_of_leads leads placed))

end InTurn

end DependencyGraph

namespace Placement

open DependencyGraph

/-- How many zero-delay edges lead to a node from nodes that are not placed. -/
def waits (placement : Placement) (node : Nat) : Nat :=
  placement.waiting.getD node 0

/-- How many reactions are on the longest chain found in front of a node. -/
def level (placement : Placement) (node : Nat) : Nat :=
  placement.depth.getD node 0

/-! ### Releasing nodes -/

theorem mem_insertAscending_iff {n m : Nat} {list : List Nat} :
    m ∈ insertAscending n list ↔ m = n ∨ m ∈ list := by
  induction list with
  | nil => simp [insertAscending]
  | cons first rest ih =>
    rw [insertAscending]
    split
    · simp
    · simp [ih, or_left_comm]

theorem pairwise_insertAscending {n : Nat} {list : List Nat} (ascending : list.Pairwise (· < ·))
    (isNew : n ∉ list) : (insertAscending n list).Pairwise (· < ·) := by
  induction list with
  | nil => simp [insertAscending]
  | cons first rest ih =>
    obtain ⟨differs, isNew⟩ := not_or.mp (List.mem_cons.not.mp isNew)
    obtain ⟨least, ascending⟩ := List.pairwise_cons.mp ascending
    rw [insertAscending]
    split
    · next le =>
      have less : n < first := Nat.lt_of_le_of_ne le differs
      refine List.pairwise_cons.mpr ⟨?_, List.pairwise_cons.mpr ⟨least, ascending⟩⟩
      intro m member
      rcases List.mem_cons.mp member with rfl | member
      · exact less
      · exact Nat.lt_trans less (least m member)
    · next notLe =>
      refine List.pairwise_cons.mpr ⟨fun m member => ?_, ih ascending isNew⟩
      rcases mem_insertAscending_iff.mp member with rfl | member
      · exact Nat.lt_of_not_le notLe
      · exact least m member

section Release

variable (carried : Nat) (placement : Placement) (node : Nat)

@[simp] theorem size_depth_release :
    (placement.release carried node).depth.size = placement.depth.size := by
  simp [release]

theorem waits_release (other : Nat) : (placement.release carried node).waits other =
    if other = node then placement.waits node - 1 else placement.waits other := by
  simp only [waits, release, Array.getD_eq_getD_getElem?, Array.getElem?_setIfInBounds]
  grind

theorem level_release {placement : Placement} {node : Nat} (less : node < placement.depth.size)
    (other : Nat) : (placement.release carried node).level other =
      if other = node then max carried (placement.level node) else placement.level other := by
  simp only [level, release, Array.getD_eq_getD_getElem?, Array.getElem?_modify]
  grind

theorem ready_release : (placement.release carried node).ready =
    if placement.waits node - 1 = 0 then insertAscending node placement.ready
    else placement.ready := rfl

/-- If every node waits for at least as many edges as are to be taken off, it still does after the
first of them. -/
theorem count_le_waits_release {placement : Placement} {first : Nat} {rest : List Nat}
    (counted : ∀ node, (first :: rest).count node ≤ placement.waits node) (node : Nat) :
    rest.count node ≤ (placement.release carried first).waits node := by
  have enough := counted node
  rw [List.count_cons] at enough
  rw [waits_release]
  by_cases same : node = first
  · subst same
    simp only [beq_self_eq_true, if_true] at enough ⊢
    omega
  · rw [if_neg same]
    omega

end Release

/-- Taking edges off the count, one by one. A node gets ready when the last edge to it is taken
off. -/
structure Released (carried : Nat) (nodes : List Nat) (before after : Placement) : Prop where
  order : after.order = before.order
  entries : after.entries = before.entries
  size : after.depth.size = before.depth.size
  waits : ∀ node, after.waits node = before.waits node - nodes.count node
  level : ∀ node, after.level node =
    if node ∈ nodes then max carried (before.level node) else before.level node
  ready : ∀ node, node ∈ after.ready ↔
    node ∈ before.ready ∨ node ∈ nodes ∧ before.waits node = nodes.count node
  ascending : after.ready.Pairwise (· < ·)

theorem released_foldl (carried : Nat) {nodes : List Nat} {before : Placement}
    (bounded : ∀ node ∈ nodes, node < before.depth.size)
    (counted : ∀ node, nodes.count node ≤ before.waits node)
    (idle : ∀ node ∈ before.ready, before.waits node = 0)
    (ascending : before.ready.Pairwise (· < ·)) :
    Released carried nodes before (nodes.foldl (release carried) before) := by
  induction nodes generalizing before with
  | nil =>
    exact ⟨rfl, rfl, rfl, by simp, by simp, by simp, ascending⟩
  | cons first rest ih =>
    have waiting : rest.count first + 1 ≤ before.waits first := by
      simpa using counted first
    have notReady : first ∉ before.ready := fun member => by
      have := idle first member
      omega
    have mem_ready (node : Nat) : node ∈ (before.release carried first).ready ↔
        node ∈ before.ready ∨ node = first ∧ before.waits first = 1 := by
      rw [ready_release]
      split
      · have : before.waits first = 1 := by omega
        simp [mem_insertAscending_iff, this, or_comm]
      · have : before.waits first ≠ 1 := by omega
        simp [this]
    have after_first : Released carried rest (before.release carried first)
        (rest.foldl (release carried) (before.release carried first)) := by
      refine ih ?_ (count_le_waits_release carried counted) ?_ ?_
      · simpa using (List.forall_mem_cons.mp bounded).2
      · intro node member
        rw [waits_release]
        rcases (mem_ready node).mp member with old | ⟨rfl, last⟩
        · have := idle node old
          grind
        · rw [if_pos rfl, last]
      · rw [ready_release]
        split
        · exact pairwise_insertAscending ascending notReady
        · exact ascending
    have level := level_release carried (List.forall_mem_cons.mp bounded).1
    constructor
    · exact after_first.order
    · exact after_first.entries
    · exact after_first.size.trans (size_depth_release carried before first)
    · intro node
      rw [List.foldl_cons, after_first.waits, waits_release, List.count_cons]
      grind
    · intro node
      rw [List.foldl_cons, after_first.level, level]
      grind
    · intro node
      rw [List.foldl_cons, after_first.ready, mem_ready, waits_release, List.count_cons]
      by_cases same : node = first
      · subst same
        have := @List.count_eq_zero _ _ _ node rest
        grind
      · grind
    · exact after_first.ascending

/-! ### Placing nodes -/

variable {graph : DependencyGraph}

/-- The level of a node is the greatest number of reactions up to one of its placed predecessors,
and zero if there is none. -/
structure IsLevel (graph : DependencyGraph) (placed : List Nat) (level : Nat → Nat)
    (node : Nat) : Prop where
  bound : ∀ predecessor ∈ graph.predecessors node, predecessor ∈ placed →
    level predecessor + graph.weight predecessor ≤ level node
  attained : level node = 0 ∨ ∃ predecessor ∈ graph.predecessors node, predecessor ∈ placed ∧
    level node = level predecessor + graph.weight predecessor

/-- What is true of a placement after every round. -/
structure Invariant (graph : DependencyGraph) (placement : Placement) : Prop where
  size : placement.depth.size = graph.nodes.length
  waits : ∀ node, placement.waits node = graph.pending placement.order node
  ready : placement.ready = graph.available placement.order
  distinct : placement.order.Nodup
  turns : graph.InTurn placement.order
  levels : ∀ node, IsLevel graph placement.order placement.level node
  reactions : placement.entries.map PriorityEntry.reaction =
    placement.order.filterMap graph.reactionAt?
  ranks : placement.entries.map (fun entry => entry.priority.rank) =
    List.range placement.entries.length
  entries : ∀ node ∈ placement.order, ∀ reaction ∈ graph.reactionAt? node,
    ∃ entry ∈ placement.entries, entry.reaction = reaction ∧
      entry.priority.level = placement.level node

/-- A node is put in the order, and ranked if it is a reaction, before anything that follows it is
released. -/
def enter (graph : DependencyGraph) (placement : Placement) (node : Nat) (ready : List Nat) :
    Placement :=
  { placement with
    ready, order := placement.order ++ [node]
    entries := placement.entries ++ (graph.reactionAt? node).toList.map fun reaction =>
      ⟨reaction, ⟨placement.entries.length, placement.level node⟩⟩ }

section Enter

variable (graph : DependencyGraph) (placement : Placement) (node : Nat) (ready : List Nat)

@[simp] theorem depth_enter : (placement.enter graph node ready).depth = placement.depth :=
  rfl

@[simp] theorem entries_enter : (placement.enter graph node ready).entries =
    placement.entries ++ (graph.reactionAt? node).toList.map fun reaction =>
      ⟨reaction, ⟨placement.entries.length, placement.level node⟩⟩ :=
  rfl

end Enter

theorem place_eq (placement : Placement) (node : Nat) (ready : List Nat) :
    placement.place graph node ready = (graph.successors node).foldl
      (release (placement.level node + graph.weight node))
      (placement.enter graph node ready) := by
  rw [place, weight, enter]
  cases graph.reactionAt? node with
  | none => simp [level]
  | some reaction => simp [level]

section WellFormed

variable (wellFormed : graph.WellFormed)
include wellFormed

theorem invariant_start : Invariant graph (start graph) where
  size := by simp [start]
  waits node := by
    by_cases less : node < graph.nodes.length
    · simp [start, waits, pending, less]
    · have none : graph.predecessors node = [] := List.eq_nil_iff_forall_not_mem.mpr
        fun source member => less (wellFormed.step_target_lt
          (mem_predecessors_iff.mp member))
      simp [start, waits, pending, less, none]
  ready := by
    refine List.filter_congr fun node _ => ?_
    rw [Bool.eq_iff_iff]
    simp [start, List.eq_nil_iff_forall_not_mem]
  distinct := .nil
  turns before node after placed := by simp [start] at placed
  levels node := by
    refine ⟨by simp [start], .inl ?_⟩
    by_cases less : node < graph.nodes.length <;> simp [start, level, less]
  reactions := rfl
  ranks := rfl
  entries := by simp [start]

end WellFormed

namespace Invariant

variable {placement : Placement} (inv : Invariant graph placement)
include inv

variable {node : Nat} {ready : List Nat} (isReady : placement.ready = node :: ready)
include isReady

theorem available_of_isReady : node ∈ graph.available placement.order :=
  inv.ready ▸ isReady ▸ List.mem_cons_self

theorem not_placed_of_mem_successors {successor : Nat} (member : successor ∈ graph.successors node) :
    successor ∉ placement.order ∧ successor ≠ node := by
  obtain ⟨-, notPlaced, closed⟩ := mem_available_iff.mp (inv.available_of_isReady isReady)
  have follows : node ∈ graph.predecessors successor :=
    mem_predecessors_iff.mpr (mem_successors_iff.mp member)
  constructor
  · exact fun placed => notPlaced (inv.turns.placed_of_mem_predecessors placed node follows)
  · exact fun same => notPlaced (closed node (same ▸ follows))

/-- What a node waits for is what it waits for without the node that is placed, and the edges from
that one. -/
theorem waits_eq (other : Nat) : placement.waits other =
    graph.pending (placement.order ++ [node]) other + (graph.successors node).count other := by
  have notPlaced := (mem_available_iff.mp (inv.available_of_isReady isReady)).2.1
  rw [inv.waits, count_successors, pending, pending]
  induction graph.predecessors other with
  | nil => rfl
  | cons first rest ih =>
    rw [List.countP_cons, List.countP_cons, List.count_cons, ih]
    by_cases same : first = node <;> grind

theorem count_successors_le_waits (other : Nat) :
    (graph.successors node).count other ≤ (placement.enter graph node ready).waits other :=
  (inv.waits_eq isReady other).symm ▸ Nat.le_add_left _ _

theorem released_place (wellFormed : graph.WellFormed) :
    Released (placement.level node + graph.weight node) (graph.successors node)
      (placement.enter graph node ready) (placement.place graph node ready) := by
  have ascending : (node :: ready).Pairwise (· < ·) := by
    rw [← isReady, inv.ready]
    exact List.pairwise_lt_range.filter _
  rw [place_eq]
  refine released_foldl _ ?_ (inv.count_successors_le_waits isReady) ?_ ascending.tail
  · intro successor member
    rw [depth_enter, inv.size]
    exact wellFormed.step_target_lt (mem_successors_iff.mp member)
  · intro other member
    have available : other ∈ graph.available placement.order :=
      inv.ready ▸ isReady ▸ List.mem_cons_of_mem node member
    have closed := (mem_available_iff.mp available).2.2
    exact (inv.waits other).trans (pending_eq_zero_iff.mpr closed)

section Advance

variable (wellFormed : graph.WellFormed)
include wellFormed

theorem order_place : (placement.place graph node ready).order = placement.order ++ [node] :=
  (inv.released_place isReady wellFormed).order

theorem waits_place (other : Nat) : (placement.place graph node ready).waits other =
    graph.pending (placement.order ++ [node]) other :=
  ((inv.released_place isReady wellFormed).waits other).trans
    (Nat.sub_eq_of_eq_add (inv.waits_eq isReady other))

theorem level_place {other : Nat} (placed : other ∈ placement.order ++ [node]) :
    (placement.place graph node ready).level other = placement.level other := by
  have isOther : other ∉ graph.successors node := by
    intro member
    obtain ⟨notBefore, differs⟩ := inv.not_placed_of_mem_successors isReady member
    rcases List.mem_append.mp placed with placed | placed
    · exact notBefore placed
    · exact differs (List.mem_singleton.mp placed)
  exact ((inv.released_place isReady wellFormed).level other).trans (if_neg isOther)

theorem ready_place : (placement.place graph node ready).ready =
    graph.available (placement.order ++ [node]) := by
  have released := inv.released_place isReady wellFormed
  obtain ⟨-, notPlaced, closed⟩ :=
    mem_available_iff.mp (inv.available_of_isReady isReady)
  have ascending : (node :: ready).Pairwise (· < ·) := by
    rw [← isReady, inv.ready]
    exact List.pairwise_lt_range.filter _
  refine released.ascending.eq_of_mem_iff (List.pairwise_lt_range.filter _) fun other => ?_
  rw [released.ready, mem_available_iff]
  constructor
  · rintro (old | ⟨member, last⟩)
    · have available : other ∈ graph.available placement.order :=
        inv.ready ▸ isReady ▸ List.mem_cons_of_mem node old
      obtain ⟨less, notBefore, closed⟩ := mem_available_iff.mp available
      have differs : other ≠ node := Nat.ne_of_gt (List.rel_of_pairwise_cons ascending old)
      exact ⟨less, by simp [notBefore, differs],
        fun predecessor member => List.mem_append_left _ (closed predecessor member)⟩
    · obtain ⟨notBefore, differs⟩ := inv.not_placed_of_mem_successors isReady member
      refine ⟨wellFormed.step_target_lt (mem_successors_iff.mp member),
        by simp [notBefore, differs], ?_⟩
      exact pending_eq_zero_iff.mp ((inv.waits_place isReady wellFormed other).symm.trans
        ((released.waits other).trans (Nat.sub_eq_zero_of_le last.le)))
  · rintro ⟨less, notAfter, closed⟩
    obtain ⟨notBefore, differs⟩ : other ∉ placement.order ∧ other ≠ node := by
      simpa using notAfter
    by_cases member : other ∈ graph.successors node
    · refine .inr ⟨member, ?_⟩
      have waits := inv.waits_eq isReady other
      rwa [pending_eq_zero_iff.mpr closed, Nat.zero_add] at waits
    · left
      have available : other ∈ node :: ready := by
        rw [← isReady, inv.ready, mem_available_iff]
        refine ⟨less, notBefore, fun predecessor isPredecessor => ?_⟩
        have differ : predecessor ≠ node := by
          rintro rfl
          exact member (mem_successors_iff.mpr
            (mem_predecessors_iff.mp isPredecessor))
        simpa [differ] using closed predecessor isPredecessor
      exact (List.mem_cons.mp available).resolve_left differs

theorem isLevel_place (other : Nat) : IsLevel graph (placement.order ++ [node])
    (placement.place graph node ready).level other := by
  have released : (placement.place graph node ready).level other =
      if other ∈ graph.successors node then
        max (placement.level node + graph.weight node) (placement.level other)
      else placement.level other := (inv.released_place isReady wellFormed).level other
  have follows : other ∈ graph.successors node ↔ node ∈ graph.predecessors other := by
    rw [mem_successors_iff, mem_predecessors_iff]
  have level_node : (placement.place graph node ready).level node = placement.level node :=
    inv.level_place isReady wellFormed (by simp)
  obtain ⟨bound, attained⟩ := inv.levels other
  constructor
  · intro predecessor member placed
    rw [inv.level_place isReady wellFormed placed, released]
    rcases List.mem_append.mp placed with before | last
    · have := bound predecessor member before
      split <;> omega
    · obtain rfl := List.mem_singleton.mp last
      rw [if_pos (follows.mpr member)]
      exact Nat.le_max_left _ _
  · have old : placement.level other = 0 ∨ ∃ predecessor ∈ graph.predecessors other,
        predecessor ∈ placement.order ++ [node] ∧ placement.level other =
          (placement.place graph node ready).level predecessor + graph.weight predecessor := by
      refine attained.imp_right ?_
      rintro ⟨predecessor, member, placed, level_eq⟩
      have placed := List.mem_append_left [node] placed
      exact ⟨predecessor, member, placed, by rw [level_eq, inv.level_place isReady wellFormed placed]⟩
    rw [released]
    split
    · next member =>
      rcases Nat.le_total (placement.level node + graph.weight node) (placement.level other) with
        le | le
      · rwa [Nat.max_eq_right le]
      · rw [Nat.max_eq_left le]
        exact .inr ⟨node, follows.mp member, by simp, by rw [level_node]⟩
    · exact old

/-- Placing a node that is ready keeps everything as it should be. -/
theorem advance : Invariant graph (placement.place graph node ready) := by
  have released := inv.released_place isReady wellFormed
  have order := inv.order_place isReady wellFormed
  constructor
  · exact released.size.trans inv.size
  · intro other
    rw [order, inv.waits_place isReady wellFormed]
  · rw [order, inv.ready_place isReady wellFormed]
  · rw [order]
    have notPlaced := (mem_available_iff.mp (inv.available_of_isReady isReady)).2.1
    exact (List.perm_append_singleton node placement.order).nodup_iff.mpr
      (List.nodup_cons.mpr ⟨notPlaced, inv.distinct⟩)
  · intro before current after placed
    rw [order] at placed
    rcases List.eq_nil_or_concat after with rfl | ⟨init, last, rfl⟩
    · obtain ⟨rfl, same⟩ := List.append_inj' placed rfl
      cases same
      rw [← inv.ready, isReady, List.head?_cons]
    · rw [List.concat_eq_append, ← List.cons_append, ← List.append_assoc] at placed
      exact inv.turns before current init (List.append_inj' placed rfl).1
  · intro other
    rw [order]
    exact inv.isLevel_place isReady wellFormed other
  · rw [released.entries, entries_enter, order, List.map_append, inv.reactions,
      List.filterMap_append]
    cases reaction : graph.reactionAt? node <;> simp [reaction]
  · rw [released.entries, entries_enter]
    cases graph.reactionAt? node with
    | none => simpa using inv.ranks
    | some reaction => simp [inv.ranks, List.range_succ]
  · intro other placed reaction found
    rw [order] at placed
    rw [released.entries, inv.level_place isReady wellFormed placed]
    rcases List.mem_append.mp placed with before | last
    · obtain ⟨entry, member, same⟩ := inv.entries other before reaction found
      exact ⟨entry, List.mem_append_left _ member, same⟩
    · obtain rfl := List.mem_singleton.mp last
      refine ⟨_, List.mem_append_right _ (List.mem_map_of_mem (Option.mem_toList.mpr found)), ?_⟩
      exact ⟨rfl, rfl⟩

end Advance

end Invariant

/-- Placing goes on until no node is ready or all rounds are over. -/
theorem invariant_run (wellFormed : graph.WellFormed) {rounds : Nat} {placement : Placement}
    (inv : Invariant graph placement) : Invariant graph (run graph rounds placement) ∧
      ((run graph rounds placement).ready = [] ∨
        (run graph rounds placement).order.length = placement.order.length + rounds) := by
  induction rounds generalizing placement with
  | zero => exact ⟨inv, .inr rfl⟩
  | succ rounds ih =>
    rw [run]
    split
    · next none => exact ⟨inv, .inl none⟩
    · next node ready isReady =>
      obtain ⟨after, ended⟩ := ih (inv.advance isReady wellFormed)
      refine ⟨after, ended.imp_right fun length => ?_⟩
      rw [length, inv.order_place isReady wellFormed, List.length_append, List.length_singleton,
        Nat.add_assoc, Nat.add_comm 1]

end Placement

end ReactorCausality
