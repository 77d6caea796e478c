import Mathlib.Data.List.Sort
import ReactorCausality.Proofs.Search.ClosedWalk
import ReactorCausality.Search.Component

/-!
Strongly connected components, and lists of them in which every edge that leaves a component leads to
one that was listed before (`Listed`). In such a list no component has a vertex in common with another,
and no edge leads from a component to one that was listed later.
-/
namespace ReactorCausality

namespace Component

open BreadthFirst Relation

/-- The vertices that are linked to one of them, in ascending order. -/
structure IsComponent (count : Nat) (next : Nat → List Nat) (members : List Nat) : Prop where
  ascending : members.Pairwise (· < ·)
  nonempty : members ≠ []
  exactly : ∀ vertex ∈ members, ∀ other,
    other ∈ members ↔ other < count ∧ Linked (Leads next (List.range count)) vertex other

variable {count : Nat} {next : Nat → List Nat}

namespace IsComponent

variable {members : List Nat} (component : IsComponent count next members)
include component

/-- A vertex is in one component only. -/
theorem eq_of_mem {others : List Nat} (other : IsComponent count next others) {vertex : Nat}
    (inside : vertex ∈ members) (insideToo : vertex ∈ others) : members = others := by
  refine component.ascending.eq_of_mem_iff other.ascending fun third => ?_
  rw [component.exactly vertex inside, other.exactly vertex insideToo]

/-- A component is cyclic if one of its vertices can be reached from itself by at least one step. -/
theorem isCyclic_iff : isCyclic next members ↔
    ∃ vertex ∈ members, TransGen (Leads next (List.range count)) vertex vertex := by
  obtain ⟨ascending, nonempty, exactly⟩ := component
  match members with
  | [only] =>
    have less : only < count := ((exactly only (by simp) only).mp (by simp)).1
    simp only [isCyclic, List.contains_iff_mem, List.mem_singleton, exists_eq_left]
    constructor
    · exact fun loops => .single ⟨loops, List.mem_range.mpr less⟩
    · intro reaches
      obtain ⟨vertex, leads, back⟩ := TransGen.head'_iff.mp reaches
      have inside : vertex ∈ [only] := (exactly only (by simp) vertex).mpr
        ⟨List.mem_range.mp leads.2, .single leads, back⟩
      exact List.mem_singleton.mp inside ▸ leads.1
  | first :: second :: rest =>
    refine ⟨fun _ => ⟨first, by simp, ?_⟩, fun _ => rfl⟩
    have differ : first ≠ second := Nat.ne_of_lt (List.rel_of_pairwise_cons ascending (by simp))
    obtain ⟨-, there, back⟩ := (exactly first (by simp) second).mp (by simp)
    have there : TransGen (Leads next (List.range count)) first second :=
      (reflTransGen_iff_eq_or_transGen.mp there).resolve_left (Ne.symm differ)
    exact there.trans_left back

end IsComponent

/-! ### Lists of components -/

/-- Components that are listed one after the other, the latest first. What an edge from a component
leads to is in the component or has been listed before it. -/
inductive Listed (count : Nat) (next : Nat → List Nat) : List (List Nat) → Prop
  | nil : Listed count next []
  | cons {members : List Nat} {listed : List (List Nat)} (before : Listed count next listed)
      (component : IsComponent count next members)
      (isNew : ∀ vertex ∈ members, vertex ∉ listed.flatten)
      (closed : ∀ vertex ∈ members, ∀ target, Leads next (List.range count) vertex target →
        target ∈ members ∨ target ∈ listed.flatten) :
      Listed count next (members :: listed)

namespace Listed

variable {listed : List (List Nat)} (inOrder : Listed count next listed)
include inOrder

theorem isComponent : ∀ members ∈ listed, IsComponent count next members := by
  induction inOrder with
  | nil => simp
  | cons _ component _ _ ih => exact List.forall_mem_cons.mpr ⟨component, ih⟩

theorem mem_flatten_of_leads {source target : Nat} (leads : Leads next (List.range count) source target)
    (isListed : source ∈ listed.flatten) : target ∈ listed.flatten := by
  induction inOrder with
  | nil => simp at isListed
  | cons _ _ _ closed ih =>
    rw [List.flatten_cons, List.mem_append] at isListed ⊢
    rcases isListed with latest | before
    · exact closed source latest target leads
    · exact .inr (ih before)

/-- Nothing that is listed leads out of what is listed. -/
theorem mem_flatten_of_reaches {source target : Nat}
    (reaches : ReflTransGen (Leads next (List.range count)) source target)
    (isListed : source ∈ listed.flatten) : target ∈ listed.flatten := by
  induction reaches with
  | refl => exact isListed
  | tail _ leads ih => exact inOrder.mem_flatten_of_leads leads ih

theorem pairwise_disjoint : listed.Pairwise List.Disjoint := by
  induction inOrder with
  | nil => exact .nil
  | cons _ _ isNew _ ih =>
    refine List.pairwise_cons.mpr ⟨fun others isOther vertex inside insideToo => ?_, ih⟩
    exact isNew vertex inside (List.mem_flatten_of_mem isOther insideToo)

/-- No edge leads from a component to one that was listed later. -/
theorem pairwise_not_leads : listed.Pairwise fun later earlier =>
    ∀ source ∈ earlier, ∀ target ∈ later, ¬ Leads next (List.range count) source target := by
  induction inOrder with
  | nil => exact .nil
  | cons before _ isNew _ ih =>
    refine List.pairwise_cons.mpr ⟨fun earlier isEarlier source inside target isNewest leads => ?_, ih⟩
    exact isNew target isNewest
      (before.mem_flatten_of_leads leads (List.mem_flatten_of_mem isEarlier inside))

theorem nodup_flatten : listed.flatten.Nodup :=
  List.nodup_flatten.mpr ⟨fun members member => ((inOrder.isComponent members member).ascending.imp
    Nat.ne_of_lt), inOrder.pairwise_disjoint⟩

end Listed

end Component

end ReactorCausality
