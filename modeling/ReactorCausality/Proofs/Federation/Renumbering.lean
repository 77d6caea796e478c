import Mathlib.Data.List.Sort
import Mathlib.Data.String.Basic
import ReactorCausality.Proofs.Federation.Assignments
import ReactorCausality.Proofs.Graph.Builder
import ReactorCausality.Proofs.Renaming.Injective

/-!
Partitions that number their federates differently. Every reactor goes to the same federate under its
other number (`Renumbers.federateOf_eq`), so the same programs are federated, and the problems of the
partitions are the same.
-/
namespace ReactorCausality

/-! ### Pairs and sorted lists in another order -/

section Lookup

variable {κ ν : Type} [DecidableEq κ] {pairs others : List (κ × ν)}

theorem lookup_eq_some_iff_mem (distinct : (pairs.map Prod.fst).Nodup) {key : κ} {value : ν} :
    pairs.lookup key = some value ↔ (key, value) ∈ pairs := by
  induction pairs with
  | nil => simp
  | cons pair rest ih =>
    obtain ⟨first, found⟩ := pair
    obtain ⟨isNew, distinct⟩ := List.nodup_cons.mp distinct
    rw [lookup_cons_eq_ite, List.mem_cons, Prod.mk.injEq]
    split
    · next same =>
      subst same
      have notLater : (first, value) ∉ rest := fun later => isNew (List.mem_map.mpr ⟨_, later, rfl⟩)
      simp [notLater, eq_comm]
    · next differ => rw [ih distinct, or_iff_right fun same => differ same.1.symm]

/-- Where no key is there twice, the order of the pairs does not matter. -/
theorem lookup_eq_of_perm (perm : pairs.Perm others) (distinct : (pairs.map Prod.fst).Nodup)
    (key : κ) : pairs.lookup key = others.lookup key := by
  ext value
  rw [lookup_eq_some_iff_mem distinct,
    lookup_eq_some_iff_mem ((perm.map _).nodup_iff.mp distinct), perm.mem_iff]

theorem lookup_map_snd {μ : Type} (f : ν → μ) (pairs : List (κ × ν)) (key : κ) :
    (pairs.map fun pair => (pair.1, f pair.2)).lookup key = (pairs.lookup key).map f := by
  induction pairs with
  | nil => rfl
  | cons pair rest ih =>
    rw [List.map_cons, lookup_cons_eq_ite, ih, ← Prod.mk.eta (p := pair), lookup_cons_eq_ite]
    split <;> rfl

end Lookup

theorem mergeSort_eq_of_perm {α : Type} {le : α → α → Bool}
    (trans : ∀ a b c, le a b → le b c → le a c) (total : ∀ a b, le a b || le b a)
    (antisymm : ∀ a b, le a b → le b a → a = b) {list other : List α} (perm : list.Perm other) :
    list.mergeSort le = other.mergeSort le := by
  refine List.Perm.eq_of_pairwise (fun a b _ _ => antisymm a b) (List.pairwise_mergeSort trans total _)
    (List.pairwise_mergeSort trans total _) ?_
  exact (List.mergeSort_perm _ _).trans (perm.trans (List.mergeSort_perm _ _).symm)

theorem mergeSort_ids_eq_of_perm {kind : Entity} {ids others : List (EntityId kind)}
    (perm : ids.Perm others) :
    ids.mergeSort EntityId.precedes = others.mergeSort EntityId.precedes := by
  refine mergeSort_eq_of_perm (fun a b c => ?_) (fun a b => ?_) (fun a b => ?_) perm
  · simpa [EntityId.precedes] using UInt32.le_trans
  · simpa [EntityId.precedes] using UInt32.le_total a.number b.number
  · intro before after
    have same : a.number = b.number :=
      UInt32.le_antisymm (of_decide_eq_true before) (of_decide_eq_true after)
    cases a
    cases b
    exact congrArg EntityId.mk same

theorem mergeSort_texts_eq_of_perm {texts others : List String} (perm : texts.Perm others) :
    (texts.mergeSort fun left right => left ≤ right) =
      others.mergeSort fun left right => left ≤ right := by
  refine mergeSort_eq_of_perm (fun a b c => ?_) (fun a b => ?_) (fun a b => ?_) perm
  · simpa using le_trans
  · simpa using le_total a b
  · simpa using le_antisymm

namespace Partition.Renumbers

variable {left right : Partition} {renumber : FederateId → FederateId}
  (renumbers : left.Renumbers right renumber) (index : Index)
include renumbers

omit index in
theorem perm_reactors : (right.byReactor.map Prod.fst).Perm (left.byReactor.map Prod.fst) :=
  (renumbers.byReactor.map Prod.fst).trans (.of_eq List.map_map)

omit index in
theorem perm_paths : (right.byPath.map Prod.fst).Perm (left.byPath.map Prod.fst) :=
  (renumbers.byPath.map Prod.fst).trans (.of_eq List.map_map)

theorem assigned?_eq (reactor : ReactorId) :
    right.assigned? index reactor = (left.assigned? index reactor).map renumber := by
  have distinctReactors := renumbers.perm_reactors.nodup_iff.mpr renumbers.distinctReactors
  have distinctPaths := renumbers.perm_paths.nodup_iff.mpr renumbers.distinctPaths
  rw [assigned?, lookup_eq_of_perm renumbers.byReactor distinctReactors,
    lookup_eq_of_perm renumbers.byPath distinctPaths, lookup_map_snd, lookup_map_snd, assigned?]
  cases left.byReactor.lookup reactor <;> rfl

theorem federateOf_eq (reactor : ReactorId) :
    right.federateOf index reactor = renumber (left.federateOf index reactor) := by
  have assigned : right.assigned? index = fun reactor =>
      (left.assigned? index reactor).map renumber := funext (renumbers.assigned?_eq index)
  have nearest : (index.ancestorsOrSelf reactor).findSome? (right.assigned? index) =
      ((index.ancestorsOrSelf reactor).findSome? (left.assigned? index)).map renumber := by
    rw [assigned, List.map_findSome?]
    rfl
  rw [federateOf, federateOf, nearest]
  cases (index.ancestorsOrSelf reactor).findSome? (left.assigned? index) with
  | none => exact renumbers.unassigned.symm
  | some id => rfl

/-- Every reactor goes to a federate with the same name. -/
theorem federateName_federateOf (reactor : ReactorId) :
    right.federateName (right.federateOf index reactor) =
      left.federateName (left.federateOf index reactor) := by
  rw [renumbers.federateOf_eq, renumbers.named]

theorem isFederated_eq : right.isFederated index = left.isFederated index := by
  have federates : right.federates index = (left.federates index).map renumber := by
    simp only [Partition.federates, renumbers.federateOf_eq, ← distinct_map renumbers.injective,
      List.map_map, Function.comp_def]
  rw [isFederated, isFederated, federates, List.length_map]

theorem problems_eq : right.problems index = left.problems index := by
  rw [problems, problems]
  rw [mergeSort_ids_eq_of_perm (renumbers.perm_reactors.filter _),
    mergeSort_texts_eq_of_perm (renumbers.perm_paths.filter _)]

end Partition.Renumbers

end ReactorCausality
