import Mathlib.Data.List.Chain
import ReactorCausality.Proofs.Index.Lookups

/-!
When hierarchical names tell reactors apart. Nothing keeps a program from giving two reactors one
hierarchical name, since names may be repeated and may hold dots. The ways down to two such reactors part
at two children of one reactor, and the rest of the name goes on with a dot behind the name of either. So
there are no such reactors where no name of a child, followed by a dot, begins the name of a sibling,
followed by a dot (`path_injective`).
-/
namespace ReactorCausality

namespace Reactor

/-- Neither name begins the other as far as a dot. -/
def Apart (left right : Reactor) : Prop :=
  ¬left.name.toList ++ ['.'] <+: right.name.toList ++ ['.'] ∧
    ¬right.name.toList ++ ['.'] <+: left.name.toList ++ ['.']

instance : Std.Symm Apart :=
  ⟨fun _ _ => And.symm⟩

/-- What the reactors on a way down add to a hierarchical name. -/
def joined (way : List Reactor) : List Char :=
  way.flatMap fun reactor => '.' :: reactor.name.toList

/-- What is joined to a name begins with a dot, unless it is nothing. -/
theorem dot_prefix_of_prefix_joined {tail : List Char} {way : List Reactor}
    (begins : tail <+: joined way) : ['.'] <+: tail ++ ['.'] := by
  cases tail with
  | nil => exact List.prefix_rfl
  | cons char tail =>
    cases way with
    | nil => exact nomatch List.prefix_nil.mp begins
    | cons reactor way =>
      rw [joined, List.flatMap_cons, List.cons_append, List.cons_prefix_cons] at begins
      exact List.cons_prefix_cons.mpr ⟨begins.1.symm, List.nil_prefix⟩

/-- Names that are apart stay different, whatever is joined to them. -/
theorem Apart.append_joined_ne {left right : Reactor} (apart : left.Apart right)
    (leftWay rightWay : List Reactor) :
    left.name.toList ++ joined leftWay ≠ right.name.toList ++ joined rightWay := by
  intro same
  rcases List.append_eq_append_iff.mp same with ⟨tail, name, rest⟩ | ⟨tail, name, rest⟩
  · refine apart.1 ?_
    rw [name, List.append_assoc, List.prefix_append_right_inj]
    exact dot_prefix_of_prefix_joined ⟨_, rest.symm⟩
  · refine apart.2 ?_
    rw [name, List.append_assoc, List.prefix_append_right_inj]
    exact dot_prefix_of_prefix_joined ⟨_, rest.symm⟩

end Reactor

namespace Program

variable {program : Program} {reactor other : Reactor} {above otherAbove : List Reactor}

/-- The names of siblings are apart. -/
def NamesApart (program : Program) : Prop :=
  ∀ reactor ∈ program.reactors, reactor.children.Pairwise Reactor.Apart

/-- Different names without dots are apart. -/
theorem namesApart_of_undotted
    (distinct : ∀ reactor ∈ program.reactors, (reactor.children.map Reactor.name).Nodup)
    (undotted : ∀ reactor ∈ program.reactors, ∀ child ∈ reactor.children, '.' ∉ child.name.toList) :
    program.NamesApart := by
  have not_begins {left right : Reactor} (differ : left.name ≠ right.name)
      (undotted : '.' ∉ right.name.toList) :
      ¬left.name.toList ++ ['.'] <+: right.name.toList ++ ['.'] := by
    intro begins
    rcases List.prefix_concat_iff.mp begins with same | inside
    · exact differ (String.toList_inj.mp (List.append_cancel_right same))
    · exact undotted (inside.subset (by simp))
  intro reactor known
  have differ := List.pairwise_map.mp (distinct reactor known)
  exact differ.imp_of_mem fun {left right} isLeft isRight differ =>
    ⟨not_begins differ (undotted reactor known right isRight),
      not_begins differ.symm (undotted reactor known left isLeft)⟩

namespace Lineage

theorem isChain (lineage : program.Lineage reactor above) :
    (reactor :: above).IsChain fun child parent => child ∈ parent.children := by
  induction lineage with
  | main => exact .singleton _
  | child _ isChild ih => exact .cons_cons isChild ih

/-- A hierarchical name is that of the main reactor with those on the way down joined to it. -/
theorem exists_way (lineage : program.Lineage reactor above) :
    ∃ way, (reactor :: above).reverse = program.main :: way ∧
      (Reactor.path (reactor :: above)).toList = program.main.name.toList ++ Reactor.joined way := by
  induction lineage with
  | main => exact ⟨[], rfl, by simp [Reactor.path, Reactor.joined]⟩
  | @child reactor child above _ _ ih =>
    obtain ⟨way, isWay, name⟩ := ih
    refine ⟨way ++ [child], ?_, ?_⟩
    · rw [List.reverse_cons, isWay, List.cons_append]
    · rw [Reactor.path_cons]
      simp [name, Reactor.joined]

/-- A reactor has a shorter hierarchical name than those below it. -/
theorem exists_length_path_lt (lineage : program.Lineage reactor above) (isAbove : other ∈ above) :
    ∃ otherAbove, program.Lineage other otherAbove ∧
      (Reactor.path (other :: otherAbove)).length < (Reactor.path (reactor :: above)).length := by
  induction lineage with
  | main => contradiction
  | @child reactor child above lineage _ ih =>
    have shorter : (Reactor.path (reactor :: above)).length <
        (Reactor.path (child :: reactor :: above)).length := by
      have dot : ".".length = 1 := rfl
      rw [Reactor.path_cons, String.length_append, String.length_append, dot]
      omega
    rcases List.mem_cons.mp isAbove with rfl | further
    · exact ⟨above, lineage, shorter⟩
    · obtain ⟨otherAbove, another, less⟩ := ih further
      exact ⟨otherAbove, another, less.trans shorter⟩

theorem exists_lineage_of_mem (lineage : program.Lineage reactor above)
    (onWay : other ∈ reactor :: above) : ∃ otherAbove, program.Lineage other otherAbove := by
  rcases List.mem_cons.mp onWay with rfl | isAbove
  · exact ⟨above, lineage⟩
  · exact (lineage.exists_length_path_lt isAbove).imp fun _ => And.left

end Lineage

end Program

namespace Index.LaysOut

variable {index : Index} {program : Program} (laidOut : index.LaysOut program)
include laidOut

theorem mem_program_reactors_of_child {reactor child : Reactor} (known : reactor ∈ program.reactors)
    (isChild : child ∈ reactor.children) : child ∈ program.reactors := by
  obtain ⟨above, lineage⟩ := laidOut.mem_program_reactors_iff.mp known
  exact laidOut.mem_program_reactors_iff.mpr ⟨_, .child lineage isChild⟩

section Apart

variable (apart : program.NamesApart)
include apart

/-- Two ways down from a reactor that join the same to its name are one. They cannot part at siblings. -/
theorem way_unique {reactor : Reactor} (known : reactor ∈ program.reactors) {way other : List Reactor}
    (isWay : (reactor :: way).IsChain fun parent child => child ∈ parent.children)
    (isOther : (reactor :: other).IsChain fun parent child => child ∈ parent.children)
    (same : Reactor.joined way = Reactor.joined other) : way = other := by
  induction way generalizing reactor other with
  | nil =>
    cases other with
    | nil => rfl
    | cons child other => simp [Reactor.joined] at same
  | cons left way ih =>
    cases other with
    | nil => simp [Reactor.joined] at same
    | cons right other =>
      obtain ⟨isLeft, isWay⟩ := List.isChain_cons_cons.mp isWay
      obtain ⟨isRight, isOther⟩ := List.isChain_cons_cons.mp isOther
      have same : left.name.toList ++ Reactor.joined way = right.name.toList ++ Reactor.joined other := by
        simpa [Reactor.joined] using same
      have one : left = right := by
        by_contra two
        exact ((apart reactor known).forall isLeft isRight two).append_joined_ne way other same
      subst one
      rw [ih (laidOut.mem_program_reactors_of_child known isLeft) isWay isOther
        (List.append_cancel_left same)]

/-- Where the names of siblings are apart, no two reactors have one hierarchical name. -/
theorem path_injective {reactor other : Reactor} {above otherAbove : List Reactor}
    (lineage : program.Lineage reactor above) (another : program.Lineage other otherAbove)
    (same : Reactor.path (reactor :: above) = Reactor.path (other :: otherAbove)) :
    reactor = other := by
  obtain ⟨way, isWay, name⟩ := lineage.exists_way
  obtain ⟨otherWay, isOther, otherName⟩ := another.exists_way
  have ways : way = otherWay := by
    refine laidOut.way_unique apart (laidOut.mem_program_reactors_iff.mpr ⟨_, .main⟩) ?_ ?_ ?_
    · exact isWay ▸ List.isChain_reverse.mpr lineage.isChain
    · exact isOther ▸ List.isChain_reverse.mpr another.isChain
    · exact List.append_cancel_left (name.symm.trans (same ▸ otherName))
  have lineages := List.reverse_injective (isWay.trans (ways ▸ isOther.symm))
  exact List.head_eq_of_cons_eq lineages

end Apart

end Index.LaysOut

end ReactorCausality
