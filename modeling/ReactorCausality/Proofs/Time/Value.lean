import ReactorCausality.Time.Value

/-!
The order of durations. Durations are ordered as their counts of nanoseconds are, so among some durations
there is a longest (`List.max?_eq_some_iff`). `forever` is the largest duration and absorbs whatever is
finite: a maximum is `forever` as soon as one of the durations is, and a difference is `forever` if only
the first one is. A difference gets no smaller when there is more to take from or less to take away
(`sub_le_sub`).
-/
namespace ReactorCausality

namespace TimeValue

theorem isZero_iff {value : TimeValue} : value.isZero ↔ value = .zero := by
  obtain ⟨nanos⟩ := value
  simp [isZero, zero]

theorem isForever_iff {value : TimeValue} : value.isForever ↔ value = .forever := by
  rw [isForever, beq_iff_eq]

theorem eq_forever_iff {value : TimeValue} :
    value = .forever ↔ value.nanos.toNat = UInt64.size - 1 := by
  obtain ⟨nanos⟩ := value
  rw [forever, mk.injEq, ← UInt64.toNat_inj]
  rfl

theorem le_iff {left right : TimeValue} : left ≤ right ↔ left.nanos.toNat ≤ right.nanos.toNat :=
  Iff.rfl

theorem eq_of_toNat_eq {left right : TimeValue} (same : left.nanos.toNat = right.nanos.toNat) :
    left = right :=
  congrArg mk (UInt64.toNat_inj.mp same)

instance : Std.IsLinearOrder TimeValue where
  le_refl value := Nat.le_refl value.nanos.toNat
  le_trans _ _ _ := Nat.le_trans
  le_antisymm _ _ le ge := eq_of_toNat_eq (Nat.le_antisymm le ge)
  le_total left right := Nat.le_total left.nanos.toNat right.nanos.toNat

theorem le_forever (value : TimeValue) : value ≤ .forever :=
  Nat.le_pred_of_lt value.nanos.toNat_lt

theorem eq_forever_of_le {value : TimeValue} (le : .forever ≤ value) : value = .forever :=
  Std.le_antisymm (le_forever value) le

/-! ### The longest duration -/

theorem toNat_max (left right : TimeValue) :
    (max left right).nanos.toNat = max left.nanos.toNat right.nanos.toNat := by
  have max_eq : max left right = if left ≤ right then right else left := rfl
  rw [max_eq]
  split
  · next le => exact (Nat.max_eq_right le).symm
  · next notLe => exact (Nat.max_eq_left (Nat.le_of_not_le notLe)).symm

instance : Std.LawfulOrderMax TimeValue where
  max_eq_or left right := by
    rcases Nat.le_total left.nanos.toNat right.nanos.toNat with le | ge
    · exact .inr (eq_of_toNat_eq ((toNat_max left right).trans (Nat.max_eq_right le)))
    · exact .inl (eq_of_toNat_eq ((toNat_max left right).trans (Nat.max_eq_left ge)))
  max_le_iff left right bound := by
    rw [le_iff, toNat_max, Nat.max_le]
    rfl

theorem max_eq_forever_iff {left right : TimeValue} :
    max left right = .forever ↔ left = .forever ∨ right = .forever := by
  have less (value : TimeValue) : value.nanos.toNat ≤ UInt64.size - 1 := le_forever value
  rw [eq_forever_iff, eq_forever_iff, eq_forever_iff, toNat_max]
  have := less left
  have := less right
  omega

theorem max?_eq_forever_iff {values : List TimeValue} :
    values.max? = some .forever ↔ .forever ∈ values := by
  rw [List.max?_eq_some_iff]
  exact and_iff_left fun value _ => le_forever value

/-- The longest duration does not depend on the order in which durations are listed. -/
theorem max?_eq_of_perm {values others : List TimeValue} (perm : values.Perm others) :
    values.max? = others.max? := by
  ext longest
  simp only [List.max?_eq_some_iff, perm.mem_iff]

/-! ### Differences -/

/-- What is finite takes nothing away from `forever`. -/
theorem sub_of_absorbed {base delay : TimeValue} (endless : base = .forever)
    (finite : delay ≠ .forever) : base.sub delay = .forever := by
  subst endless
  have notForever : delay.isForever = false := by rwa [← Bool.not_eq_true, isForever_iff]
  exact if_pos (by rw [notForever]; rfl)

theorem toNat_sub {base delay : TimeValue} (counted : base = .forever → delay = .forever) :
    (base.sub delay).nanos.toNat = base.nanos.toNat - delay.nanos.toNat := by
  have sub_eq : base.sub delay = ⟨UInt64.ofNat (base.nanos.toNat - delay.nanos.toNat)⟩ := by
    refine if_neg fun absorbed => ?_
    rw [Bool.and_eq_true, isForever_iff, Bool.not_eq_true', ← Bool.not_eq_true, isForever_iff] at absorbed
    exact absorbed.2 (counted absorbed.1)
  rw [sub_eq]
  exact UInt64.toNat_ofNat_of_lt' (Nat.lt_of_le_of_lt (Nat.sub_le _ _) base.nanos.toNat_lt)

/-- What is taken away from a finite duration leaves less than `forever`. -/
theorem sub_eq_forever_iff {base delay : TimeValue} :
    base.sub delay = .forever ↔ base = .forever ∧ delay ≠ .forever := by
  by_cases counted : base = .forever → delay = .forever
  · refine iff_of_false (fun endless => ?_) fun absorbed => absorbed.2 (counted absorbed.1)
    have sub_le : base.sub delay ≤ base := by
      rw [le_iff, toNat_sub counted]
      exact Nat.sub_le _ _
    have isForever : base = .forever := eq_forever_of_le (endless ▸ sub_le)
    rw [isForever, counted isForever] at endless
    exact absurd endless (by decide)
  · obtain ⟨endless, finite⟩ := Classical.not_imp.mp counted
    exact iff_of_true (sub_of_absorbed endless finite) ⟨endless, finite⟩

theorem sub_le_sub {base more delay less : TimeValue} (longer : base ≤ more) (earlier : less ≤ delay) :
    base.sub delay ≤ more.sub less := by
  by_cases counted : more = .forever → less = .forever
  · have countedToo : base = .forever → delay = .forever := by
      rintro rfl
      exact eq_forever_of_le (counted (eq_forever_of_le longer) ▸ earlier)
    rw [le_iff, toNat_sub counted, toNat_sub countedToo]
    exact Nat.le_trans (Nat.sub_le_sub_right longer _) (Nat.sub_le_sub_left earlier _)
  · obtain ⟨endless, finite⟩ := Classical.not_imp.mp counted
    rw [sub_of_absorbed endless finite]
    exact le_forever _

end TimeValue

end ReactorCausality
