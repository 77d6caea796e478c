import ReactorCausality.Program.Interchange
import ReactorCausality.Proofs.Json.Decode

/-!
The canonical text of a duration. Of all the texts that are read as one duration exactly one is written:
it counts the longest unit that divides the duration, no other duration is written like it, and once a text
has been read and written again it does not change any more, be it alone or inside a JSON document
(`literals_are_canonical`).
-/
namespace ReactorCausality

theorem TimeUnit.pairwise_descending :
    descending.Pairwise fun longer shorter => shorter.nanos < longer.nanos := by
  decide

namespace TimeValue

theorem literal_injective : Function.Injective literal := by
  intro left right same
  have read := left.parse_literal
  rw [same, right.parse_literal] at read
  exact (Except.ok.inj read).symm

/-- Since a nanosecond divides every duration, there is a unit that does. -/
theorem find?_unit (value : TimeValue) :
    TimeUnit.descending.find? (fun unit => value.nanos.toNat % unit.nanos == 0) = some value.unit := by
  cases found : TimeUnit.descending.find? fun unit => value.nanos.toNat % unit.nanos == 0 with
  | none => simpa [TimeUnit.nanos, Nat.mod_one] using
      List.find?_eq_none.mp found .nsec (TimeUnit.mem_descending _)
  | some unit => rw [TimeValue.unit, found, Option.getD_some]

/-- The unit under which a duration is written is the longest that divides it. -/
theorem nanos_le_unit {value : TimeValue} {other : TimeUnit}
    (divides : other.nanos ∣ value.nanos.toNat) : other.nanos ≤ value.unit.nanos := by
  obtain ⟨-, longer, shorter, whole, refused⟩ := List.find?_eq_some_iff_append.mp value.find?_unit
  have listed := TimeUnit.mem_descending other
  have ordered := TimeUnit.pairwise_descending
  rw [whole] at listed ordered
  rcases List.mem_append.mp listed with before | behind
  · simpa [Nat.mod_eq_zero_of_dvd divides] using refused other before
  · rcases List.mem_cons.mp behind with rfl | behind
    · exact Nat.le_refl _
    · have below := (List.pairwise_append.mp ordered).2.1
      exact Nat.le_of_lt (List.rel_of_pairwise_cons below behind)

/-- A duration that ends and takes time is written as so many of its unit. -/
theorem literal_eq {value : TimeValue} (finite : value ≠ .forever) (positive : value ≠ .zero) :
    value.literal = toString (value.nanos.toNat / value.unit.nanos) ++ " " ++ value.unit.name := by
  rw [literal, if_neg (isForever_iff.not.mpr finite), if_neg (isZero_iff.not.mpr positive)]

/-- A JSON document that holds a duration, read and written again. -/
def rewrite (document : String) : Except DecodeFault String :=
  (Decoder.text (fun _ => .time) document).map fun value => value.toJson.compact

theorem rewrite_string {text : String} {value : TimeValue} (read : parse text = .ok value) :
    rewrite (Json.string text).compact = .ok value.toJson.compact := by
  have decoded : Decoder.time (Json.string text).outline = .ok value := by
    rw [Json.outline, Decoder.time, read]
    rfl
  rw [rewrite, Decoder.text, Outline.read_compact, decoded]
  rfl

/-- Every duration is read back from its literal, different durations have different literals, and the unit
of a literal is the longest of all that divide the duration. Whatever is read as a duration is written as
its literal, and that is written as it stands when it is read again. -/
theorem literals_are_canonical :
    (∀ value : TimeValue, parse value.literal = .ok value) ∧
    Function.Injective literal ∧
    (∀ value : TimeValue, value ≠ .forever → value ≠ .zero → ∃ (magnitude : Nat) (unit : TimeUnit),
      value.literal = toString magnitude ++ " " ++ unit.name ∧
      magnitude * unit.nanos = value.nanos.toNat ∧
      ∀ other : TimeUnit, other.nanos ∣ value.nanos.toNat → other.nanos ≤ unit.nanos) ∧
    ∀ (text : String) (value : TimeValue), parse text = .ok value →
      (parse value.literal).map literal = .ok value.literal ∧
      rewrite (Json.string text).compact = .ok value.toJson.compact ∧
      rewrite value.toJson.compact = .ok value.toJson.compact := by
  refine ⟨parse_literal, literal_injective, ?_, ?_⟩
  · intro value finite positive
    refine ⟨_, value.unit, literal_eq finite positive, ?_, fun _ => nanos_le_unit⟩
    exact Nat.div_mul_cancel (Nat.dvd_of_mod_eq_zero value.mod_unit)
  · intro text value read
    refine ⟨?_, rewrite_string read, rewrite_string value.parse_literal⟩
    rw [parse_literal]
    rfl

theorem literals_are_canonical_overstated :
    parse "\t0120seconds " = .ok ⟨120000000000⟩ ∧
      (∃ (magnitude : Nat) (unit : TimeUnit), "2 min" = toString magnitude ++ " " ++ unit.name ∧
        magnitude * unit.nanos = 120000000000 ∧
        ∀ other : TimeUnit, other.nanos ∣ 120000000000 → other.nanos ≤ unit.nanos) ∧
      rewrite "\"\\t0120seconds \"" = .ok "\"2 min\"" ∧ rewrite "\"2 min\"" = .ok "\"2 min\"" := by
  obtain ⟨-, -, longest, stable⟩ := literals_are_canonical
  have read : parse "\t0120seconds " = .ok ⟨120000000000⟩ := by decide +kernel
  exact ⟨read, longest ⟨120000000000⟩ (by decide) (by decide), (stable _ _ read).2⟩

end TimeValue

end ReactorCausality
