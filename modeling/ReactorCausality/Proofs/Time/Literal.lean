import Mathlib.Data.List.SplitBy
import ReactorCausality.Proofs.Time.Value
import ReactorCausality.Time.Literal

/-!
Writing durations and reading them. The text of a duration is a literal for it: the digits and the
unit that are written are two runs with a blank between them, and what they make is the duration
again (`parse_literal`).
-/
namespace ReactorCausality

namespace CharClass

theorem of_isDigit {c : Char} (isDigit : c.isDigit) : of c = digit := by
  have visible : (c == ' ' || c == '\t' || c == '\r' || c == '\n') = false := by
    rw [Bool.eq_false_iff]
    intro blank
    simp only [Bool.or_eq_true, beq_iff_eq] at blank
    rcases blank with ((rfl | rfl) | rfl) | rfl <;> contradiction
  rw [of, visible, if_neg Bool.false_ne_true, if_pos isDigit]

/-- Digits make one run. -/
theorem splitBy_digits {digits : List Char} (nonempty : digits ≠ [])
    (all : ∀ c ∈ digits, c.isDigit) : digits.splitBy joins = [digits] := by
  refine List.splitBy_of_isChain nonempty (List.Pairwise.isChain ?_)
  refine List.pairwise_of_forall_mem_list ?_
  intro left isLeft right isRight
  simp [joins, of_isDigit (all left isLeft), of_isDigit (all right isRight)]

end CharClass

/-- A number, a blank and the name of a unit are the magnitude and the unit. -/
theorem Lexeme.scan_magnitude (magnitude : UInt64) (unit : TimeUnit) :
    ∃ first second number name, scan (toString magnitude.toNat ++ " " ++ unit.name) =
      [⟨first, number, some (.magnitude magnitude)⟩, ⟨second, name, some (.unit unit)⟩] := by
  have runs : (' ' :: unit.name.toList).splitBy CharClass.joins = [[' '], unit.name.toList] := by
    cases unit <;> decide
  have spelled : TimeToken.ofRun? unit.name.toList .letter = some (.unit unit) := by
    cases unit <;> decide
  obtain ⟨letter, more, isName, isLetter⟩ : ∃ letter more, unit.name.toList = letter :: more ∧
      CharClass.of letter = .letter := by
    cases unit <;> exact ⟨_, _, rfl, by decide⟩
  have isDigit (c : Char) (member : c ∈ Nat.toDigits 10 magnitude.toNat) : c.isDigit :=
    Nat.isDigit_of_mem_toDigits (by decide) (by decide) member
  have split : (toString magnitude.toNat ++ " " ++ unit.name).toList.splitBy CharClass.joins =
      [Nat.toDigits 10 magnitude.toNat, [' '], unit.name.toList] := by
    have text : (toString magnitude.toNat ++ " " ++ unit.name).toList =
        Nat.toDigits 10 magnitude.toNat ++ ' ' :: unit.name.toList := by
      simp [Nat.toString_eq_repr, Nat.toList_repr]
    have ends : ∀ c ∈ (Nat.toDigits 10 magnitude.toNat).getLast?, CharClass.joins c ' ' = false := by
      intro c last
      rw [CharClass.joins, CharClass.of_isDigit (isDigit c (List.mem_of_getLast? last))]
      rfl
    rw [text, List.splitBy_append_cons _ ends, runs,
      CharClass.splitBy_digits Nat.toDigits_ne_nil isDigit]
    rfl
  have count : TimeToken.ofRun? (Nat.toDigits 10 magnitude.toNat) .digit =
      some (.magnitude magnitude) := by
    simp [TimeToken.ofRun?, Nat.ofDigitChars_ten_toDigits, magnitude.toNat_lt_size]
  rw [scan, split]
  cases digits : Nat.toDigits 10 magnitude.toNat with
  | nil => exact absurd digits Nat.toDigits_ne_nil
  | cons c more =>
    rw [digits] at isDigit count
    have isNumber := CharClass.of_isDigit (isDigit c List.mem_cons_self)
    have isBlank : CharClass.of ' ' = .blank := rfl
    rw [isName] at spelled ⊢
    simp only [ofRuns, isNumber, isBlank, isLetter, count, spelled]
    exact ⟨_, _, _, _, rfl⟩

namespace TimeValue

variable (value : TimeValue)

/-- The unit of a duration divides it. -/
theorem mod_unit : value.nanos.toNat % value.unit.nanos = 0 := by
  have found : (TimeUnit.descending.find? fun unit => value.nanos.toNat % unit.nanos == 0).isSome :=
    List.find?_isSome.mpr ⟨.nsec, TimeUnit.mem_descending _, by simp [TimeUnit.nanos, Nat.mod_one]⟩
  obtain ⟨unit, isUnit⟩ := Option.isSome_iff_exists.mp found
  rw [TimeValue.unit, isUnit, Option.getD_some]
  simpa using List.find?_some isUnit

/-- Short of `forever`, a duration is so many of its unit. -/
theorem exists_parts (finite : ¬ value.isForever) : ∃ magnitude : UInt64,
    magnitude.toNat = value.nanos.toNat / value.unit.nanos ∧
      ofParts? magnitude value.unit = some value := by
  have less : value.nanos.toNat < UInt64.size - 1 :=
    Nat.lt_of_le_of_ne (Nat.le_pred_of_lt value.nanos.toNat_lt) fun top =>
      finite (isForever_iff.mpr (eq_forever_iff.mpr top))
  have count : (UInt64.ofNat (value.nanos.toNat / value.unit.nanos)).toNat =
      value.nanos.toNat / value.unit.nanos :=
    UInt64.toNat_ofNat_of_lt' ((Nat.div_le_self _ _).trans_lt value.nanos.toNat_lt)
  refine ⟨_, count, ?_⟩
  rw [ofParts?, count, Nat.div_mul_cancel (Nat.dvd_of_mod_eq_zero value.mod_unit), if_pos less,
    UInt64.ofNat_toNat]

variable {value}

theorem parse_magnitude {magnitude : UInt64} {unit : TimeUnit}
    (made : ofParts? magnitude unit = some value) :
    parse (toString magnitude.toNat ++ " " ++ unit.name) = .ok value := by
  obtain ⟨first, second, number, name, lexemes⟩ := Lexeme.scan_magnitude magnitude unit
  have tokens : ofTokens (toString magnitude.toNat ++ " " ++ unit.name).utf8ByteSize
      [(.magnitude magnitude, first), (.unit unit, second)] = .ok value := by
    rw [ofTokens, ofMagnitude, made]
    rfl
  simp only [parse, lexemes, unrecognized, recognized]
  exact congrArg (Except.mapError fun error => [error]) tokens

theorem parse_literal (value : TimeValue) : parse value.literal = .ok value := by
  rw [literal]
  split
  · next endless =>
    rw [isForever_iff.mp endless]
    decide
  · next finite =>
    split
    · next zero =>
      rw [isZero_iff.mp zero]
      decide
    · obtain ⟨magnitude, count, made⟩ := value.exists_parts finite
      rw [← count, parse_magnitude made]

end TimeValue

end ReactorCausality
