import Mathlib.Algebra.Group.Nat.Defs
import ReactorCausality.Proofs.Outcome
import ReactorCausality.Proofs.Time.Runs

/-!
The grammar of time literals. A text is read as a duration exactly if it is a literal for it: the word
`forever`, a number and a word for a unit whose product is less than `forever`, or a number that is zero,
with blanks around and between the parts. What is wrong with any other text is said once for every run that
spells no token, or once if every run spells one (`parse_exact`).
-/
namespace ReactorCausality

open CharClass

/-- Digits for a number; leading zeros do not matter. -/
structure Numeral (digits : List Char) (number : Nat) : Prop where
  nonempty : digits ≠ []
  all : ∀ c ∈ digits, c.isDigit
  value : Nat.ofDigitChars 10 digits 0 = number

/-- What a token looks like. -/
inductive TimeToken.Spells : List Char → TimeToken → Prop where
  | forever : Spells "forever".toList .forever
  | magnitude {digits : List Char} {magnitude : UInt64} (numeral : Numeral digits magnitude.toNat) :
      Spells digits (.magnitude magnitude)
  | unit {word : String} {length : TimeUnit} (names : word ∈ length.words) :
      Spells word.toList (.unit length)

/-- A literal for a duration. No finite duration is counted as `forever` or wraps around. -/
inductive TimeValue.IsLiteral : List Char → TimeValue → Prop where
  | forever {before after : List Char} (inFront : Blanks before) (behind : Blanks after) :
      IsLiteral (before ++ "forever".toList ++ after) .forever
  | zero {before digits after : List Char} (inFront : Blanks before) (numeral : Numeral digits 0)
      (behind : Blanks after) : IsLiteral (before ++ digits ++ after) .zero
  | duration {before digits between after : List Char} {word : String} {number : Nat}
      {unit : TimeUnit} {value : TimeValue} (inFront : Blanks before)
      (numeral : Numeral digits number) (fits : number ≤ 2 ^ 64 - 1) (inside : Blanks between)
      (names : word ∈ unit.words) (behind : Blanks after)
      (finite : number * unit.nanos ≤ 2 ^ 64 - 2)
      (counted : value.nanos.toNat = number * unit.nanos) :
      IsLiteral (before ++ digits ++ between ++ word.toList ++ after) value

/-- A run of a text that spells no token, with what stands in front of it and behind it. -/
structure Unrecognized (text : String) (before run after : List Char) : Prop where
  whole : text.toList = before ++ run ++ after
  isRun : IsRun before run after
  unspelled : ∀ token, ¬ TimeToken.Spells run token

/-- What is wrong with a text: the runs that spell no token, in order and each once, or if there are none
one single thing. -/
structure TimeValue.Explains (text : String) (errors : List TimeError) : Prop where
  nonempty : errors ≠ []
  inside : ∀ error ∈ errors,
    error.span.start ≤ error.span.stop ∧ error.span.stop ≤ text.utf8ByteSize
  runs : (∃ before run after, Unrecognized text before run after) →
    (errors.Pairwise fun earlier later => earlier.span.start < later.span.start) ∧
    ∀ error, error ∈ errors ↔ ∃ before run after, Unrecognized text before run after ∧
      error = ⟨⟨Lexeme.byteLength before, Lexeme.byteLength before + Lexeme.byteLength run⟩,
        .unrecognized (String.ofList run)⟩
  single : (∀ before run after, ¬ Unrecognized text before run after) → ∃ error, errors = [error]

/-! ### Tokens -/

namespace CharClass

theorem of_eq_digit_iff {c : Char} : of c = .digit ↔ c.isDigit := by
  refine ⟨fun isDigit => ?_, of_isDigit⟩
  unfold of at isDigit
  split at isDigit
  · contradiction
  · split at isDigit
    · assumption
    · split at isDigit <;> contradiction

theorem of_isAlpha {c : Char} (isAlpha : c.isAlpha) : of c = .letter := by
  have visible : ¬ of c = .blank := by
    rw [of_eq_blank_iff]
    rintro (rfl | rfl | rfl | rfl) <;> contradiction
  have noDigit : ¬ of c = .digit := by
    rw [of_eq_digit_iff]
    -- the letters stand behind the digits
    intro isDigit
    have behind : 'A'.val ≤ c.val ∨ 'a'.val ≤ c.val := by
      rcases Bool.or_eq_true_iff.mp isAlpha with isUpper | isLower
      · exact .inl (of_decide_eq_true isUpper).1
      · exact .inr (of_decide_eq_true (Bool.and_eq_true_iff.mp isLower).1)
    have ahead : c.val ≤ '9'.val := of_decide_eq_true (Bool.and_eq_true_iff.mp isDigit).2
    simp only [UInt32.le_iff_toNat_le] at behind ahead
    have : 'A'.val.toNat = 65 ∧ 'a'.val.toNat = 97 ∧ '9'.val.toNat = 57 := by decide
    omega
  unfold of at visible noDigit ⊢
  split
  · simp_all
  · split
    · simp_all
    · rfl

theorem of_eq_letter_iff {c : Char} : of c = .letter ↔ c.isAlpha := by
  refine ⟨fun isLetter => ?_, of_isAlpha⟩
  unfold of at isLetter
  split at isLetter
  · contradiction
  · split at isLetter
    · contradiction
    · split at isLetter
      · assumption
      · contradiction

end CharClass

namespace TimeUnit

/-- No word names two units. -/
theorem ofWord?_eq_some_iff {word : String} {unit : TimeUnit} :
    ofWord? word = some unit ↔ word ∈ unit.words := by
  constructor
  · intro found
    simpa using List.find?_some found
  · have each : ∀ unit ∈ descending, ∀ word ∈ unit.words, ofWord? word = some unit := by decide
    exact each unit (mem_descending unit) word

theorem isAlpha_of_mem_words {word : String} {unit : TimeUnit} (names : word ∈ unit.words) :
    word.toList ≠ [] ∧ ∀ c ∈ word.toList, c.isAlpha := by
  have each : ∀ unit ∈ descending, ∀ word ∈ unit.words,
      word.toList ≠ [] ∧ word.toList.all Char.isAlpha := by decide
  obtain ⟨nonempty, letters⟩ := each unit (mem_descending unit) word names
  exact ⟨nonempty, List.all_eq_true.mp letters⟩

theorem forever_notMem_words (unit : TimeUnit) : "forever" ∉ unit.words := by
  cases unit <;> decide

end TimeUnit

namespace TimeToken

theorem isAlpha_forever : ∀ c ∈ "forever".toList, c.isAlpha :=
  List.all_eq_true.mp (by decide)

/-- A token is spelled by digits or by letters. -/
theorem Spells.of_class {run : List Char} {token : TimeToken} (spells : Spells run token) :
    run ≠ [] ∧ ((∀ c ∈ run, of c = .digit) ∨ ∀ c ∈ run, of c = .letter) := by
  cases spells with
  | forever => exact ⟨by decide, .inr fun c member => of_isAlpha (isAlpha_forever c member)⟩
  | magnitude numeral =>
    exact ⟨numeral.nonempty, .inl fun c member => of_isDigit (numeral.all c member)⟩
  | unit names =>
    obtain ⟨nonempty, letters⟩ := TimeUnit.isAlpha_of_mem_words names
    exact ⟨nonempty, .inr fun c member => of_isAlpha (letters c member)⟩

theorem Spells.joined {run : List Char} {token : TimeToken} (spells : Spells run token) :
    Joined run := by
  obtain ⟨nonempty, digits | letters⟩ := spells.of_class
  · exact joined_of_class nonempty digits (by decide)
  · exact joined_of_class nonempty letters (by decide)

theorem Spells.visible {run : List Char} {token : TimeToken} (spells : Spells run token) :
    ∀ c ∈ run, of c ≠ .blank := by
  obtain ⟨-, digits | letters⟩ := spells.of_class
  · exact fun c member => digits c member ▸ by decide
  · exact fun c member => letters c member ▸ by decide

theorem ofRun?_digit_iff {run : List Char} {token : TimeToken} (nonempty : run ≠ [])
    (digits : ∀ c ∈ run, c.isDigit) : ofRun? run .digit = some token ↔ Spells run token := by
  simp only [ofRun?]
  constructor
  · intro found
    split at found
    · next fits =>
      cases found
      exact .magnitude ⟨nonempty, digits, (UInt64.toNat_ofNat_of_lt' fits).symm⟩
    · contradiction
  · intro spells
    have noLetter : ¬ ∀ c ∈ run, of c = .letter := by
      obtain ⟨c, member⟩ := List.exists_mem_of_ne_nil _ nonempty
      intro letters
      exact absurd ((letters c member).symm.trans (of_isDigit (digits c member))) (by decide)
    cases spells with
    | forever => exact absurd (fun c member => of_isAlpha (isAlpha_forever c member)) noLetter
    | magnitude numeral =>
      rw [numeral.value, if_pos (UInt64.toNat_lt_size _), UInt64.ofNat_toNat]
    | unit names =>
      have letters := (TimeUnit.isAlpha_of_mem_words names).2
      exact absurd (fun c member => of_isAlpha (letters c member)) noLetter

theorem ofRun?_letter_iff {run : List Char} {token : TimeToken} (nonempty : run ≠ [])
    (letters : ∀ c ∈ run, c.isAlpha) : ofRun? run .letter = some token ↔ Spells run token := by
  have isWord : run = (String.ofList run).toList := (String.toList_ofList).symm
  simp only [ofRun?, beq_iff_eq]
  constructor
  · intro found
    split at found
    · next isForever =>
      cases found
      rw [isWord, isForever]
      exact .forever
    · obtain ⟨unit, isUnit, rfl⟩ := Option.map_eq_some_iff.mp found
      rw [isWord]
      exact .unit (TimeUnit.ofWord?_eq_some_iff.mp isUnit)
  · intro spells
    cases spells with
    | forever => rw [if_pos String.ofList_toList]
    | magnitude numeral =>
      obtain ⟨c, member⟩ := List.exists_mem_of_ne_nil _ nonempty
      have isDigit := of_isDigit (numeral.all c member)
      exact absurd (isDigit.symm.trans (of_isAlpha (letters c member))) (by decide)
    | @unit word unit names =>
      rw [String.ofList_toList, if_neg, TimeUnit.ofWord?_eq_some_iff.mpr names]
      · rfl
      · rintro rfl
        exact TimeUnit.forever_notMem_words unit names

/-- The token of a lexeme is the one that its run spells. -/
theorem token?_ofRun_iff (offset : Nat) {run : List Char} {token : TimeToken} (joined : Joined run)
    (visible : ∀ c ∈ run, of c ≠ .blank) :
    (Lexeme.ofRun offset run).token? = some token ↔ Spells run token := by
  obtain ⟨first, rest, rfl⟩ := List.exists_cons_of_ne_nil joined.nonempty
  have one := joined.of_eq
  rw [Lexeme.ofRun, List.headD_cons]
  cases isKind : of first with
  | blank => exact absurd isKind (visible first List.mem_cons_self)
  | digit =>
    refine ofRun?_digit_iff joined.nonempty fun c member => ?_
    exact of_eq_digit_iff.mp ((one c member).trans isKind)
  | letter =>
    refine ofRun?_letter_iff joined.nonempty fun c member => ?_
    exact of_eq_letter_iff.mp ((one c member).trans isKind)
  | other =>
    refine iff_of_false (Option.some_ne_none _).symm fun spells => ?_
    obtain ⟨-, digits | letters⟩ := spells.of_class
    · exact absurd (isKind.symm.trans (digits first List.mem_cons_self)) (by decide)
    · exact absurd (isKind.symm.trans (letters first List.mem_cons_self)) (by decide)

end TimeToken

/-! ### Literals -/

namespace Lexeme

/-- Behind the first token of a text, the tokens are those of what is left of the text. -/
theorem exists_of_map_token?_eq_cons {offset : Nat} {runs : List (List Char)} {token : TimeToken}
    {tokens : List (Option TimeToken)} (joined : ∀ run ∈ runs, Joined run)
    (spelled : (ofRuns offset runs).map token? = some token :: tokens) :
    ∃ before run later stop, runs.flatten = before ++ run ++ List.flatten later ∧ Blanks before ∧
      TimeToken.Spells run token ∧ (∀ run ∈ later, Joined run) ∧
      (ofRuns stop later).map token? = tokens := by
  obtain ⟨lexeme, rest, lexemes, isToken, rfl⟩ := List.map_eq_cons_iff.mp spelled
  obtain ⟨before, run, later, rfl, blanks, visible, rfl, rfl⟩ := exists_of_ofRuns_eq_cons joined lexemes
  obtain ⟨isJoined, others⟩ := List.forall_mem_cons.mp (List.forall_mem_append.mp joined).2
  refine ⟨before.flatten, run, later, _, ?_, blanks, ?_, others, rfl⟩
  · simp
  · exact (TimeToken.token?_ofRun_iff _ isJoined visible).mp isToken

theorem map_token?_scanFrom (offset : Nat) {before run rest : List Char} {token : TimeToken}
    (blanks : Blanks before) (spells : TimeToken.Spells run token) (apart : Apart run rest) :
    ∃ stop, (scanFrom offset (before ++ run ++ rest)).map token? =
      some token :: (scanFrom stop rest).map token? := by
  have starts : Apart before (run ++ rest) := by
    refine .of_class (blanks_iff.mp blanks) fun first isFirst => ?_
    rw [List.head?_append_of_ne_nil _ spells.joined.nonempty] at isFirst
    exact spells.visible first (List.mem_of_mem_head? isFirst)
  have isToken := (TimeToken.token?_ofRun_iff (offset + byteLength before) spells.joined
    spells.visible).mpr spells
  refine ⟨offset + byteLength before + byteLength run, ?_⟩
  rw [List.append_assoc, scanFrom_append offset starts, scanFrom_blanks offset blanks,
    scanFrom_append _ apart, scanFrom_run _ spells.joined spells.visible, List.nil_append,
    List.singleton_append, List.map_cons, isToken]

end Lexeme

namespace TimeValue

/-- What a list of tokens stands for. -/
inductive Denotes : List TimeToken → TimeValue → Prop where
  | forever : Denotes [.forever] .forever
  | zero : Denotes [.magnitude 0] .zero
  | parts {magnitude : UInt64} {unit : TimeUnit} {value : TimeValue}
      (made : ofParts? magnitude unit = some value) :
      Denotes [.magnitude magnitude, .unit unit] value

theorem finish_eq_ok_iff {value other : TimeValue} {tokens : List (TimeToken × Span)} :
    finish value tokens = .ok other ↔ tokens = [] ∧ value = other := by
  cases tokens <;> simp [finish]

theorem ofMagnitude_eq_ok_iff {span : Span} {magnitude : UInt64} {value : TimeValue}
    {tokens rest : List (TimeToken × Span)} :
    ofMagnitude span magnitude tokens = .ok (value, rest) ↔
      (∃ unit place, tokens = (.unit unit, place) :: rest ∧ ofParts? magnitude unit = some value) ∨
        (∀ unit place others, tokens ≠ (.unit unit, place) :: others) ∧ magnitude = 0 ∧
          value = zero ∧ rest = tokens := by
  unfold ofMagnitude
  split
  · next unit place others =>
    cases made : ofParts? magnitude unit <;> simp [made, and_comm, eq_comm]
  · next noUnit =>
    have differ (unit : TimeUnit) (place : Span) (others : List (TimeToken × Span)) :
        tokens ≠ (.unit unit, place) :: others := noUnit unit place others
    by_cases isZero : magnitude = 0 <;> simp [isZero, differ, eq_comm]

theorem ofTokens_eq_ok_iff {length : Nat} {tokens : List (TimeToken × Span)} {value : TimeValue} :
    ofTokens length tokens = .ok value ↔ Denotes (tokens.map Prod.fst) value := by
  constructor
  · intro read
    match tokens with
    | [] => contradiction
    | (.forever, _) :: rest =>
      obtain ⟨rfl, rfl⟩ := finish_eq_ok_iff.mp read
      exact .forever
    | (.unit _, _) :: _ => contradiction
    | (.magnitude magnitude, span) :: rest =>
      obtain ⟨⟨made, behind⟩, parts, done⟩ := bind_eq_ok_iff.mp read
      obtain ⟨rfl, rfl⟩ := finish_eq_ok_iff.mp done
      rcases ofMagnitude_eq_ok_iff.mp parts with ⟨unit, place, rfl, isMade⟩ | ⟨-, rfl, rfl, rfl⟩
      · exact .parts isMade
      · exact .zero
  · intro denotes
    match tokens with
    | [] => cases denotes
    | [(token, span)] =>
      cases denotes with
      | forever => rfl
      | zero => rfl
    | [(token, span), (second, place)] =>
      cases denotes with
      | parts made =>
        exact bind_eq_ok_iff.mpr ⟨_, ofMagnitude_eq_ok_iff.mpr (.inl ⟨_, _, rfl, made⟩), rfl⟩
    | (_, _) :: (_, _) :: (_, _) :: _ => cases denotes

/-- What is wrong with the tokens is said of one of them, or of the end of the text. -/
theorem span_of_ofTokens_eq_error {length : Nat} {tokens : List (TimeToken × Span)}
    {error : TimeError} (failed : ofTokens length tokens = .error error) :
    error.span = ⟨length, length⟩ ∨ error.span ∈ tokens.map Prod.snd := by
  have ofFinish {value : TimeValue} {rest : List (TimeToken × Span)}
      (refused : finish value rest = .error error) : error.span ∈ rest.map Prod.snd := by
    cases rest with
    | nil => contradiction
    | cons surplus rest =>
      cases refused
      exact List.mem_cons_self
  match tokens with
  | [] =>
    cases failed
    exact .inl rfl
  | (.forever, _) :: rest => exact .inr (List.mem_cons_of_mem _ (ofFinish failed))
  | (.unit _, _) :: _ =>
    cases failed
    exact .inr List.mem_cons_self
  | (.magnitude magnitude, span) :: rest =>
    rcases bind_eq_error_iff.mp failed with refused | ⟨⟨made, behind⟩, parts, refused⟩
    · have itself : error.span = span := by
        unfold ofMagnitude at refused
        split at refused <;> split at refused <;> cases refused <;> rfl
      exact .inr (List.mem_cons.mpr (.inl itself))
    · have later := ofFinish refused
      rcases ofMagnitude_eq_ok_iff.mp parts with ⟨unit, place, rfl, -⟩ | ⟨-, -, -, rfl⟩
      · exact .inr (List.mem_cons_of_mem _ (List.mem_cons_of_mem _ later))
      · exact .inr (List.mem_cons_of_mem _ later)

theorem map_token?_eq_iff {lexemes : List Lexeme} {tokens : List TimeToken} :
    lexemes.map Lexeme.token? = tokens.map some ↔
      unrecognized lexemes = [] ∧ (recognized lexemes).map Prod.fst = tokens := by
  induction lexemes generalizing tokens with
  | nil => cases tokens <;> simp [unrecognized, recognized]
  | cons lexeme lexemes ih =>
    cases isToken : lexeme.token? with
    | none => cases tokens <;> simp [unrecognized, isToken]
    | some token =>
      have rest := @ih tokens.tail
      cases tokens with
      | nil => simp [recognized, isToken]
      | cons first tokens =>
        simp only [List.tail_cons, unrecognized, recognized] at rest
        simp [unrecognized, recognized, isToken, rest, and_left_comm]

theorem parse_eq_ok_iff_denotes {text : String} {value : TimeValue} : parse text = .ok value ↔
    ∃ tokens, (Lexeme.scan text).map Lexeme.token? = tokens.map some ∧ Denotes tokens value := by
  simp only [map_token?_eq_iff, parse]
  cases unrecognized (Lexeme.scan text) with
  | nil => simp [mapError_eq_ok_iff, ofTokens_eq_ok_iff]
  | cons error errors => simp

theorem ofParts?_eq_some_iff {magnitude : UInt64} {unit : TimeUnit} {value : TimeValue} :
    ofParts? magnitude unit = some value ↔ magnitude.toNat * unit.nanos ≤ 2 ^ 64 - 2 ∧
      value.nanos.toNat = magnitude.toNat * unit.nanos := by
  have size : UInt64.size = 2 ^ 64 := rfl
  rw [ofParts?]
  by_cases finite : magnitude.toNat * unit.nanos < UInt64.size - 1
  · have counted : (UInt64.ofNat (magnitude.toNat * unit.nanos)).toNat =
        magnitude.toNat * unit.nanos := UInt64.toNat_ofNat_of_lt' (by omega)
    rw [if_pos finite, Option.some.injEq, and_iff_right (by omega)]
    constructor
    · rintro rfl
      exact counted
    · intro same
      exact eq_of_toNat_eq (counted.trans same.symm)
  · rw [if_neg finite]
    exact iff_of_false (Option.some_ne_none _).symm fun fits => finite (by omega)

theorem isLiteral_of_denotes {text : String} {tokens : List TimeToken} {value : TimeValue}
    (spelled : (Lexeme.scan text).map Lexeme.token? = tokens.map some)
    (denotes : Denotes tokens value) : IsLiteral text.toList value := by
  have whole := List.flatten_splitBy joins text.toList
  rw [← whole]
  have joined : ∀ run ∈ text.toList.splitBy joins, Joined run := fun run => joined_of_mem_splitBy
  have blanks {stop : Nat} {runs : List (List Char)} (joined : ∀ run ∈ runs, Joined run)
      (none : (Lexeme.ofRuns stop runs).map Lexeme.token? = []) : Blanks runs.flatten :=
    Lexeme.blanks_of_ofRuns_eq_nil joined (List.map_eq_nil_iff.mp none)
  cases denotes with
  | forever =>
    obtain ⟨before, run, later, stop, isWhole, inFront, spells, others, rest⟩ :=
      Lexeme.exists_of_map_token?_eq_cons joined spelled
    cases spells
    exact isWhole ▸ .forever inFront (blanks others rest)
  | zero =>
    obtain ⟨before, run, later, stop, isWhole, inFront, spells, others, rest⟩ :=
      Lexeme.exists_of_map_token?_eq_cons joined spelled
    cases spells with
    | magnitude numeral => exact isWhole ▸ .zero inFront numeral (blanks others rest)
  | @parts magnitude unit value made =>
    obtain ⟨before, run, later, stop, isWhole, inFront, spells, others, rest⟩ :=
      Lexeme.exists_of_map_token?_eq_cons joined spelled
    obtain ⟨between, second, last, stop, isRest, inside, spellsUnit, others, rest⟩ :=
      Lexeme.exists_of_map_token?_eq_cons others rest
    obtain ⟨finite, counted⟩ := ofParts?_eq_some_iff.mp made
    cases spells with
    | magnitude numeral =>
      cases spellsUnit with
      | unit names =>
        rw [isWhole, isRest, ← List.append_assoc, ← List.append_assoc]
        exact .duration inFront numeral (Nat.le_pred_of_lt magnitude.toNat_lt) inside names
          (blanks others rest) finite counted

theorem denotes_of_isLiteral {text : String} {value : TimeValue}
    (literal : IsLiteral text.toList value) :
    ∃ tokens, (Lexeme.scan text).map Lexeme.token? = tokens.map some ∧ Denotes tokens value := by
  rw [Lexeme.scan_eq]
  generalize text.toList = text at literal
  -- a blank or the end of the text stops every run
  have stops {run after : List Char} {token : TimeToken} (spells : TimeToken.Spells run token)
      (behind : Blanks after) : Apart run after := by
    intro last isLast first isFirst
    have isBlank := blanks_iff.mp behind first (List.mem_of_mem_head? isFirst)
    exact joins_of_ne (isBlank ▸ spells.visible last (List.mem_of_getLast? isLast))
  have alone {before run after : List Char} {token : TimeToken} (inFront : Blanks before)
      (spells : TimeToken.Spells run token) (behind : Blanks after) :
      (Lexeme.scanFrom 0 (before ++ run ++ after)).map Lexeme.token? = [token].map some := by
    obtain ⟨stop, tokens⟩ :=
      Lexeme.map_token?_scanFrom 0 inFront spells (stops spells behind)
    rw [tokens, Lexeme.scanFrom_blanks stop behind]
    rfl
  cases literal with
  | forever inFront behind => exact ⟨_, alone inFront .forever behind, .forever⟩
  | @zero before digits after inFront numeral behind =>
    have isMagnitude : TimeToken.Spells digits (.magnitude 0) := .magnitude numeral
    exact ⟨_, alone inFront isMagnitude behind, .zero⟩
  | @duration before digits between after word number unit value inFront numeral fits inside names
      behind finite counted =>
    obtain ⟨magnitude, rfl⟩ : ∃ magnitude : UInt64, magnitude.toNat = number :=
      ⟨UInt64.ofNat number, UInt64.toNat_ofNat_of_lt' (Nat.lt_of_le_pred (by decide) fits)⟩
    have isMagnitude : TimeToken.Spells digits (.magnitude magnitude) := .magnitude numeral
    have isUnit : TimeToken.Spells word.toList (.unit unit) := .unit names
    have apart : Apart digits (between ++ word.toList ++ after) := by
      refine .of_class (fun c member => of_isDigit (numeral.all c member)) fun first isFirst => ?_
      cases between with
      | nil =>
        obtain ⟨nonempty, letters⟩ := TimeUnit.isAlpha_of_mem_words names
        rw [List.nil_append, List.head?_append_of_ne_nil _ nonempty] at isFirst
        exact of_isAlpha (letters first (List.mem_of_mem_head? isFirst)) ▸ by decide
      | cons c between =>
        cases isFirst
        exact blanks_iff.mp inside first List.mem_cons_self ▸ by decide
    obtain ⟨middle, tokens⟩ := Lexeme.map_token?_scanFrom 0 inFront isMagnitude apart
    obtain ⟨stop, more⟩ :=
      Lexeme.map_token?_scanFrom middle inside isUnit (stops isUnit behind)
    refine ⟨[.magnitude magnitude, .unit unit], ?_, .parts ?_⟩
    · simp only [List.append_assoc] at tokens more ⊢
      rw [tokens, more, Lexeme.scanFrom_blanks stop behind]
      rfl
    · exact ofParts?_eq_some_iff.mpr ⟨finite, counted⟩

theorem exists_of_isLiteral_forever {text : List Char} (literal : IsLiteral text .forever) :
    ∃ before after, Blanks before ∧ Blanks after ∧ text = before ++ "forever".toList ++ after := by
  generalize endless : TimeValue.forever = value at literal
  cases literal with
  | forever inFront behind => exact ⟨_, _, inFront, behind, rfl⟩
  | zero => exact absurd endless (by decide)
  | @duration _ _ _ _ _ number unit _ _ _ _ _ _ _ finite counted =>
    have top := eq_forever_iff.mp endless.symm
    have size : UInt64.size = 2 ^ 64 := rfl
    omega

theorem parse_eq_ok_iff {text : String} {value : TimeValue} :
    parse text = .ok value ↔ IsLiteral text.toList value := by
  rw [parse_eq_ok_iff_denotes]
  constructor
  · rintro ⟨tokens, spelled, denotes⟩
    exact isLiteral_of_denotes spelled denotes
  · exact denotes_of_isLiteral

/-! ### What is wrong with other texts -/

theorem mem_unrecognized_scan_iff {text : String} {error : TimeError} :
    error ∈ unrecognized (Lexeme.scan text) ↔
      ∃ before run after, Unrecognized text before run after ∧
        error = ⟨⟨Lexeme.byteLength before, Lexeme.byteLength before + Lexeme.byteLength run⟩,
          .unrecognized (String.ofList run)⟩ := by
  have unspelled_iff {before run after : List Char} (isRun : IsRun before run after) :
      (Lexeme.ofRun (Lexeme.byteLength before) run).token? = none ↔
        ∀ token, ¬ TimeToken.Spells run token := by
    rw [Option.eq_none_iff_forall_ne_some]
    exact forall_congr' fun token =>
      not_congr (TimeToken.token?_ofRun_iff _ isRun.toJoined isRun.visible)
  simp only [unrecognized, List.mem_map, List.mem_filter, Option.isNone_iff_eq_none,
    Lexeme.mem_scan_iff]
  constructor
  · rintro ⟨_, ⟨⟨before, run, after, whole, isRun, rfl⟩, noToken⟩, rfl⟩
    exact ⟨before, run, after, ⟨whole, isRun, (unspelled_iff isRun).mp noToken⟩, rfl⟩
  · rintro ⟨before, run, after, ⟨whole, isRun, unspelled⟩, rfl⟩
    exact ⟨_, ⟨⟨before, run, after, whole, isRun, rfl⟩, (unspelled_iff isRun).mpr unspelled⟩, rfl⟩

theorem pairwise_unrecognized_scan (text : String) : (unrecognized (Lexeme.scan text)).Pairwise
    fun earlier later => earlier.span.start < later.span.start := by
  refine List.pairwise_map.mpr (List.Pairwise.filter _ ?_)
  refine (Lexeme.pairwise_scan text).imp_of_mem fun isEarlier _ ordered => ?_
  exact Nat.lt_of_lt_of_le (Lexeme.span_of_mem_scan isEarlier).1 ordered

theorem explains_of_parse {text : String} {errors : List TimeError}
    (failed : parse text = .error errors) : Explains text errors := by
  have exactly (error : TimeError) := @mem_unrecognized_scan_iff text error
  have ordered := pairwise_unrecognized_scan text
  have inText (lexeme : Lexeme) (member : lexeme ∈ Lexeme.scan text) :
      lexeme.span.start ≤ lexeme.span.stop ∧ lexeme.span.stop ≤ text.utf8ByteSize :=
    (Lexeme.span_of_mem_scan member).imp_left Nat.le_of_lt
  have inside : ∀ error ∈ unrecognized (Lexeme.scan text),
      error.span.start ≤ error.span.stop ∧ error.span.stop ≤ text.utf8ByteSize := by
    intro error member
    obtain ⟨lexeme, isLexeme, rfl⟩ := List.mem_map.mp member
    exact inText lexeme (List.mem_of_mem_filter isLexeme)
  rw [parse] at failed
  split at failed
  · next allTokens =>
    obtain ⟨error, found, rfl⟩ := mapError_eq_error_iff.mp failed
    rw [allTokens] at exactly
    refine ⟨by simp, fun other member => ?_, ?_, fun _ => ⟨error, rfl⟩⟩
    · rw [List.mem_singleton.mp member]
      rcases span_of_ofTokens_eq_error found with atEnd | ofToken
      · simp [atEnd]
      · obtain ⟨⟨token, span⟩, listed, isSpan⟩ := List.mem_map.mp ofToken
        obtain ⟨lexeme, isLexeme, isToken⟩ := List.mem_filterMap.mp listed
        obtain ⟨_, -, same⟩ := Option.map_eq_some_iff.mp isToken
        cases same
        exact isSpan ▸ inText lexeme isLexeme
    · rintro ⟨before, run, after, unrecognized⟩
      exact absurd ((exactly _).mpr ⟨before, run, after, unrecognized, rfl⟩) List.not_mem_nil
  · next someNot =>
    cases failed
    refine ⟨someNot, inside, fun _ => ⟨ordered, exactly⟩, fun none => ?_⟩
    obtain ⟨error, member⟩ := List.exists_mem_of_ne_nil _ someNot
    obtain ⟨before, run, after, unrecognized, -⟩ := (exactly error).mp member
    exact absurd unrecognized (none before run after)

/-- A text is read as a duration exactly if it is a literal for it, `forever` only where it is written out,
and what is wrong with any other text is explained. -/
theorem parse_exact (text : String) :
    (∀ value, parse text = .ok value ↔ IsLiteral text.toList value) ∧
    (parse text = .ok .forever ↔ ∃ before after, Blanks before ∧ Blanks after ∧
      text.toList = before ++ "forever".toList ++ after) ∧
    ((∀ value, ¬ IsLiteral text.toList value) →
      ∃ errors, parse text = .error errors ∧ Explains text errors) := by
  refine ⟨fun value => parse_eq_ok_iff, ?_, fun noLiteral => ?_⟩
  · rw [parse_eq_ok_iff]
    refine ⟨exists_of_isLiteral_forever, ?_⟩
    rintro ⟨before, after, inFront, behind, whole⟩
    exact whole ▸ .forever inFront behind
  · cases read : parse text with
    | ok value => exact absurd (parse_eq_ok_iff.mp read) (noLiteral value)
    | error errors => exact ⟨errors, rfl, explains_of_parse read⟩

theorem parse_exact_fortnights : (∀ value, ¬ IsLiteral "2 fortnights µ".toList value) ∧
    ∃ errors, parse "2 fortnights µ" = .error errors ∧ Explains "2 fortnights µ" errors ∧
      errors = [⟨⟨2, 12⟩, .unrecognized "fortnights"⟩, ⟨⟨13, 15⟩, .unrecognized "µ"⟩] := by
  obtain ⟨accepted_iff, -, otherwise⟩ := parse_exact "2 fortnights µ"
  have failed : parse "2 fortnights µ" =
      .error [⟨⟨2, 12⟩, .unrecognized "fortnights"⟩, ⟨⟨13, 15⟩, .unrecognized "µ"⟩] := by
    decide +kernel
  have noLiteral (value : TimeValue) : ¬ IsLiteral "2 fortnights µ".toList value := by
    rw [← accepted_iff, failed]
    exact nofun
  obtain ⟨errors, read, explains⟩ := otherwise noLiteral
  exact ⟨noLiteral, errors, read, explains, Except.error.inj (read.symm.trans failed)⟩

end TimeValue

end ReactorCausality
