import Mathlib.Data.List.Nodup
import ReactorCausality.Proofs.Time.Grammar

/-!
How a text is cut into tokens and what is no token. Together their spans are the runs of the text in order
(`spans_eq`), so every character that is not blank is in exactly one of them, and blank characters are in
none (`spans_partition_text`).
-/
namespace ReactorCausality

open CharClass

/-- The characters of a run are of a kind, and none of this kind is next to it. -/
structure IsLongest (kind : Char → Bool) (before run after : List Char) : Prop where
  all : ∀ c ∈ run, kind c
  starts : ∀ c ∈ before.getLast?, ¬ kind c
  stops : ∀ c ∈ after.head?, ¬ kind c

namespace Span

/-- The span is the one of the run between what stands in front of it and what stands behind it. -/
structure Holds (text : String) (before run after : List Char) (span : Span) : Prop where
  whole : text.toList = before ++ run ++ after
  start_eq : span.start = Lexeme.byteLength before
  stop_eq : span.stop = Lexeme.byteLength before + Lexeme.byteLength run

/-- The character behind these is in the span with all its bytes. -/
def Contains (span : Span) (before : List Char) (c : Char) : Prop :=
  span.start ≤ Lexeme.byteLength before ∧ Lexeme.byteLength before + c.utf8Size ≤ span.stop

/-- No byte of the character behind these is in the span. -/
def Avoids (span : Span) (before : List Char) (c : Char) : Prop :=
  Lexeme.byteLength before + c.utf8Size ≤ span.start ∨ span.stop ≤ Lexeme.byteLength before

/-- A text is cut into spans: they are stretches of whole characters in the order of the text, each as long
as it can be, and only blank characters are left out. -/
structure Partitions (text : String) (spans : List Span) : Prop where
  ordered : spans.Pairwise fun earlier later => earlier.stop ≤ later.start
  nonempty : ∀ span ∈ spans, span.start < span.stop
  starts : ∀ span ∈ spans, String.Pos.Raw.IsValid text ⟨span.start⟩
  stops : ∀ span ∈ spans, String.Pos.Raw.IsValid text ⟨span.stop⟩
  covered : ∀ before c after, text.toList = before ++ c :: after →
    ¬ (c = ' ' ∨ c = '\t' ∨ c = '\r' ∨ c = '\n') → ∃ span ∈ spans, span.Contains before c
  skipped : ∀ before c after, text.toList = before ++ c :: after →
    c = ' ' ∨ c = '\t' ∨ c = '\r' ∨ c = '\n' → ∀ span ∈ spans, span.Avoids before c
  runs : ∀ span ∈ spans, ∃ before first rest after, Holds text before (first :: rest) after span ∧
    (first.isDigit → IsLongest Char.isDigit before (first :: rest) after) ∧
    (first.isAlpha → IsLongest Char.isAlpha before (first :: rest) after) ∧
    (¬ first.isDigit → ¬ first.isAlpha → rest = [])

end Span

namespace CharClass

/-- A run of digits or of letters has no other one next to it. -/
theorem IsRun.isLongest {before rest after : List Char} {first : Char} {kind : CharClass}
    {test : Char → Bool} (isRun : IsRun before (first :: rest) after) (isFirst : of first = kind)
    (goesOn : kind ≠ .other) (test_iff : ∀ c, of c = kind ↔ test c) :
    IsLongest test before (first :: rest) after := by
  subst isFirst
  have parted {left right : Char} (apart : joins left right = false) (same : of left = of right) :
      of left = .other := by
    by_contra goesOn
    exact Bool.false_ne_true (apart.symm.trans (joins_iff.mpr ⟨same, goesOn⟩))
  have one := isRun.toJoined.of_eq
  refine ⟨fun c member => (test_iff c).mp (one c member), fun c isLast isKind => ?_,
    fun c isNext isKind => ?_⟩
  · have same := (test_iff c).mpr isKind
    exact goesOn (same.symm.trans (parted (isRun.starts c isLast first rfl) same))
  · have nonempty := List.cons_ne_nil first rest
    have last := one _ (List.getLast_mem nonempty)
    have apart := isRun.stops _ (List.getLast?_eq_some_getLast nonempty) c isNext
    exact goesOn (last.symm.trans (parted apart (last.trans ((test_iff c).mpr isKind).symm)))

end CharClass

namespace Lexeme

/-- Every character that is not blank is in a lexeme. -/
theorem exists_contains_of_ofRuns (offset : Nat) {runs : List (List Char)} {before after : List Char}
    {c : Char} (joined : ∀ run ∈ runs, Joined run) (whole : runs.flatten = before ++ c :: after)
    (visible : of c ≠ .blank) : ∃ lexeme ∈ ofRuns offset runs,
      lexeme.span.start ≤ offset + byteLength before ∧
        offset + byteLength before + c.utf8Size ≤ lexeme.span.stop := by
  induction runs generalizing offset before with
  | nil => simp at whole
  | cons run runs ih =>
    obtain ⟨isJoined, others⟩ := List.forall_mem_cons.mp joined
    have listed := ofRuns_cons offset isJoined runs
    have further (ahead : List Char) (isAhead : before = run ++ ahead)
        (rest : runs.flatten = ahead ++ c :: after) : ∃ lexeme ∈ ofRuns offset (run :: runs),
          lexeme.span.start ≤ offset + byteLength before ∧
            offset + byteLength before + c.utf8Size ≤ lexeme.span.stop := by
      obtain ⟨lexeme, member, starts, stops⟩ := ih (offset + byteLength run) others rest
      rw [isAhead, byteLength_append, ← Nat.add_assoc]
      refine ⟨lexeme, ?_, starts, stops⟩
      rcases listed with ⟨-, skipped⟩ | ⟨-, listed⟩
      · exact skipped ▸ member
      · exact listed ▸ List.mem_cons_of_mem _ member
    rcases List.append_eq_append_iff.mp whole with ⟨ahead, isAhead, rest⟩ | ⟨inside, isInside, rest⟩
    · exact further ahead isAhead rest
    · cases inside with
      | nil =>
        rw [List.append_nil] at isInside
        exact further [] (by rw [isInside, List.append_nil]) rest.symm
      | cons first inside =>
        obtain ⟨rfl, -⟩ := List.cons.inj rest
        have member : c ∈ run := by simp [isInside]
        rcases listed with ⟨blanks, -⟩ | ⟨-, listed⟩
        · exact absurd (blanks_iff.mp blanks c member) visible
        · refine ⟨ofRun offset run, listed ▸ List.mem_cons_self, Nat.le_add_right _ _, ?_⟩
          show offset + byteLength before + c.utf8Size ≤ offset + byteLength run
          rw [isInside, byteLength_append, byteLength_cons]
          omega

/-- A character that is not in a run is in front of it or behind it. -/
theorem avoids_of_notMem {before run after front behind : List Char} {c : Char}
    (whole : before ++ run ++ after = front ++ c :: behind) (notMem : c ∉ run) :
    byteLength front + c.utf8Size ≤ byteLength before ∨
      byteLength before + byteLength run ≤ byteLength front := by
  rw [← byteLength_append]
  rcases List.append_eq_append_iff.mp whole with ⟨later, rfl, -⟩ | ⟨inside, upTo, rest⟩
  · exact .inr (byteLength_append _ later ▸ Nat.le_add_right _ _)
  · cases inside with
    | nil => exact .inr (by rw [upTo, List.append_nil])
    | cons first inside =>
      obtain ⟨rfl, -⟩ := List.cons.inj rest
      rcases List.append_eq_append_iff.mp upTo with ⟨ahead, -, isRun⟩ | ⟨ahead, rfl, isRun⟩
      · exact absurd (isRun ▸ List.mem_append_right ahead List.mem_cons_self) notMem
      · cases ahead with
        | nil =>
          rw [List.nil_append] at isRun
          exact absurd (isRun ▸ List.mem_cons_self) notMem
        | cons second ahead =>
          obtain ⟨rfl, -⟩ := List.cons.inj isRun
          left
          rw [byteLength_append, byteLength_cons]
          omega

end Lexeme

/-- Behind whole characters there is a boundary of characters. -/
theorem isValid_byteLength {text : String} {before after : List Char}
    (whole : text.toList = before ++ after) :
    String.Pos.Raw.IsValid text ⟨Lexeme.byteLength before⟩ := by
  refine String.Pos.Raw.isValid_iff_exists_append.mpr ⟨.ofList before, .ofList after, ?_, ?_⟩
  · rw [← String.ofList_append, ← whole, String.ofList_toList]
  · rw [String.Pos.Raw.ext_iff, String.byteIdx_rawEndPos, ← Lexeme.byteLength_toList, String.toList_ofList]

namespace TimeValue

/-- The spans of the tokens and of what is no token, merged by where they start. -/
def spans (text : String) : List Span :=
  ((recognized (Lexeme.scan text)).map Prod.snd).merge
    ((unrecognized (Lexeme.scan text)).map TimeError.span) fun left right => left.start ≤ right.start

theorem map_snd_recognized (lexemes : List Lexeme) : (recognized lexemes).map Prod.snd =
    (lexemes.filter fun lexeme => lexeme.token?.isSome).map Lexeme.span := by
  induction lexemes with
  | nil => rfl
  | cons lexeme lexemes ih =>
    cases isToken : lexeme.token? <;> simp_all [recognized]

theorem map_span_unrecognized (lexemes : List Lexeme) : (unrecognized lexemes).map TimeError.span =
    (lexemes.filter fun lexeme => !lexeme.token?.isSome).map Lexeme.span := by
  simp [unrecognized, Function.comp_def]

theorem starts_scan (text : String) : ((Lexeme.scan text).map Lexeme.span).Pairwise
    fun earlier later => earlier.start < later.start := by
  refine List.pairwise_map.mpr ((Lexeme.pairwise_scan text).imp_of_mem fun isEarlier _ ordered => ?_)
  exact Nat.lt_of_lt_of_le (Lexeme.span_of_mem_scan isEarlier).1 ordered

/-- Every lexeme is a token or not, so merging the two lists of spans restores the order of the text. -/
theorem spans_eq (text : String) : spans text = (Lexeme.scan text).map Lexeme.span := by
  have ascending := starts_scan text
  have sorted : ((Lexeme.scan text).map Lexeme.span).Pairwise
      fun left right => decide (left.start ≤ right.start) :=
    ascending.imp fun less => decide_eq_true (Nat.le_of_lt less)
  have part (kept : Lexeme → Bool) : (((Lexeme.scan text).filter kept).map Lexeme.span).Pairwise
      fun left right => decide (left.start ≤ right.start) :=
    sorted.sublist (List.filter_sublist.map _)
  have perm : (spans text).Perm ((Lexeme.scan text).map Lexeme.span) := by
    rw [spans, map_snd_recognized, map_span_unrecognized]
    refine (List.merge_perm_append _).trans ?_
    rw [← List.map_append]
    exact (List.filter_append_perm _ _).map _
  refine List.Perm.eq_of_pairwise (fun left right isLeft isRight before behind => ?_) ?_ sorted perm
  · have distinct : (((Lexeme.scan text).map Lexeme.span).map Span.start).Nodup :=
      List.pairwise_map.mpr (ascending.imp Nat.ne_of_lt)
    refine List.inj_on_of_nodup_map distinct (perm.mem_iff.mp isLeft) isRight ?_
    exact Nat.le_antisymm (of_decide_eq_true before) (of_decide_eq_true behind)
  · rw [spans, map_snd_recognized, map_span_unrecognized]
    refine List.pairwise_merge (fun a b c => ?_) (fun a b => ?_) _ _ (part _) (part _)
    · simpa using Nat.le_trans
    · simpa using Nat.le_total a.start b.start

theorem mem_spans_iff {text : String} {span : Span} : span ∈ spans text ↔
    ∃ before run after, Span.Holds text before run after span ∧ IsRun before run after := by
  rw [spans_eq, List.mem_map]
  constructor
  · rintro ⟨lexeme, member, rfl⟩
    obtain ⟨before, run, after, whole, isRun, rfl⟩ := Lexeme.mem_scan_iff.mp member
    exact ⟨before, run, after, ⟨whole, rfl, rfl⟩, isRun⟩
  · rintro ⟨before, run, after, ⟨whole, start_eq, stop_eq⟩, isRun⟩
    refine ⟨_, Lexeme.mem_scan_iff.mpr ⟨before, run, after, whole, isRun, rfl⟩, ?_⟩
    cases span
    simp_all [Lexeme.ofRun]

/-- The tokens of a text and what is no token are its runs: nothing but blanks is left out, and nothing is read
twice. -/
theorem spans_partition_text (text : String) : Span.Partitions text (spans text) where
  ordered := spans_eq text ▸ List.pairwise_map.mpr (Lexeme.pairwise_scan text)
  nonempty span member := by
    obtain ⟨before, run, after, holds, isRun⟩ := mem_spans_iff.mp member
    rw [holds.start_eq, holds.stop_eq]
    exact Nat.lt_add_of_pos_right (Lexeme.byteLength_pos isRun.nonempty)
  starts span member := by
    obtain ⟨before, run, after, holds, -⟩ := mem_spans_iff.mp member
    rw [holds.start_eq]
    exact isValid_byteLength (holds.whole.trans (List.append_assoc _ _ _))
  stops span member := by
    obtain ⟨before, run, after, holds, -⟩ := mem_spans_iff.mp member
    rw [holds.stop_eq, ← Lexeme.byteLength_append]
    exact isValid_byteLength holds.whole
  covered before c after whole visible := by
    obtain ⟨lexeme, member, contains⟩ := Lexeme.exists_contains_of_ofRuns 0
      (fun run => joined_of_mem_splitBy) ((List.flatten_splitBy joins _).trans whole)
      (mt of_eq_blank_iff.mp visible)
    rw [Nat.zero_add] at contains
    exact ⟨lexeme.span, spans_eq text ▸ List.mem_map_of_mem member, contains⟩
  skipped front c behind whole isBlank span member := by
    obtain ⟨before, run, after, holds, isRun⟩ := mem_spans_iff.mp member
    rw [Span.Avoids, holds.start_eq, holds.stop_eq]
    refine Lexeme.avoids_of_notMem (holds.whole.symm.trans whole) fun inRun => ?_
    exact isRun.visible c inRun (of_eq_blank_iff.mpr isBlank)
  runs span member := by
    obtain ⟨before, run, after, holds, isRun⟩ := mem_spans_iff.mp member
    obtain ⟨first, rest, rfl⟩ := List.exists_cons_of_ne_nil isRun.nonempty
    refine ⟨before, first, rest, after, holds, fun isDigit => ?_, fun isAlpha => ?_,
      fun noDigit noAlpha => isRun.toJoined.eq_singleton ?_⟩
    · exact isRun.isLongest (of_isDigit isDigit) (by decide) fun _ => of_eq_digit_iff
    · exact isRun.isLongest (of_isAlpha isAlpha) (by decide) fun _ => of_eq_letter_iff
    · cases isKind : of first with
      | blank => exact absurd isKind (isRun.visible first List.mem_cons_self)
      | digit => exact absurd (of_eq_digit_iff.mp isKind) noDigit
      | letter => exact absurd (of_eq_letter_iff.mp isKind) noAlpha
      | other => rfl

/-- A character of two bytes between a number and a unit stands alone. -/
theorem spans_partition_text_micro : spans "12 µs" = [⟨0, 2⟩, ⟨3, 5⟩, ⟨5, 6⟩] ∧
    (∃ span ∈ spans "12 µs", span.Contains ['1', '2', ' '] 'µ') ∧
    (∀ span ∈ spans "12 µs", span.Avoids ['1', '2'] ' ') ∧
    String.Pos.Raw.IsValid "12 µs" ⟨5⟩ := by
  have cut : spans "12 µs" = [⟨0, 2⟩, ⟨3, 5⟩, ⟨5, 6⟩] := by
    rw [spans_eq]
    decide +kernel
  have partitions := spans_partition_text "12 µs"
  refine ⟨cut, ?_, ?_, ?_⟩
  · exact partitions.covered ['1', '2', ' '] 'µ' ['s'] (by decide +kernel) (by decide)
  · exact partitions.skipped ['1', '2'] ' ' ['µ', 's'] (by decide +kernel) (.inl rfl)
  · exact partitions.stops ⟨3, 5⟩ (by simp [cut])

end TimeValue

end ReactorCausality
