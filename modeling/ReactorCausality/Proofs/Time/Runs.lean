import ReactorCausality.Proofs.Time.Literal

/-!
The lexemes of a text are its runs. A run is a stretch of digits or of letters that goes as far as it can,
or a single character that is neither and is not blank. Every run of a text is a lexeme under its own place,
and nothing else is (`mem_scan_iff`); lexemes stand in the order of the text and do not overlap
(`pairwise_scan`).
-/
namespace ReactorCausality

namespace CharClass

/-- No run goes on from the first text into the second. -/
def Apart (left right : List Char) : Prop :=
  ∀ last ∈ left.getLast?, ∀ first ∈ right.head?, joins last first = false

/-- The characters follow each other as those of one run. -/
structure Joined (run : List Char) : Prop where
  nonempty : run ≠ []
  joined : run.IsChain fun left right => joins left right

/-- A run between what stands in front of it and what stands behind it. -/
structure IsRun (before run after : List Char) : Prop extends Joined run where
  visible : ∀ c ∈ run, of c ≠ .blank
  starts : Apart before run
  stops : Apart run after

def Blanks (text : List Char) : Prop :=
  ∀ c ∈ text, c = ' ' ∨ c = '\t' ∨ c = '\r' ∨ c = '\n'

theorem of_eq_blank_iff {c : Char} : of c = .blank ↔ c = ' ' ∨ c = '\t' ∨ c = '\r' ∨ c = '\n' := by
  unfold of
  split
  · next isBlank => simpa [or_assoc] using isBlank
  · next visible =>
    have notBlank : ¬(c = ' ' ∨ c = '\t' ∨ c = '\r' ∨ c = '\n') := by simpa [or_assoc] using visible
    split <;> [simp [notBlank]; (split <;> simp [notBlank])]

theorem blanks_iff {text : List Char} : Blanks text ↔ ∀ c ∈ text, of c = .blank := by
  simp only [Blanks, of_eq_blank_iff]

theorem joins_of_ne {left right : Char} (differ : of left ≠ of right) : joins left right = false := by
  simp [joins, differ]

theorem joins_iff {left right : Char} : joins left right ↔ of left = of right ∧ of left ≠ .other := by
  simp [joins]

/-- All characters of a run are of one class. -/
theorem Joined.of_eq {first : Char} {rest : List Char} (joined : Joined (first :: rest)) :
    ∀ c ∈ first :: rest, of c = of first := by
  obtain ⟨-, chain⟩ := joined
  have same : (first :: rest).IsChain fun left right => of left = of right :=
    chain.imp fun _ _ isJoined => (joins_iff.mp isJoined).1
  have : IsTrans Char fun left right => of left = of right := ⟨fun _ _ _ => Eq.trans⟩
  intro c member
  rcases List.mem_cons.mp member with rfl | member
  · rfl
  · exact (List.rel_of_pairwise_cons same.pairwise member).symm

theorem joined_of_class {run : List Char} {kind : CharClass} (nonempty : run ≠ [])
    (all : ∀ c ∈ run, of c = kind) (goesOn : kind ≠ .other) : Joined run := by
  refine ⟨nonempty, (List.pairwise_of_forall_mem_list ?_).isChain⟩
  intro left isLeft right isRight
  rw [joins_iff, all left isLeft, all right isRight]
  exact ⟨rfl, goesOn⟩

/-- A character that is neither blank nor a digit nor a letter is a run of its own. -/
theorem Joined.eq_singleton {first : Char} {rest : List Char} (joined : Joined (first :: rest))
    (alone : of first = .other) : rest = [] := by
  cases rest with
  | nil => rfl
  | cons second rest => exact absurd alone (joins_iff.mp joined.joined.rel).2

theorem Apart.of_class {left right : List Char} {kind : CharClass}
    (all : ∀ c ∈ left, of c = kind) (differ : ∀ first ∈ right.head?, of first ≠ kind) :
    Apart left right := by
  intro last isLast first isFirst
  refine joins_of_ne ?_
  rw [all last (List.mem_of_getLast? isLast)]
  exact (differ first isFirst).symm

end CharClass

namespace Lexeme

open CharClass

theorem byteLength_cons (c : Char) (rest : List Char) :
    byteLength (c :: rest) = c.utf8Size + byteLength rest :=
  rfl

theorem byteLength_append (left right : List Char) :
    byteLength (left ++ right) = byteLength left + byteLength right := by
  induction left with
  | nil => simp [byteLength]
  | cons c left ih => simpa [byteLength, Nat.add_assoc] using ih

theorem byteLength_toList (text : String) : byteLength text.toList = text.utf8ByteSize := by
  have ofList (chars : List Char) : (String.ofList chars).utf8ByteSize = byteLength chars := by
    induction chars with
    | nil => rfl
    | cons c chars ih =>
      rw [← List.singleton_append, String.ofList_append, String.utf8ByteSize_append, ih,
        ← String.singleton_eq_ofList, String.utf8ByteSize_singleton, byteLength_append]
      simp [byteLength]
  rw [← ofList, String.ofList_toList]

theorem byteLength_pos {run : List Char} (nonempty : run ≠ []) : 0 < byteLength run := by
  obtain ⟨c, rest, rfl⟩ := List.exists_cons_of_ne_nil nonempty
  exact Nat.add_pos_left c.utf8Size_pos _

/-- The lexeme of a run that starts at `offset`. -/
def ofRun (offset : Nat) (run : List Char) : Lexeme :=
  ⟨⟨offset, offset + byteLength run⟩, String.ofList run,
    TimeToken.ofRun? run (CharClass.of (run.headD ' '))⟩

theorem ofRuns_cons (offset : Nat) {run : List Char} (joined : Joined run) (runs : List (List Char)) :
    Blanks run ∧ ofRuns offset (run :: runs) = ofRuns (offset + byteLength run) runs ∨
      (∀ c ∈ run, of c ≠ .blank) ∧
        ofRuns offset (run :: runs) =
          ofRun offset run :: ofRuns (offset + byteLength run) runs := by
  obtain ⟨c, rest, rfl⟩ := List.exists_cons_of_ne_nil joined.nonempty
  by_cases isBlank : of c = .blank
  · refine .inl ⟨blanks_iff.mpr fun other member => (joined.of_eq other member).trans isBlank, ?_⟩
    simp only [ofRuns, isBlank]
  · refine .inr ⟨fun other member => joined.of_eq other member ▸ isBlank, ?_⟩
    rw [ofRuns, ofRun, List.headD_cons]
    cases isKind : of c <;> simp_all

theorem ofRuns_append (offset : Nat) (runs more : List (List Char)) :
    ofRuns offset (runs ++ more) =
      ofRuns offset runs ++ ofRuns (offset + byteLength runs.flatten) more := by
  fun_induction ofRuns offset runs with
  | case1 => rfl
  | case2 offset runs ih => simpa [ofRuns] using ih
  | case3 offset c run runs stop rest isBlank ih =>
    simp only [List.cons_append, ofRuns, isBlank]
    rw [ih, List.flatten_cons, byteLength_append, Nat.add_assoc]
  | case4 offset c run runs stop rest isVisible ih =>
    simp only [List.cons_append, ofRuns]
    rw [ih, List.flatten_cons, byteLength_append, Nat.add_assoc]

/-- The lexemes of a text that starts at `offset`. -/
def scanFrom (offset : Nat) (text : List Char) : List Lexeme :=
  ofRuns offset (text.splitBy joins)

theorem scan_eq (text : String) : scan text = scanFrom 0 text.toList :=
  rfl

theorem scanFrom_append (offset : Nat) {left right : List Char} (apart : Apart left right) :
    scanFrom offset (left ++ right) =
      scanFrom offset left ++ scanFrom (offset + byteLength left) right := by
  rw [scanFrom, List.splitBy_append apart, ofRuns_append, List.flatten_splitBy]
  rfl

theorem scanFrom_blanks (offset : Nat) {text : List Char} (blanks : Blanks text) :
    scanFrom offset text = [] := by
  by_cases nonempty : text = []
  · rw [nonempty]
    rfl
  · have isBlank := blanks_iff.mp blanks
    have joined := joined_of_class nonempty isBlank (by decide)
    rw [scanFrom, List.splitBy_of_isChain nonempty joined.joined]
    rcases ofRuns_cons offset joined [] with ⟨-, skipped⟩ | ⟨visible, -⟩
    · exact skipped
    · obtain ⟨c, member⟩ := List.exists_mem_of_ne_nil _ nonempty
      exact absurd (isBlank c member) (visible c member)

theorem scanFrom_run (offset : Nat) {run : List Char} (joined : Joined run)
    (visible : ∀ c ∈ run, of c ≠ .blank) : scanFrom offset run = [ofRun offset run] := by
  rw [scanFrom, List.splitBy_of_isChain joined.nonempty joined.joined]
  rcases ofRuns_cons offset joined [] with ⟨blanks, -⟩ | ⟨-, listed⟩
  · obtain ⟨c, member⟩ := List.exists_mem_of_ne_nil _ joined.nonempty
    exact absurd (blanks_iff.mp blanks c member) (visible c member)
  · exact listed

/-! ### What the lexemes say about the text -/

theorem blanks_of_ofRuns_eq_nil {offset : Nat} {runs : List (List Char)}
    (joined : ∀ run ∈ runs, Joined run) (none : ofRuns offset runs = []) : Blanks runs.flatten := by
  induction runs generalizing offset with
  | nil => exact nofun
  | cons run runs ih =>
    obtain ⟨isJoined, others⟩ := List.forall_mem_cons.mp joined
    rcases ofRuns_cons offset isJoined runs with ⟨blanks, skipped⟩ | ⟨-, listed⟩
    · exact List.forall_mem_append.mpr ⟨blanks, ih others (skipped ▸ none)⟩
    · exact absurd (listed.symm.trans none) (List.cons_ne_nil _ _)

/-- In front of the first lexeme there are blanks, and the others are those of what is behind it. -/
theorem exists_of_ofRuns_eq_cons {offset : Nat} {runs : List (List Char)} {lexeme : Lexeme}
    {rest : List Lexeme} (joined : ∀ run ∈ runs, Joined run)
    (lexemes : ofRuns offset runs = lexeme :: rest) :
    ∃ before run later, runs = before ++ run :: later ∧ Blanks before.flatten ∧
      (∀ c ∈ run, of c ≠ .blank) ∧ lexeme = ofRun (offset + byteLength before.flatten) run ∧
      rest = ofRuns lexeme.span.stop later := by
  induction runs generalizing offset with
  | nil => contradiction
  | cons run runs ih =>
    obtain ⟨isJoined, others⟩ := List.forall_mem_cons.mp joined
    rcases ofRuns_cons offset isJoined runs with ⟨blanks, skipped⟩ | ⟨visible, listed⟩
    · obtain ⟨before, first, later, rfl, moreBlanks, visible, rfl, rfl⟩ :=
        ih others (skipped ▸ lexemes)
      refine ⟨run :: before, first, later, rfl, ?_, visible, ?_, rfl⟩
      · exact List.forall_mem_append.mpr ⟨blanks, moreBlanks⟩
      · rw [List.flatten_cons, byteLength_append, Nat.add_assoc]
    · obtain ⟨rfl, rfl⟩ := List.cons.inj (listed.symm.trans lexemes)
      exact ⟨[], run, runs, rfl, nofun, visible, rfl, rfl⟩

theorem exists_of_mem_ofRuns {offset : Nat} {runs : List (List Char)} {lexeme : Lexeme}
    (joined : ∀ run ∈ runs, Joined run) (member : lexeme ∈ ofRuns offset runs) :
    ∃ before run later, runs = before ++ run :: later ∧ (∀ c ∈ run, of c ≠ .blank) ∧
      lexeme = ofRun (offset + byteLength before.flatten) run := by
  induction runs generalizing offset with
  | nil => contradiction
  | cons run runs ih =>
    obtain ⟨isJoined, others⟩ := List.forall_mem_cons.mp joined
    have further (isLater : lexeme ∈ ofRuns (offset + byteLength run) runs) :
        ∃ before other later, run :: runs = before ++ other :: later ∧ (∀ c ∈ other, of c ≠ .blank) ∧
          lexeme = ofRun (offset + byteLength before.flatten) other := by
      obtain ⟨before, other, later, rfl, visible, rfl⟩ := ih others isLater
      refine ⟨run :: before, other, later, rfl, visible, ?_⟩
      rw [List.flatten_cons, byteLength_append, Nat.add_assoc]
    rcases ofRuns_cons offset isJoined runs with ⟨-, skipped⟩ | ⟨visible, listed⟩
    · exact further (skipped ▸ member)
    · rcases List.mem_cons.mp (listed ▸ member) with rfl | isLater
      · exact ⟨[], run, runs, rfl, visible, rfl⟩
      · exact further isLater

end Lexeme

theorem CharClass.joined_of_mem_splitBy {text run : List Char} (member : run ∈ text.splitBy joins) :
    Joined run :=
  ⟨List.ne_nil_of_mem_splitBy member, List.isChain_of_mem_splitBy member⟩

/-- Wherever a text is split into runs, one run ends and another begins. -/
theorem CharClass.isRun_of_splitBy {text run : List Char} {before later : List (List Char)}
    (split : text.splitBy joins = before ++ run :: later) (visible : ∀ c ∈ run, of c ≠ .blank) :
    IsRun before.flatten run later.flatten := by
  have member : run ∈ text.splitBy joins := by simp [split]
  have parts := List.isChain_getLast_head_splitBy joins text
  have noNil := List.nil_notMem_splitBy joins text
  rw [split] at parts noNil
  obtain ⟨-, isChain, inFront⟩ := List.isChain_append.mp parts
  refine { joined_of_mem_splitBy member with visible, starts := ?_, stops := ?_ }
  · intro last isLast first isFirst
    rcases List.eq_nil_or_concat before with rfl | ⟨others, previous, rfl⟩
    · contradiction
    · obtain ⟨ha, hb, apart⟩ := inFront previous (by simp) run rfl
      rw [List.concat_eq_append, List.flatten_append, List.flatten_singleton,
        List.getLast?_append_of_ne_nil _ ha, List.getLast?_eq_some_getLast ha] at isLast
      rw [List.head?_eq_some_head hb] at isFirst
      cases isLast
      cases isFirst
      exact apart
  · intro last isLast first isFirst
    cases later with
    | nil => contradiction
    | cons next others =>
      obtain ⟨ha, hb, apart⟩ := isChain.rel
      rw [List.flatten_cons, List.head?_append_of_ne_nil _ hb, List.head?_eq_some_head hb] at isFirst
      rw [List.getLast?_eq_some_getLast ha] at isLast
      cases isLast
      cases isFirst
      exact apart

namespace Lexeme

open CharClass

/-- A text has exactly the lexemes of its runs. -/
theorem mem_scan_iff {text : String} {lexeme : Lexeme} : lexeme ∈ scan text ↔
    ∃ before run after, text.toList = before ++ run ++ after ∧ IsRun before run after ∧
      lexeme = ofRun (byteLength before) run := by
  constructor
  · intro member
    obtain ⟨before, run, later, split, visible, isLexeme⟩ :=
      exists_of_mem_ofRuns (fun run => joined_of_mem_splitBy) member
    rw [Nat.zero_add] at isLexeme
    have whole := List.flatten_splitBy joins text.toList
    rw [split, List.flatten_append, List.flatten_cons, ← List.append_assoc] at whole
    exact ⟨_, run, _, whole.symm, isRun_of_splitBy split visible, isLexeme⟩
  · rintro ⟨before, run, after, whole, isRun, rfl⟩
    have starts : Apart before (run ++ after) := by
      intro last isLast first isFirst
      rw [List.head?_append_of_ne_nil _ isRun.nonempty] at isFirst
      exact isRun.starts last isLast first isFirst
    rw [scan_eq, whole, List.append_assoc, scanFrom_append 0 starts, scanFrom_append _ isRun.stops,
      scanFrom_run _ isRun.toJoined isRun.visible, Nat.zero_add]
    simp

theorem le_start_of_mem_ofRuns {offset : Nat} {runs : List (List Char)} {lexeme : Lexeme}
    (joined : ∀ run ∈ runs, Joined run) (member : lexeme ∈ ofRuns offset runs) :
    offset ≤ lexeme.span.start := by
  obtain ⟨before, run, later, -, -, rfl⟩ := exists_of_mem_ofRuns joined member
  exact Nat.le_add_right _ _

/-- The lexemes stand in the order of the text, none before another has ended. -/
theorem pairwise_scan (text : String) :
    (scan text).Pairwise fun earlier later => earlier.span.stop ≤ later.span.start := by
  have ordered (offset : Nat) (runs : List (List Char)) (joined : ∀ run ∈ runs, Joined run) :
      (ofRuns offset runs).Pairwise fun earlier later => earlier.span.stop ≤ later.span.start := by
    induction runs generalizing offset with
    | nil => exact .nil
    | cons run runs ih =>
      obtain ⟨isJoined, others⟩ := List.forall_mem_cons.mp joined
      rcases ofRuns_cons offset isJoined runs with ⟨-, skipped⟩ | ⟨-, listed⟩
      · rw [skipped]
        exact ih _ others
      · rw [listed]
        exact .cons (fun later => le_start_of_mem_ofRuns others) (ih _ others)
  exact ordered 0 _ fun run => joined_of_mem_splitBy

/-- A lexeme lies inside the text and is not empty. -/
theorem span_of_mem_scan {text : String} {lexeme : Lexeme} (member : lexeme ∈ scan text) :
    lexeme.span.start < lexeme.span.stop ∧ lexeme.span.stop ≤ text.utf8ByteSize := by
  obtain ⟨before, run, after, whole, isRun, rfl⟩ := mem_scan_iff.mp member
  rw [← byteLength_toList, whole, byteLength_append, byteLength_append]
  exact ⟨Nat.lt_add_of_pos_right (byteLength_pos isRun.nonempty), Nat.le_add_right _ _⟩

end Lexeme

end ReactorCausality
