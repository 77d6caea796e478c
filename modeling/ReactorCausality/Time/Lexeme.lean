import ReactorCausality.Time.Unit

/-!
The lexemes of a time literal. Text is cut into runs: digits, letters and blanks run together as
far as they go, and any other character stands alone. Blank runs separate; every other run is a
lexeme. A lexeme that is no token keeps its place, so nothing of the text is dropped.
-/
namespace ReactorCausality

/-- A stretch of text between two offsets, counted in the bytes of its UTF-8 form. -/
structure Span where
  start : Nat
  stop : Nat
  deriving DecidableEq, Repr

/-- What the characters of a run have in common. -/
inductive CharClass where
  | blank
  | digit
  | letter
  | other
  deriving DecidableEq, Repr

namespace CharClass

/-- The class of a character. Only space, tab, carriage return and line feed are blank, and only
ASCII digits and letters are digits and letters. -/
def of (c : Char) : CharClass :=
  if c == ' ' || c == '\t' || c == '\r' || c == '\n' then blank
  else if c.isDigit then digit
  else if c.isAlpha then letter
  else other

/-- Whether two neighbouring characters belong to one run. -/
def joins (left right : Char) : Bool :=
  of left == of right && of left != other

end CharClass

/-- A token of a time literal. -/
inductive TimeToken where
  | forever
  | magnitude (count : UInt64)
  | unit (length : TimeUnit)
  deriving DecidableEq, Repr

namespace TimeToken

/-- The token as it is written in a message: a unit under its canonical name. -/
def text : TimeToken → String
  | .forever => "forever"
  | .magnitude count => toString count.toNat
  | .unit length => length.name

/-- The token that a run of one class spells. A digit run has to fit a 64-bit word; leading zeros
do not matter. -/
def ofRun? (run : List Char) : CharClass → Option TimeToken
  | .digit =>
    let count := Nat.ofDigitChars 10 run 0
    if count < UInt64.size then some (.magnitude (UInt64.ofNat count)) else none
  | .letter =>
    if String.ofList run == "forever" then some .forever
    else (TimeUnit.ofWord? (String.ofList run)).map TimeToken.unit
  | .blank => none
  | .other => none

end TimeToken

/-- One lexeme: its place, its text and its token, if it spells one. -/
structure Lexeme where
  span : Span
  text : String
  token? : Option TimeToken
  deriving DecidableEq, Repr

namespace Lexeme

def byteLength (run : List Char) : Nat :=
  run.foldr (fun c length => c.utf8Size + length) 0

/-- The lexemes of consecutive runs, the first of which starts at `offset`. -/
def ofRuns (offset : Nat) : List (List Char) → List Lexeme
  | [] => []
  | [] :: runs => ofRuns offset runs
  | (c :: run) :: runs =>
    let stop := offset + byteLength (c :: run)
    let rest := ofRuns stop runs
    match CharClass.of c with
    | .blank => rest
    | kind => ⟨⟨offset, stop⟩, String.ofList (c :: run), TimeToken.ofRun? (c :: run) kind⟩ :: rest

def scan (text : String) : List Lexeme :=
  ofRuns 0 (text.toList.splitBy CharClass.joins)

end Lexeme

end ReactorCausality
