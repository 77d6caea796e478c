import ReactorCausality.Time.Lexeme
import ReactorCausality.Time.Value

/-!
Reading time literals. A literal is `forever`, a magnitude with a unit, or a magnitude of zero
alone. Lexemes that spell no token are reported all together and before anything else; otherwise
there is exactly one fault, found from left to right.
-/
namespace ReactorCausality

/-- Why a text is no time literal. -/
inductive TimeFault where
  /-- A lexeme is no token. -/
  | unrecognized (text : String)
  /-- There is no token at all. -/
  | missing
  /-- A literal does not start with this token. -/
  | misplaced (token : TimeToken)
  /-- The literal is complete before this token. -/
  | surplus (token : TimeToken)
  /-- A magnitude other than zero has no unit. -/
  | unitless (magnitude : UInt64)
  /-- The duration is not less than `forever`. -/
  | overflow (magnitude : UInt64) (unit : TimeUnit)
  deriving DecidableEq, Repr

def TimeFault.message : TimeFault → String
  | unrecognized text => s!"unrecognized time token '{text}'"
  | missing => "found end of input expected something else"
  | misplaced token => s!"found '{token.text}' expected something else"
  | surplus token => s!"found '{token.text}' expected end of input"
  | unitless magnitude => s!"missing time unit after nonzero magnitude {magnitude.toNat}"
  | overflow magnitude unit => s!"time value {magnitude.toNat} {unit.name} overflows"

/-- A fault and where it is. -/
structure TimeError where
  span : Span
  fault : TimeFault
  deriving DecidableEq, Repr

namespace TimeError

def message (error : TimeError) : String :=
  error.fault.message

def describe (errors : List TimeError) : String :=
  "; ".intercalate
    (errors.map fun error => s!"{error.message} (at {error.span.start}..{error.span.stop})")

end TimeError

namespace TimeValue

/-- The duration that a magnitude and what follows it make, with what is left over. -/
def ofMagnitude (span : Span) (magnitude : UInt64) :
    List (TimeToken × Span) → Except TimeError (TimeValue × List (TimeToken × Span))
  | (.unit unit, _) :: rest =>
    match ofParts? magnitude unit with
    | some value => .ok (value, rest)
    | none => .error ⟨span, .overflow magnitude unit⟩
  | rest =>
    if magnitude = 0 then .ok (zero, rest) else .error ⟨span, .unitless magnitude⟩

/-- Refuses anything after a complete literal. -/
def finish (value : TimeValue) : List (TimeToken × Span) → Except TimeError TimeValue
  | [] => .ok value
  | (token, span) :: _ => .error ⟨span, .surplus token⟩

/-- The duration that a list of tokens stands for; the text they come from has `length` bytes. -/
def ofTokens (length : Nat) : List (TimeToken × Span) → Except TimeError TimeValue
  | [] => .error ⟨⟨length, length⟩, .missing⟩
  | (.forever, _) :: rest => finish forever rest
  | (.unit unit, span) :: _ => .error ⟨span, .misplaced (.unit unit)⟩
  | (.magnitude magnitude, span) :: rest => do
    let (value, rest) ← ofMagnitude span magnitude rest
    finish value rest

/-- The lexemes that are no token, as faults. -/
def unrecognized (lexemes : List Lexeme) : List TimeError :=
  (lexemes.filter fun lexeme => lexeme.token?.isNone).map fun lexeme =>
    ⟨lexeme.span, .unrecognized lexeme.text⟩

/-- The lexemes that are tokens, with their places. -/
def recognized (lexemes : List Lexeme) : List (TimeToken × Span) :=
  lexemes.filterMap fun lexeme => lexeme.token?.map fun token => (token, lexeme.span)

/-- The duration that a text stands for, or everything that is wrong with the text. -/
def parse (text : String) : Except (List TimeError) TimeValue :=
  let lexemes := Lexeme.scan text
  match unrecognized lexemes with
  | [] => (ofTokens text.utf8ByteSize (recognized lexemes)).mapError fun error => [error]
  | errors => .error errors

end TimeValue

end ReactorCausality
