import ReactorCausality.Subject

/-!
Diagnostics. A diagnostic is an error or a warning about entities of a program. It may carry a
code that stays with its meaning for good, a chain of causes and a hint.
-/
namespace ReactorCausality

/-- The codes of diagnostics. -/
inductive DiagnosticCode where
  /-- A zero-delay dependency cycle. -/
  | e0100
  /-- A zero-delay dependency between federates without a bound for its wait. -/
  | e0200
  /-- The analysis contradicts itself. -/
  | e0900
  /-- The program is malformed. -/
  | e0901
  /-- A wait between federates has no bound and is left to the coordinator. -/
  | w0200
  /-- A declared delay uses up the whole bound of a wait. -/
  | w0201
  deriving DecidableEq, Repr

def DiagnosticCode.text : DiagnosticCode → String
  | e0100 => "E0100"
  | e0200 => "E0200"
  | e0900 => "E0900"
  | e0901 => "E0901"
  | w0200 => "W0200"
  | w0201 => "W0201"

/-- How bad it is. -/
inductive Severity where
  | error
  | warning
  deriving DecidableEq, Repr

def Severity.word : Severity → String
  | error => "error"
  | warning => "warning"

/-- What kind of trouble a diagnostic is about. -/
inductive DiagnosticKind where
  | graphCycle
  | invariantViolation
  | malformedModel
  | unresolvableBoundaryTiming
  | boundaryTiming
  deriving DecidableEq, Repr

def DiagnosticKind.word : DiagnosticKind → String
  | graphCycle => "graph_cycle"
  | invariantViolation => "invariant_violation"
  | malformedModel => "malformed_model"
  | unresolvableBoundaryTiming => "unresolvable_boundary_timing"
  | boundaryTiming => "boundary_timing"

/-- A subject with its hierarchical name. -/
structure Involved where
  subject : Subject
  name : String
  deriving DecidableEq, Repr

/-- One cause in a chain. -/
structure Cause where
  message : String
  subject : Option Subject := none
  deriving DecidableEq, Repr

/-- An error or a warning. -/
structure Diagnostic where
  severity : Severity
  kind : DiagnosticKind
  message : String
  code : Option DiagnosticCode := none
  hint : Option String := none
  involved : List Involved := []
  causes : List Cause := []
  deriving DecidableEq, Repr

namespace Diagnostic

def isError (diagnostic : Diagnostic) : Bool :=
  diagnostic.severity == .error

def anyError (diagnostics : List Diagnostic) : Bool :=
  diagnostics.any isError

/-- The diagnostic for a reader: a line for the message, one for each cause and one for the
hint. -/
def text (diagnostic : Diagnostic) : String :=
  let code :=
    match diagnostic.code with
    | none => ""
    | some code => s!"[{code.text}]"
  let head := s!"{diagnostic.severity.word}{code}: {diagnostic.message}"
  let causes := diagnostic.causes.map fun cause => s!"  note: {cause.message}"
  let hint := diagnostic.hint.toList.map fun hint => s!"  hint: {hint}"
  "\n".intercalate (head :: (causes ++ hint))

def toJson (diagnostic : Diagnostic) : Json :=
  .object [
    ("cause_chain", .ofList
      (fun cause => .object [
        ("message", .string cause.message),
        ("node", .ofOption Subject.toJson cause.subject)])
      diagnostic.causes),
    ("code", .ofOption (fun code => .string code.text) diagnostic.code),
    ("hint", .ofOption .string diagnostic.hint),
    ("involved", .ofList
      (fun involved => .object [
        ("name", .string involved.name),
        ("node", involved.subject.toJson)])
      diagnostic.involved),
    ("kind", .string diagnostic.kind.word),
    ("level", .string diagnostic.severity.word),
    ("message", .string diagnostic.message)]

end Diagnostic

end ReactorCausality
