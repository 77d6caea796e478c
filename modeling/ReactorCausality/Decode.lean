import ReactorCausality.Json.Outline
import ReactorCausality.Time.Literal

/-!
Reading values out of JSON texts. A reader takes an outline apart in the order of the text, so of
several faults the one that stands first in the text is reported. Arrays and objects may nest 127
deep wherever a value is read; what is skipped may nest deeper.

A record is written as an object with its fields in any order, or as an array of its fields in
their order. Fields that nobody asks for are skipped; a field that is given twice is refused, and
so is a missing field that has to be there.
-/
namespace ReactorCausality

/-- Why a text does not hold the value that is looked for. -/
inductive DecodeFault where
  /-- The text is no JSON, or JSON of another shape. -/
  | shape
  /-- A string is no time literal. -/
  | literal (text : String) (errors : List TimeError)
  deriving DecidableEq, Repr

/-- The wording of a fault, where the library has one. -/
def DecodeFault.message? : DecodeFault → Option String
  | shape => none
  | literal text errors => some s!"invalid time value '{text}': {TimeError.describe errors}"

/-- A way to read a value out of an outline. -/
abbrev Decoder (α : Type) := Outline → Except DecodeFault α

namespace Decoder

/-- How deep arrays and objects may nest where a value is read. -/
def nestingLimit : Nat := 127

/-- Reads nothing. -/
def refuse {α : Type} : Decoder α :=
  fun _ => .error .shape

def bool : Decoder Bool
  | .bool value => .ok value
  | _ => .error .shape

def word : Decoder UInt32
  | .natural value => if value < UInt32.size then .ok (UInt32.ofNat value) else .error .shape
  | _ => .error .shape

def string : Decoder String
  | .string (some text) => .ok text
  | _ => .error .shape

def time : Decoder TimeValue
  | .string (some text) => (TimeValue.parse text).mapError (.literal text)
  | _ => .error .shape

def optional {α : Type} (decoder : Decoder α) : Decoder (Option α)
  | .null => .ok none
  | outline => (decoder outline).map some

/-- The elements of an array, none of which nests deeper than the second argument says. -/
def list {α : Type} (element : Nat → Decoder α) : Nat → Decoder (List α)
  | depth + 1, .array elements => elements.mapM (element depth)
  | _, _ => .error .shape

/-- An object as a list of its members, in the order of the text. -/
def members {α : Type} (value : Nat → Decoder α) : Nat → Decoder (List (String × α))
  | depth + 1, .object members =>
    members.mapM fun (key?, outline) =>
      match key? with
      | some key => (value depth outline).map (key, ·)
      | none => .error .shape
  | _, _ => .error .shape

/-- One of several alternatives. An alternative without content is written as its name, or as an
object from its name to `null`; one with content as an object from its name to the content. -/
def choice {α : Type} (plain : List (String × α)) (carrying : List (String × (Nat → Decoder α))) :
    Nat → Decoder α
  | _, .string (some name) =>
    match plain.lookup name with
    | some value => .ok value
    | none => .error .shape
  | depth + 1, .object ((some name, content) :: others) => do
    let value ←
      match plain.lookup name, content with
      | some value, .null => .ok value
      | some _, _ => .error .shape
      | none, content =>
        match carrying.lookup name with
        | some decoder => decoder depth content
        | none => .error .shape
    if others.isEmpty then .ok value else .error .shape
  | _, _ => .error .shape

/-- A field of a record: how its value is read and put into the record. -/
structure Field (α : Type) where
  name : String
  isRequired : Bool
  fill : α → Decoder α

def Field.required {α β : Type} (name : String) (decoder : Decoder β) (fill : α → β → α) : Field α :=
  ⟨name, true, fun record outline => (decoder outline).map (fill record)⟩

/-- A field that keeps the value it has in the blank record when it is not given. -/
def Field.defaulted {α β : Type} (name : String) (decoder : Decoder β) (fill : α → β → α) : Field α :=
  ⟨name, false, fun record outline => (decoder outline).map (fill record)⟩

/-- Fills in the fields of a record from the elements of an array; the fields that are left over
must not be required. -/
def fillInOrder {α : Type} (record : α) : List (Field α) → List Outline → Except DecodeFault α
  | fields, [] => if fields.any Field.isRequired then .error .shape else .ok record
  | [], _ :: _ => .error .shape
  | field :: fields, outline :: outlines => do
    let record ← field.fill record outline
    fillInOrder record fields outlines

/-- Fills in the fields of a record from the members of an object, given the names of the fields
that have been filled in already. -/
def fillByName {α : Type} (fields : List (Field α)) (record : α) (filled : List String) :
    List (Option String × Outline) → Except DecodeFault α
  | [] =>
    if fields.any fun field => field.isRequired && !filled.contains field.name then .error .shape
    else .ok record
  | (none, _) :: _ => .error .shape
  | (some key, outline) :: members =>
    match fields.find? fun field => field.name == key with
    | some field =>
      if filled.contains key then .error .shape
      else do
        let record ← field.fill record outline
        fillByName fields record (key :: filled) members
    | none =>
      if outline.isWhole then fillByName fields record filled members else .error .shape

/-- A record with the given fields. The fields get the nesting that is left inside the record. -/
def record {α : Type} (blank : α) (fields : Nat → List (Field α)) : Nat → Decoder α
  | depth + 1, .array elements => fillInOrder blank (fields depth) elements
  | depth + 1, .object members => fillByName (fields depth) blank [] members
  | _, _ => .error .shape

/-- Reads a whole text. -/
def text {α : Type} (decoder : Nat → Decoder α) (text : String) : Except DecodeFault α := do
  let document := Outline.read text
  let value ← decoder nestingLimit document.root
  if document.isAlone then .ok value else .error .shape

end Decoder

end ReactorCausality
