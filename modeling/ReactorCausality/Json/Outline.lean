import ReactorCausality.Json.Token

/-!
What a text says as far as it is JSON. The outline of a text holds everything in front of the
first place where the text stops being JSON and has `broken` there; every array and object that
is open at that place ends with it. So whoever takes an outline apart from left to right meets the
first fault of the text in its place, among the faults of the content.

The outline is built token by token over the stack of open arrays and objects, so a text may nest
as deep as it likes; readers set their own limits.
-/
namespace ReactorCausality

/-- What a JSON text says, as far as it is JSON. -/
inductive Outline where
  | null
  | bool (value : Bool)
  /-- A number written with digits only. -/
  | natural (value : Nat)
  /-- Any other number. -/
  | number
  /-- A string; it has no text if an escape names half a surrogate pair. -/
  | string (text? : Option String)
  | array (elements : List Outline)
  | object (members : List (Option String × Outline))
  /-- From here on the text is not JSON. -/
  | broken
  deriving Repr, Inhabited

namespace Outline

mutual

def isWhole : Outline → Bool
  | broken => false
  | array elements => areWhole elements
  | object members => membersAreWhole members
  | _ => true

def areWhole : List Outline → Bool
  | [] => true
  | element :: rest => isWhole element && areWhole rest

def membersAreWhole : List (Option String × Outline) → Bool
  | [] => true
  | (_, value) :: rest => isWhole value && membersAreWhole rest

end

/-- An array or object that waits for a value, with what it holds so far, the latest first. -/
inductive Frame where
  | array (elements : List Outline)
  /-- An object that waits for the value of a key. -/
  | object (members : List (Option String × Outline)) (key : Option String)
  deriving Repr

/-- The document of a text: its outline, and whether nothing follows it. -/
structure Document where
  root : Outline
  isAlone : Bool
  deriving Repr

/-- How far a text has been read: what is open, and what may come next. -/
inductive State where
  | value (frames : List Frame)
  /-- The first element of an array, or its end. -/
  | firstElement (frames : List Frame)
  /-- A comma behind an element, or the end of the array. -/
  | afterElement (elements : List Outline) (frames : List Frame)
  /-- The first key of an object, or its end. -/
  | firstKey (frames : List Frame)
  | key (members : List (Option String × Outline)) (frames : List Frame)
  | colon (members : List (Option String × Outline)) (key : Option String) (frames : List Frame)
  /-- A comma behind a member, or the end of the object. -/
  | afterMember (members : List (Option String × Outline)) (frames : List Frame)
  /-- Nothing. -/
  | done (document : Document)
  deriving Repr

/-- A value inside the arrays and objects that wait for it, all of which end with it. -/
def enclose (value : Outline) : List Frame → Outline
  | [] => value
  | .array elements :: frames => enclose (.array (elements.reverse ++ [value])) frames
  | .object members key :: frames => enclose (.object (members.reverse ++ [(key, value)])) frames

namespace State

/-- The document of a text that ends, or stops being JSON, where it has been read to. -/
def document : State → Document
  | value frames => ⟨enclose broken frames, true⟩
  | firstElement frames => ⟨enclose (.array [broken]) frames, true⟩
  | afterElement elements frames => ⟨enclose (.array (elements.reverse ++ [broken])) frames, true⟩
  | firstKey frames => ⟨enclose (.object [(none, broken)]) frames, true⟩
  | key members frames => ⟨enclose (.object (members.reverse ++ [(none, broken)])) frames, true⟩
  | colon members name frames =>
    ⟨enclose (.object (members.reverse ++ [(name, broken)])) frames, true⟩
  | afterMember members frames =>
    ⟨enclose (.object (members.reverse ++ [(none, broken)])) frames, true⟩
  | done document => document

/-- What comes behind a complete value. -/
def after (content : Outline) : List Frame → State
  | [] => done ⟨content, true⟩
  | .array elements :: frames => afterElement (content :: elements) frames
  | .object members name :: frames => afterMember ((name, content) :: members) frames

/-- What comes behind the first token of a value. -/
def start (frames : List Frame) : JsonToken → State
  | .openArray => firstElement frames
  | .openObject => firstKey frames
  | .null => after null frames
  | .bool flag => after (bool flag) frames
  | .natural count => after (natural count) frames
  | .number => after number frames
  | .string text? => after (string text?) frames
  | _ => done (value frames).document

/-- What comes behind one more token. -/
def step : State → JsonToken → State
  | done document, _ => done { document with isAlone := false }
  | value frames, token => start frames token
  | firstElement frames, .closeArray => after (.array []) frames
  | firstElement frames, token => start (.array [] :: frames) token
  | afterElement elements frames, .comma => value (.array elements :: frames)
  | afterElement elements frames, .closeArray => after (.array elements.reverse) frames
  | firstKey frames, .closeObject => after (.object []) frames
  | firstKey frames, .string name => colon [] name frames
  | key members frames, .string name => colon members name frames
  | colon members name frames, .colon => value (.object members name :: frames)
  | afterMember members frames, .comma => key members frames
  | afterMember members frames, .closeObject => after (.object members.reverse) frames
  | state, _ => done state.document

end State

def read (text : String) : Document :=
  ((JsonToken.scan text.toList).foldl State.step (.value [])).document

end Outline

end ReactorCausality
