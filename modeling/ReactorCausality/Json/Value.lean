/-!
JSON documents as this library writes them: the only numbers are natural numbers, and the members
of an object keep the order they are given in. A document has two written forms, one without any
blanks and one with a line for every element, indented by two blanks a level.
-/
namespace ReactorCausality

/-- A JSON document. -/
inductive Json where
  | null
  | bool (value : Bool)
  | nat (value : Nat)
  | string (text : String)
  | array (elements : List Json)
  | object (members : List (String × Json))
  deriving Repr, Inhabited

namespace Json

/-- A value that may be absent, which is written as `null`. -/
def ofOption {α : Type} (encode : α → Json) : Option α → Json
  | none => null
  | some value => encode value

def ofList {α : Type} (encode : α → Json) (values : List α) : Json :=
  array (values.map encode)

/-- A character inside a quoted string. The quote, the backslash and the characters below the
blank are escaped, the usual ones by a letter and the others by their code. -/
def escape (c : Char) : List Char :=
  if c == '"' then ['\\', '"']
  else if c == '\\' then ['\\', '\\']
  else if c == '\x08' then ['\\', 'b']
  else if c == '\x0c' then ['\\', 'f']
  else if c == '\n' then ['\\', 'n']
  else if c == '\r' then ['\\', 'r']
  else if c == '\t' then ['\\', 't']
  else if c.toNat < 32 then
    ['\\', 'u', '0', '0', Nat.digitChar (c.toNat / 16), Nat.digitChar (c.toNat % 16)]
  else [c]

def quote (text : String) : String :=
  String.ofList ('"' :: (text.toList.flatMap escape ++ ['"']))

mutual

def compact : Json → String
  | null => "null"
  | bool value => if value then "true" else "false"
  | nat value => toString value
  | string text => quote text
  | array elements => "[" ++ ",".intercalate (compactElements elements) ++ "]"
  | object members => "\x7b" ++ ",".intercalate (compactMembers members) ++ "\x7d"

def compactElements : List Json → List String
  | [] => []
  | element :: rest => compact element :: compactElements rest

def compactMembers : List (String × Json) → List String
  | [] => []
  | (key, value) :: rest => (quote key ++ ":" ++ compact value) :: compactMembers rest

end

/-- Items between brackets, each on a line of its own, indented one level deeper than the
brackets; brackets around nothing stay together. -/
def block (opening closing : String) (level : Nat) (items : List String) : String :=
  let indent (level : Nat) : String := "".pushn ' ' (2 * level)
  if items.isEmpty then opening ++ closing
  else
    opening ++ "\n" ++ ",\n".intercalate (items.map (indent (level + 1) ++ ·)) ++ "\n"
      ++ indent level ++ closing

mutual

/-- The written form over several lines, at a level of indentation. -/
def indented (level : Nat) : Json → String
  | null => "null"
  | bool value => if value then "true" else "false"
  | nat value => toString value
  | string text => quote text
  | array elements => block "[" "]" level (indentedElements (level + 1) elements)
  | object members => block "\x7b" "\x7d" level (indentedMembers (level + 1) members)

def indentedElements (level : Nat) : List Json → List String
  | [] => []
  | element :: rest => indented level element :: indentedElements level rest

def indentedMembers (level : Nat) : List (String × Json) → List String
  | [] => []
  | (key, value) :: rest =>
    (quote key ++ ": " ++ indented level value) :: indentedMembers level rest

end

def pretty (document : Json) : String :=
  indented 0 document

end Json

end ReactorCausality
