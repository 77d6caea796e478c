import ReactorCausality.Rendering.Dot

/-!
A reader of the DOT language. A text is cut into words, quoted texts and marks; a quoted text ends at the
first quote without a backslash in front of it. Of these the statements are made, and braces put those
between them into a block. A text whose quotes or braces do not match is not read at all.

A quoted text is read as what was quoted (`spells_quote`), so that nothing in it opens or closes anything.
-/
namespace ReactorCausality

namespace Dot

/-! ### Tokens -/

inductive Value where
  | word (text : String)
  /-- A text in quotes, without the backslashes that escape in it. -/
  | quoted (text : String)
  deriving DecidableEq, Repr

/-- What a text is made of. -/
inductive Token where
  | value (value : Value)
  | mark (c : Char)
  deriving DecidableEq, Repr

@[match_pattern]
abbrev Token.word (text : String) : Token :=
  .value (.word text)

@[match_pattern]
abbrev Token.quoted (text : String) : Token :=
  .value (.quoted text)

def isBlank (c : Char) : Bool :=
  [' ', '\t', '\r', '\n'].contains c

def isMark (c : Char) : Bool :=
  ['{', '}', '[', ']', ';', '=', ',', '-', '>'].contains c

/-- Whether a character neither ends a word nor begins anything else. -/
def isPlain (c : Char) : Bool :=
  !(isBlank c || isMark c || c == '"')

/-- What a scan is inside of, with what it has read of it, the last character first. -/
inductive Place where
  | between
  | word (read : List Char)
  | quoted (read : List Char)
  /-- Behind a backslash in a quoted text. -/
  | escape (read : List Char)

/-- A place in a text, with the tokens in front of it, the last one first. -/
structure Scan where
  place : Place
  tokens : List Token

namespace Scan

/-- What a character begins. -/
def start (tokens : List Token) (c : Char) : Scan :=
  if isPlain c then ⟨.word [c], tokens⟩
  else if c = '"' then ⟨.quoted [], tokens⟩
  else if isMark c then ⟨.between, .mark c :: tokens⟩
  else ⟨.between, tokens⟩

def next (scan : Scan) (c : Char) : Scan :=
  match scan with
  | ⟨.between, tokens⟩ => start tokens c
  | ⟨.word read, tokens⟩ =>
    if isPlain c then ⟨.word (c :: read), tokens⟩
    else start (.word (String.ofList read.reverse) :: tokens) c
  | ⟨.quoted read, tokens⟩ =>
    if c = '"' then ⟨.between, .quoted (String.ofList read.reverse) :: tokens⟩
    else if c = '\\' then ⟨.escape read, tokens⟩
    else ⟨.quoted (c :: read), tokens⟩
  | ⟨.escape read, tokens⟩ => ⟨.quoted (c :: read), tokens⟩

/-- The tokens of a whole text, unless it ends inside quotes. -/
def finish? : Scan → Option (List Token)
  | ⟨.between, tokens⟩ => some tokens.reverse
  | ⟨.word read, tokens⟩ => some (.word (String.ofList read.reverse) :: tokens).reverse
  | _ => none

end Scan

def tokens? (text : String) : Option (List Token) :=
  (text.toList.foldl Scan.next ⟨.between, []⟩).finish?

/-! ### Statements -/

/-- What ends with a semicolon, or what stands between braces behind something. -/
inductive Statement where
  | plain (tokens : List Token)
  | block (head : List Token) (body : List Statement)

/-- The tokens of the statement that is being read and the statements in front of it in the same block, the
last ones first, and what stands around the block, from inside out. -/
structure Reading where
  pending : List Token
  body : List Statement
  around : List (List Token × List Statement)

namespace Reading

/-- The block that is open becomes a statement of the one around it. -/
def close? : Reading → Option Reading
  | ⟨[], body, (head, before) :: around⟩ => some ⟨[], .block head body.reverse :: before, around⟩
  | _ => none

def next? (reading : Reading) (token : Token) : Option Reading :=
  if token = .mark ';' then
    some { reading with pending := [], body := .plain reading.pending.reverse :: reading.body }
  else if token = .mark '{' then
    some ⟨[], [], (reading.pending.reverse, reading.body) :: reading.around⟩
  else if token = .mark '}' then reading.close?
  else some { reading with pending := token :: reading.pending }

/-- The statements of a whole text, if no statement and no block is left open. -/
def finish? : Reading → Option (List Statement)
  | ⟨[], body, []⟩ => some body.reverse
  | _ => none

end Reading

def read? (text : String) : Option (List Statement) := do
  let tokens ← tokens? text
  let reading ← tokens.foldlM Reading.next? ⟨[], [], []⟩
  reading.finish?

/-! ### What statements say -/

/-- The names and values in front of a closing bracket. -/
def attributes? : List Token → Option (List (String × Value))
  | [.word name, .mark '=', .value value, .mark ']'] => some [(name, value)]
  | .word name :: .mark '=' :: .value value :: .mark ',' :: rest =>
    (attributes? rest).map fun attributes => (name, value) :: attributes
  | _ => none

/-- The attributes in brackets, which may be missing. -/
def attributeList? : List Token → Option (List (String × Value))
  | [] => some []
  | .mark '[' :: rest => attributes? rest
  | _ => none

/-- An arrow from node to node. It has no attributes if they cannot be read. -/
structure Arrow where
  source : String
  target : String
  attributes : Option (List (String × Value))
  deriving DecidableEq, Repr

def arrow? : List Token → Option Arrow
  | .word source :: .mark '-' :: .mark '>' :: .word target :: rest =>
    some ⟨source, target, attributeList? rest⟩
  | _ => none

/-- A node, with what stands in front of the block that declares it. -/
structure Declaration where
  inside : List Token
  name : String
  attributes : Option (List (String × Value))
  deriving DecidableEq, Repr

/-- A statement inside some block declares the node that it begins with, unless it is about all nodes or edges,
a setting or an arrow. -/
def declaration? : List Token × List Token → Option Declaration
  | (_, .word _ :: .mark '=' :: _) => none
  | (_, .word _ :: .mark '-' :: _) => none
  | (inside, .word name :: rest) =>
    if name ∈ ["graph", "node", "edge"] then none else some ⟨inside, name, attributeList? rest⟩
  | _ => none

def label? : Statement → Option Value
  | .plain [.word "label", .mark '=', .value value] => some value
  | _ => none

/-- A block without everything but the labels and the blocks in it. -/
inductive Outline where
  | block (head : List Token) (labels : List Value) (inner : List Outline)

mutual

def Statement.outlines : Statement → List Outline
  | .plain _ => []
  | .block head body => [.block head (body.filterMap label?) (outlines body)]

/-- The outlines of the blocks among some statements, in order. -/
def outlines : List Statement → List Outline
  | [] => []
  | statement :: rest => statement.outlines ++ outlines rest

end

mutual

/-- The statements that are no blocks, each with what stands in front of the block around it. -/
def Statement.plains (inside : List Token) : Statement → List (List Token × List Token)
  | .plain tokens => [(inside, tokens)]
  | .block head body => plains head body

def plains (inside : List Token) : List Statement → List (List Token × List Token)
  | [] => []
  | statement :: rest => statement.plains inside ++ plains inside rest

end

theorem outlines_append (statements later : List Statement) :
    outlines (statements ++ later) = outlines statements ++ outlines later := by
  induction statements with
  | nil => rfl
  | cons statement rest ih => rw [List.cons_append, outlines, outlines, ih, List.append_assoc]

theorem outlines_map {α : Type} (statement : α → Statement) (items : List α) :
    outlines (items.map statement) = items.flatMap fun item => (statement item).outlines := by
  induction items with
  | nil => rfl
  | cons item rest ih => rw [List.map_cons, outlines, ih, List.flatMap_cons]

theorem outlines_map_plain {α : Type} (tokens : α → List Token) (items : List α) :
    outlines (items.map fun item => .plain (tokens item)) = [] :=
  (outlines_map _ items).trans (List.flatMap_eq_nil_iff.mpr fun _ _ => rfl)

theorem plains_append (inside : List Token) (statements later : List Statement) :
    plains inside (statements ++ later) = plains inside statements ++ plains inside later := by
  induction statements with
  | nil => rfl
  | cons statement rest ih => rw [List.cons_append, plains, plains, ih, List.append_assoc]

theorem plains_map {α : Type} (inside : List Token) (statement : α → Statement) (items : List α) :
    plains inside (items.map statement) = items.flatMap fun item => (statement item).plains inside := by
  induction items with
  | nil => rfl
  | cons item rest ih => rw [List.map_cons, plains, ih, List.flatMap_cons]

theorem plains_map_plain {α : Type} (inside : List Token) (tokens : α → List Token) (items : List α) :
    plains inside (items.map fun item => .plain (tokens item)) =
      items.map fun item => (inside, tokens item) := by
  rw [plains_map, List.map_eq_flatMap]
  rfl

/-- The nodes that some statements declare, in the order of the text. -/
def declarations (statements : List Statement) : List Declaration :=
  (plains [] statements).filterMap declaration?

/-- The arrows among some statements, in the order of the text. -/
def arrows (statements : List Statement) : List Arrow :=
  (plains [] statements).filterMap fun said => arrow? said.2

/-! ### Texts and their tokens -/

/-- A text stands for tokens, whatever stands in front of it. -/
def Spells (text : String) (tokens : List Token) : Prop :=
  ∀ before, text.toList.foldl Scan.next ⟨.between, before⟩ = ⟨.between, tokens.reverse ++ before⟩

/-- A text stands for tokens if its end is not the middle of a word. -/
def Writes (text : String) (tokens : List Token) : Prop :=
  ∀ before stop, isPlain stop = false →
    (text.toList.foldl Scan.next ⟨.between, before⟩).next stop =
      .start (tokens.reverse ++ before) stop

theorem Spells.writes {text : String} {tokens : List Token} (spells : Spells text tokens) :
    Writes text tokens := by
  intro before stop _
  rw [spells before]
  rfl

theorem Spells.append {text more : String} {tokens later : List Token} (spells : Spells text tokens)
    (others : Spells more later) : Spells (text ++ more) (tokens ++ later) := by
  intro before
  rw [String.toList_append, List.foldl_append, spells before, others, List.reverse_append,
    List.append_assoc]

theorem Spells.append_writes {text more : String} {tokens later : List Token}
    (spells : Spells text tokens) (writes : Writes more later) :
    Writes (text ++ more) (tokens ++ later) := by
  intro before stop stops
  rw [String.toList_append, List.foldl_append, spells before, writes _ stop stops,
    List.reverse_append, List.append_assoc]

/-- What does not go on with a word ends it. -/
theorem Writes.append {text more : String} {tokens later : List Token} (writes : Writes text tokens)
    (spells : Spells more later) {stop : Char} (begins : more.toList.head? = some stop)
    (stops : isPlain stop = false) : Spells (text ++ more) (tokens ++ later) := by
  intro before
  obtain ⟨rest, more_eq⟩ := List.head?_eq_some_iff.mp begins
  have others := spells (tokens.reverse ++ before)
  rw [more_eq, List.foldl_cons] at others
  rw [String.toList_append, more_eq, List.foldl_append, List.foldl_cons, writes before stop stops,
    List.reverse_append, List.append_assoc]
  exact others

/-- What is read as one word. -/
def IsWord (text : String) : Prop :=
  text ≠ "" ∧ text.toList.all isPlain

instance (text : String) : Decidable (IsWord text) :=
  inferInstanceAs (Decidable (_ ∧ _))

theorem writes_word {text : String} (isWord : IsWord text) : Writes text [.word text] := by
  obtain ⟨nonempty, plain⟩ := isWord
  rw [List.all_eq_true] at plain
  intro before stop stops
  have go (read : List Char) (rest : List Char) (plain : ∀ c ∈ rest, isPlain c) :
      rest.foldl Scan.next ⟨.word read, before⟩ = ⟨.word (rest.reverse ++ read), before⟩ := by
    induction rest generalizing read with
    | nil => rfl
    | cons c rest ih =>
      obtain ⟨first, others⟩ := List.forall_mem_cons.mp plain
      rw [List.foldl_cons, Scan.next, if_pos first, ih _ others, List.reverse_cons,
        List.append_assoc, List.singleton_append]
  obtain ⟨c, rest, text_eq⟩ := List.exists_cons_of_ne_nil (mt String.toList_eq_nil_iff.mp nonempty)
  rw [text_eq] at plain ⊢
  obtain ⟨first, others⟩ := List.forall_mem_cons.mp plain
  rw [List.foldl_cons, Scan.next, Scan.start, if_pos first, go [c] rest others, Scan.next,
    if_neg (by simp [stops]), List.reverse_append, List.reverse_reverse, List.reverse_singleton,
    List.singleton_append, ← text_eq, String.ofList_toList]
  rfl

/-- Backslashes are doubled before quotes get theirs, so that no backslash of a quote is doubled. -/
theorem quote_eq_passes (text : String) :
    let doubled := text.toList.flatMap fun c => if c = '\\' then ['\\', '\\'] else [c]
    let marked := doubled.flatMap fun c => if c = '"' then ['\\', '"'] else [c]
    quote text = String.ofList ('"' :: (marked ++ ['"'])) := by
  intro doubled marked
  have once : marked = text.toList.flatMap fun c =>
      if c == '\\' || c == '"' then ['\\', c] else [c] := by
    simp only [marked, doubled, List.flatMap_assoc]
    congr 1
    funext c
    by_cases isBackslash : c = '\\'
    · simp [isBackslash]
    · by_cases isQuote : c = '"' <;> simp [isBackslash, isQuote]
  rw [once]
  rfl

/-- A quoted text ends where it should, and is read as what was quoted. -/
theorem spells_quote (text : String) : Spells (quote text) [.quoted text] := by
  intro before
  have go (read rest : List Char) :
      ((rest.flatMap fun c => if c == '\\' || c == '"' then ['\\', c] else [c]) ++ ['"']).foldl
          Scan.next ⟨.quoted read, before⟩ =
        ⟨.between, .quoted (String.ofList (rest.reverse ++ read).reverse) :: before⟩ := by
    induction rest generalizing read with
    | nil => rfl
    | cons c rest ih =>
      have later := ih (c :: read)
      rw [List.reverse_cons, List.append_assoc, List.singleton_append, ← later, List.flatMap_cons,
        List.append_assoc, List.foldl_append]
      congr 1
      by_cases isEscaped : c = '\\' ∨ c = '"'
      · rcases isEscaped with rfl | rfl <;> rfl
      · obtain ⟨noBackslash, noQuote⟩ := not_or.mp isEscaped
        simp [noBackslash, noQuote, Scan.next]
  rw [quote, String.toList_ofList, List.foldl_cons]
  have read := go [] text.toList
  rw [List.append_nil, List.reverse_reverse, String.ofList_toList] at read
  exact read

/-! ### Texts and their statements -/

/-- Tokens stand for statements inside whatever block they are. -/
def Forms (tokens : List Token) (statements : List Statement) : Prop :=
  ∀ body around, tokens.foldlM Reading.next? ⟨[], body, around⟩ =
    some ⟨[], statements.reverse ++ body, around⟩

/-- A text stands for statements. -/
def Prints (text : String) (statements : List Statement) : Prop :=
  ∃ tokens, Spells text tokens ∧ Forms tokens statements

/-- Tokens none of which ends a statement, or opens or closes a block. -/
def Inner (tokens : List Token) : Prop :=
  ∀ token ∈ tokens, token ∉ [.mark ';', .mark '{', .mark '}']

theorem Inner.foldlM_next? {tokens : List Token} (inner : Inner tokens) (pending : List Token)
    (body : List Statement) (around : List (List Token × List Statement)) :
    tokens.foldlM Reading.next? ⟨pending, body, around⟩ =
      some ⟨tokens.reverse ++ pending, body, around⟩ := by
  induction tokens generalizing pending with
  | nil => rfl
  | cons token rest ih =>
    obtain ⟨first, others⟩ := List.forall_mem_cons.mp inner
    simp only [List.mem_cons, List.not_mem_nil, or_false, not_or] at first
    obtain ⟨noEnd, noOpening, noClosing⟩ := first
    rw [List.foldlM_cons, Reading.next?, if_neg noEnd, if_neg noOpening, if_neg noClosing,
      List.reverse_cons, List.append_assoc, List.singleton_append]
    exact ih others _

theorem Forms.append {tokens later : List Token} {statements more : List Statement}
    (forms : Forms tokens statements) (others : Forms later more) :
    Forms (tokens ++ later) (statements ++ more) := by
  intro body around
  rw [List.foldlM_append, forms]
  simpa using others _ _

theorem Inner.forms_plain {tokens : List Token} (inner : Inner tokens) :
    Forms (tokens ++ [.mark ';']) [.plain tokens] := by
  intro body around
  rw [List.foldlM_append, inner.foldlM_next?]
  simp [Reading.next?]

theorem Inner.forms_block {head tokens : List Token} {statements : List Statement}
    (inner : Inner head) (forms : Forms tokens statements) :
    Forms (head ++ [.mark '{'] ++ tokens ++ [.mark '}']) [.block head statements] := by
  intro body around
  rw [List.foldlM_append, List.foldlM_append, List.foldlM_append, inner.foldlM_next?]
  simp [Reading.next?, forms [] _, Reading.close?]

theorem Prints.append {text more : String} {statements others : List Statement}
    (prints : Prints text statements) (further : Prints more others) :
    Prints (text ++ more) (statements ++ others) := by
  obtain ⟨tokens, spells, forms⟩ := prints
  obtain ⟨later, spellsLater, formsLater⟩ := further
  exact ⟨tokens ++ later, spells.append spellsLater, forms.append formsLater⟩

theorem Prints.read? {text : String} {statements : List Statement} (prints : Prints text statements) :
    read? text = some statements := by
  obtain ⟨tokens, spells, forms⟩ := prints
  rw [Dot.read?, tokens?, spells []]
  simp [Scan.finish?, forms [] [], Reading.finish?]

end Dot

end ReactorCausality
