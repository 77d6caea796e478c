import ReactorCausality.Json.Outline
import ReactorCausality.Proofs.Json.Scanning

/-!
The outline of what is written. Reading the text of a document gives the document back, whatever its
strings contain and however deep it nests (`read_compact`).
-/
namespace ReactorCausality

namespace Json

mutual

/-- The document as a reader of its text sees it. -/
def outline : Json → Outline
  | null => .null
  | bool value => .bool value
  | nat value => .natural value
  | string text => .string (some text)
  | array elements => .array (outlines elements)
  | object members => .object (memberOutlines members)

def outlines : List Json → List Outline
  | [] => []
  | element :: rest => outline element :: outlines rest

def memberOutlines : List (String × Json) → List (Option String × Outline)
  | [] => []
  | (key, value) :: rest => (some key, outline value) :: memberOutlines rest

end

theorem outlines_eq_map (elements : List Json) : outlines elements = elements.map outline := by
  induction elements with
  | nil => rfl
  | cons element rest ih => rw [outlines, ih, List.map_cons]

/-- The elements behind the first one, each with its comma. -/
def laterElements (elements : List Json) : List Char :=
  elements.flatMap fun element => ',' :: element.compact.toList

/-- The text of a member of an object. -/
def memberText (member : String × Json) : List Char :=
  (quote member.1).toList ++ ':' :: member.2.compact.toList

def laterMembers (members : List (String × Json)) : List Char :=
  members.flatMap fun member => ',' :: memberText member

theorem laterElements_cons (element : Json) (later : List Json) :
    laterElements (element :: later) = ',' :: (element.compact.toList ++ laterElements later) :=
  rfl

theorem laterMembers_cons (member : String × Json) (later : List (String × Json)) :
    laterMembers (member :: later) = ',' :: (memberText member ++ laterMembers later) :=
  rfl

theorem compactElements_eq_map (elements : List Json) :
    compactElements elements = elements.map compact := by
  induction elements with
  | nil => rfl
  | cons element rest ih => rw [compactElements, ih, List.map_cons]

theorem compactMembers_eq_map (members : List (String × Json)) :
    compactMembers members = members.map fun (key, value) => quote key ++ ":" ++ compact value := by
  induction members with
  | nil => rfl
  | cons member rest ih => rw [compactMembers, ih, List.map_cons]

theorem intercalate_cons_eq_flatMap {α : Type} (separator items : List α) (later : List (List α)) :
    separator.intercalate (items :: later) = items ++ later.flatMap (separator ++ ·) := by
  induction later generalizing items with
  | nil => simp
  | cons next later ih => simp [List.intercalate_cons_cons, ih]

theorem toList_compact_array (element : Json) (rest : List Json) :
    (array (element :: rest)).compact.toList =
      '[' :: (element.compact.toList ++ (laterElements rest ++ [']'])) := by
  simp [compact, compactElements_eq_map, intercalate_cons_eq_flatMap, laterElements,
    List.flatMap_map]

theorem toList_compact_object (member : String × Json) (rest : List (String × Json)) :
    (object (member :: rest)).compact.toList =
      '\x7b' :: (memberText member ++ (laterMembers rest ++ ['\x7d'])) := by
  simp [compact, compactMembers_eq_map, intercalate_cons_eq_flatMap, laterMembers, memberText,
    List.flatMap_map]

end Json

namespace Outline.State

open JsonToken

/-- How far a text is read on from somewhere. -/
def run (state : State) (text : List Char) : State :=
  (scan text).foldl step state

theorem run_of_scan {text rest : List Char} {token : JsonToken} (scanned : scan text = token :: scan rest)
    (state : State) : run state text = run (state.step token) rest := by
  rw [run, scanned]
  rfl

/-- A value may start here, inside these arrays and objects. -/
def Awaits (state : State) (frames : List Frame) : Prop :=
  ∀ token ≠ closeArray, state.step token = start frames token

theorem awaits_value (frames : List Frame) : Awaits (value frames) frames :=
  fun _ _ => rfl

theorem awaits_firstElement (frames : List Frame) :
    Awaits (firstElement frames) (.array [] :: frames) := by
  intro token other
  cases token <;> first | rfl | contradiction

/-- A key may start here, behind these members. -/
def AwaitsKey (state : State) (members : List (Option String × Outline)) (frames : List Frame) : Prop :=
  ∀ name, state.step (.string name) = colon members name frames

theorem delimits_cons {c : Char} {rest : List Char} (punctuation : c = ',' ∨ c = ']' ∨ c = '\x7d') :
    Delimits (c :: rest) := by
  rintro _ ⟨⟩
  rcases punctuation with rfl | rfl | rfl <;> decide

theorem delimits_elements (later : List Json) (rest : List Char) :
    Delimits (Json.laterElements later ++ ']' :: rest) := by
  cases later with
  | nil => exact delimits_cons (.inr (.inl rfl))
  | cons element later => exact delimits_cons (.inl rfl)

theorem delimits_members (later : List (String × Json)) (rest : List Char) :
    Delimits (Json.laterMembers later ++ '\x7d' :: rest) := by
  cases later with
  | nil => exact delimits_cons (.inr (.inr rfl))
  | cons member later => exact delimits_cons (.inl rfl)

theorem run_memberText {name : String} {content : Json} {rest : List Char}
    (reads : ∀ frames, run (value frames) (content.compact.toList ++ rest) =
      run (after content.outline frames) rest) {state : State}
    {members : List (Option String × Outline)} {frames : List Frame}
    (awaits : AwaitsKey state members frames) :
    run state (Json.memberText (name, content) ++ rest) =
      run (afterMember ((some name, content.outline) :: members) frames) rest := by
  rw [Json.memberText, List.append_assoc, List.cons_append, run_of_scan (scan_quote name _), awaits,
    run_of_scan (scan_colon _), step, reads]
  rfl

mutual

/-- A document is read as a whole wherever a value may start. -/
theorem run_compact : (json : Json) → {state : State} → {frames : List Frame} →
    {rest : List Char} → Awaits state frames → Delimits rest →
    run state (json.compact.toList ++ rest) = run (after json.outline frames) rest
  | .null, state, frames, rest, awaits, _ => by
    rw [Json.compact, run_of_scan (scan_null rest), awaits _ (by simp)]
    rfl
  | .bool true, state, frames, rest, awaits, _ => by
    rw [Json.compact, if_pos rfl, run_of_scan (scan_true rest), awaits _ (by simp)]
    rfl
  | .bool false, state, frames, rest, awaits, _ => by
    rw [Json.compact, if_neg Bool.false_ne_true, run_of_scan (scan_false rest),
      awaits _ (by simp)]
    rfl
  | .nat count, state, frames, rest, awaits, delimits => by
    rw [Json.compact, run_of_scan (scan_toString count delimits), awaits _ (by simp)]
    rfl
  | .string text, state, frames, rest, awaits, _ => by
    rw [Json.compact, run_of_scan (scan_quote text rest), awaits _ (by simp)]
    rfl
  | .array [], state, frames, rest, awaits, _ => by
    change run state ('[' :: ']' :: rest) = _
    rw [run_of_scan (scan_openArray _), awaits _ (by simp)]
    exact run_of_scan (scan_closeArray rest) _
  | .array (element :: later), state, frames, rest, awaits, _ => by
    rw [Json.toList_compact_array, List.cons_append, run_of_scan (scan_openArray _),
      awaits _ (by simp), List.append_assoc, List.append_assoc, List.singleton_append, start,
      run_compact element (awaits_firstElement frames) (delimits_elements later rest)]
    exact run_laterElements later [element.outline] frames rest
  | .object [], state, frames, rest, awaits, _ => by
    change run state ('\x7b' :: '\x7d' :: rest) = _
    rw [run_of_scan (scan_openObject _), awaits _ (by simp)]
    exact run_of_scan (scan_closeObject rest) _
  | .object ((name, content) :: later), state, frames, rest, awaits, _ => by
    rw [Json.toList_compact_object, List.cons_append, run_of_scan (scan_openObject _),
      awaits _ (by simp), List.append_assoc, List.append_assoc, List.singleton_append, start,
      run_memberText (fun frames => run_compact content (awaits_value frames)
        (delimits_members later rest)) (fun _ => rfl : AwaitsKey (firstKey frames) [] frames)]
    exact run_laterMembers later [(some name, content.outline)] frames rest

theorem run_laterElements : (later : List Json) → (elements : List Outline) → (frames : List Frame) →
    (rest : List Char) → run (afterElement elements frames) (Json.laterElements later ++ ']' :: rest) =
      run (after (.array (elements.reverse ++ Json.outlines later)) frames) rest
  | [], elements, frames, rest => by
    rw [Json.laterElements, List.flatMap_nil, List.nil_append, run_of_scan (scan_closeArray rest),
      Json.outlines, List.append_nil]
    rfl
  | element :: later, elements, frames, rest => by
    have goesOn := run_laterElements later (element.outline :: elements) frames rest
    rw [List.reverse_cons, List.append_assoc] at goesOn
    rw [Json.laterElements_cons, List.cons_append, List.append_assoc, run_of_scan (scan_comma _),
      step, run_compact element (awaits_value _) (delimits_elements later rest)]
    exact goesOn

theorem run_laterMembers : (later : List (String × Json)) →
    (members : List (Option String × Outline)) → (frames : List Frame) → (rest : List Char) →
    run (afterMember members frames) (Json.laterMembers later ++ '\x7d' :: rest) =
      run (after (.object (members.reverse ++ Json.memberOutlines later)) frames) rest
  | [], members, frames, rest => by
    rw [Json.laterMembers, List.flatMap_nil, List.nil_append, run_of_scan (scan_closeObject rest),
      Json.memberOutlines, List.append_nil]
    rfl
  | (name, content) :: later, members, frames, rest => by
    have goesOn := run_laterMembers later ((some name, content.outline) :: members) frames rest
    rw [List.reverse_cons, List.append_assoc] at goesOn
    rw [Json.laterMembers_cons, List.cons_append, List.append_assoc, run_of_scan (scan_comma _),
      step, run_memberText (fun frames => run_compact content (awaits_value frames)
        (delimits_members later rest)) (fun _ => rfl : AwaitsKey (.key members frames) members frames)]
    exact goesOn

end

end Outline.State

/-- A document is read back from its text. -/
theorem Outline.read_compact (json : Json) : Outline.read json.compact = ⟨json.outline, true⟩ := by
  have whole := State.run_compact json (State.awaits_value []) JsonToken.delimits_nil
  rw [List.append_nil] at whole
  have done : State.run (State.after json.outline []) [] = .done ⟨json.outline, true⟩ := by
    rw [State.run, JsonToken.scan]
    rfl
  rw [Outline.read]
  exact congrArg State.document (whole.trans done)

end ReactorCausality
