import ReactorCausality.Json.Token
import ReactorCausality.Json.Value

/-!
Scanning what is written. Punctuation, words and strings are scanned as they are written whatever
follows them, and a number is if nothing follows that could belong to it. Escaping is undone: every
character of a string is escaped to what stands for it and nothing else.
-/
namespace ReactorCausality

namespace JsonToken

/-- A number ends where this text begins. -/
def Delimits (text : List Char) : Prop :=
  ∀ c ∈ text.head?, c.isDigit = false ∧ c ≠ '.' ∧ c ≠ 'e' ∧ c ≠ 'E'

theorem delimits_nil : Delimits [] :=
  nofun

theorem scan_cons {c : Char} {rest : List Char} (visible : isBlank c = false) :
    scan (c :: rest) = (next c rest).1 :: scan (next c rest).2 := by
  rw [scan, visible, if_neg Bool.false_ne_true]

/-! ### Strings -/

theorem ofHex?_digitChar : ∀ code < 32,
    Glyph.ofHex? '0' '0' (Nat.digitChar (code / 16)) (Nat.digitChar (code % 16)) =
      some (.char (Char.ofNat code)) := by
  decide

/-- An escaped character is read as the character. -/
theorem stringBody?_escape {c : Char} {rest behind : List Char} {glyphs : List Glyph}
    (read : stringBody? rest = some (glyphs, behind)) :
    stringBody? (Json.escape c ++ rest) = some (.char c :: glyphs, behind) := by
  by_cases plain : c = '"' ∨ c = '\\' ∨ c = '\x08' ∨ c = '\x0c' ∨ c = '\n' ∨ c = '\r' ∨ c = '\t'
  · rcases plain with rfl | rfl | rfl | rfl | rfl | rfl | rfl <;>
      simp [Json.escape, stringBody?, Glyph.ofLetter?, read]
  · simp only [not_or] at plain
    obtain ⟨notQuote, notBackslash, h1, h2, h3, h4, h5⟩ := plain
    by_cases control : c.toNat < 32
    · have escaped := ofHex?_digitChar c.toNat control
      rw [Char.ofNat_toNat] at escaped
      simp [Json.escape, stringBody?, *]
    · simp only [Json.escape, beq_iff_eq, notQuote, notBackslash, h1, h2, h3, h4, h5, control,
        if_false, List.singleton_append]
      rw [stringBody?.eq_def]
      simp [notQuote, notBackslash, control, read]

theorem stringBody?_flatMap_escape (text rest : List Char) :
    stringBody? (text.flatMap Json.escape ++ '"' :: rest) = some (text.map .char, rest) := by
  induction text with
  | nil => rw [List.flatMap_nil, List.nil_append, stringBody?.eq_def]; rfl
  | cons c text ih =>
    rw [List.flatMap_cons, List.append_assoc, stringBody?_escape ih, List.map_cons]

theorem spell?_map_char (text : List Char) : spell? (text.map .char) = some text := by
  induction text with
  | nil => rfl
  | cons c text ih => simp [spell?, ih]

theorem scan_quote (text : String) (rest : List Char) :
    scan ((Json.quote text).toList ++ rest) = string (some text) :: scan rest := by
  have body := stringBody?_flatMap_escape text.toList rest
  simp only [Json.quote, String.toList_ofList, List.cons_append, List.append_assoc,
    List.nil_append]
  rw [scan_cons rfl]
  simp [next, body, spell?_map_char]

/-! ### Numbers -/

theorem head?_toDigits_ne_zero {number : Nat} (positive : 0 < number) :
    (Nat.toDigits 10 number).head? ≠ some '0' := by
  induction number using Nat.strongRecOn with
  | ind number ih =>
    by_cases small : number < 10
    · rw [Nat.toDigits_of_lt_base small]
      have digits : ∀ digit < 10, 0 < digit → [Nat.digitChar digit].head? ≠ some '0' := by decide
      exact digits number small positive
    · rw [Nat.toDigits_of_base_le (by decide) (by omega), List.head?_append,
        Option.or_of_isSome (List.isSome_head?.mpr Nat.toDigits_ne_nil)]
      exact ih (number / 10) (by omega) (by omega)

/-- Digits are taken as far as they go. -/
theorem digits?_append {digits rest : List Char} (nonempty : digits ≠ [])
    (all : ∀ c ∈ digits, c.isDigit) (ends : ∀ c ∈ rest.head?, c.isDigit = false) :
    digits? (digits ++ rest) = some (digits, rest) := by
  have stops : rest.takeWhile Char.isDigit = [] ∧ rest.dropWhile Char.isDigit = rest := by
    cases rest with
    | nil => exact ⟨rfl, rfl⟩
    | cons c rest => simp [ends c rfl]
  have taken : (digits ++ rest).takeWhile Char.isDigit = digits := by
    rw [List.takeWhile_append_of_pos all, stops.1, List.append_nil]
  have left : (digits ++ rest).dropWhile Char.isDigit = rest := by
    rw [List.dropWhile_append_of_pos all, stops.2]
  rw [digits?, taken, left]
  cases digits with
  | nil => contradiction
  | cons c digits => rfl

theorem skipFraction?_of_delimits {rest : List Char} (delimits : Delimits rest) :
    skipFraction? rest = some (false, rest) := by
  unfold skipFraction?
  split
  · exact absurd rfl (delimits _ rfl).2.1
  · rfl

theorem skipExponent?_of_delimits {rest : List Char} (delimits : Delimits rest) :
    skipExponent? rest = some (false, rest) := by
  unfold skipExponent?
  split
  · exact absurd rfl (delimits _ rfl).2.2.1
  · exact absurd rfl (delimits _ rfl).2.2.2
  · rfl

theorem isDigit_of_mem_toDigits {number : Nat} {c : Char} (member : c ∈ Nat.toDigits 10 number) :
    c.isDigit :=
  Nat.isDigit_of_mem_toDigits (by decide) (by decide) member

theorem unsigned?_toDigits (number : Nat) {rest : List Char} (delimits : Delimits rest) :
    unsigned? (Nat.toDigits 10 number ++ rest) = some (natural number, rest) := by
  have digits : digits? (Nat.toDigits 10 number ++ rest) = some (Nat.toDigits 10 number, rest) :=
    digits?_append Nat.toDigits_ne_nil (fun c => isDigit_of_mem_toDigits)
      fun c member => (delimits c member).1
  have noZero : (Nat.toDigits 10 number).head? = some '0' → (Nat.toDigits 10 number).length = 1 := by
    intro zero
    rcases Nat.eq_zero_or_pos number with rfl | positive
    · rfl
    · exact absurd zero (head?_toDigits_ne_zero positive)
  simpa [unsigned?, digits, skipFraction?_of_delimits delimits,
    skipExponent?_of_delimits delimits, Nat.ofDigitChars_ten_toDigits] using noZero

theorem beq_of_isDigit {c d : Char} (isDigit : c.isDigit) (noDigit : d.isDigit = false) :
    (c == d) = false := by
  rw [beq_eq_false_iff_ne]
  rintro rfl
  rw [isDigit] at noDigit
  contradiction

/-- A digit starts a number. -/
theorem scan_of_isDigit {c : Char} {rest behind : List Char} {token : JsonToken}
    (isDigit : c.isDigit) (read : unsigned? (c :: rest) = some (token, behind)) :
    scan (c :: rest) = token :: scan behind := by
  have visible : isBlank c = false := by simp [isBlank, beq_of_isDigit isDigit]
  have next_eq : next c rest = (token, behind) := by
    simp [next, beq_of_isDigit isDigit, isDigit, read]
  rw [scan_cons visible, next_eq]

theorem scan_toString (number : Nat) {rest : List Char} (delimits : Delimits rest) :
    scan ((toString number).toList ++ rest) = natural number :: scan rest := by
  have read := unsigned?_toDigits number delimits
  have isDigit (c : Char) : c ∈ Nat.toDigits 10 number → c.isDigit := isDigit_of_mem_toDigits
  rw [Nat.toString_eq_repr, Nat.toList_repr]
  cases digits : Nat.toDigits 10 number with
  | nil => exact absurd digits Nat.toDigits_ne_nil
  | cons c more =>
    rw [digits] at read isDigit
    exact scan_of_isDigit (isDigit c List.mem_cons_self) read

/-! ### Words and punctuation -/

section Marks

variable (rest : List Char)

theorem scan_null : scan ("null".toList ++ rest) = null :: scan rest := scan_cons rfl

theorem scan_true : scan ("true".toList ++ rest) = bool true :: scan rest := scan_cons rfl

theorem scan_false : scan ("false".toList ++ rest) = bool false :: scan rest := scan_cons rfl

theorem scan_openArray : scan ('[' :: rest) = openArray :: scan rest := scan_cons rfl

theorem scan_closeArray : scan (']' :: rest) = closeArray :: scan rest := scan_cons rfl

theorem scan_openObject : scan ('\x7b' :: rest) = openObject :: scan rest := scan_cons rfl

theorem scan_closeObject : scan ('\x7d' :: rest) = closeObject :: scan rest := scan_cons rfl

theorem scan_comma : scan (',' :: rest) = comma :: scan rest := scan_cons rfl

theorem scan_colon : scan (':' :: rest) = colon :: scan rest := scan_cons rfl

end Marks

end JsonToken

end ReactorCausality
