/-!
The tokens of a JSON text. Scanning follows the strict grammar: no comments, no leading zeros, no
raw control characters. It stops at the first place that starts no token and leaves `invalid`
there. Two tokens are coarser than the text: a number that is not written as a plain natural
number is just `number`, and a string whose escapes name half a surrogate pair has no text.
-/
namespace ReactorCausality

/-- A token of a JSON text. -/
inductive JsonToken where
  | openArray
  | closeArray
  | openObject
  | closeObject
  | comma
  | colon
  | null
  | bool (value : Bool)
  /-- A number written with digits only. -/
  | natural (value : Nat)
  /-- A number with a sign, a fraction or an exponent. -/
  | number
  /-- A string; it has no text if an escape names half a surrogate pair. -/
  | string (text? : Option String)
  /-- No token starts here. -/
  | invalid
  deriving DecidableEq, Repr

namespace JsonToken

/-- What one character or escape of a string stands for. -/
inductive Glyph where
  | char (c : Char)
  /-- Half of a surrogate pair. -/
  | half (code : Nat)
  deriving DecidableEq, Repr

def hexDigit? (c : Char) : Option Nat :=
  if c.isDigit then some (c.toNat - '0'.toNat)
  else if 'a' ≤ c ∧ c ≤ 'f' then some (c.toNat - 'a'.toNat + 10)
  else if 'A' ≤ c ∧ c ≤ 'F' then some (c.toNat - 'A'.toNat + 10)
  else none

/-- What four hexadecimal digits stand for. -/
def Glyph.ofHex? (a b c d : Char) : Option Glyph := do
  let code := (((← hexDigit? a) * 16 + (← hexDigit? b)) * 16 + (← hexDigit? c)) * 16
    + (← hexDigit? d)
  if 0xD800 ≤ code ∧ code < 0xE000 then some (half code) else some (char (Char.ofNat code))

/-- What a backslash and a letter stand for. -/
def Glyph.ofLetter? (c : Char) : Option Glyph :=
  if c == '"' || c == '\\' || c == '/' then some (char c)
  else if c == 'b' then some (char '\x08')
  else if c == 'f' then some (char '\x0c')
  else if c == 'n' then some (char '\n')
  else if c == 'r' then some (char '\r')
  else if c == 't' then some (char '\t')
  else none

/-- The rest of a string after its opening quote, up to and including its closing quote, and the
text behind it. -/
def stringBody? : List Char → Option (List Glyph × List Char)
  | [] => none
  | c :: rest =>
    if c == '"' then some ([], rest)
    else if c == '\\' then
      match rest with
      | [] => none
      | 'u' :: e :: f :: g :: h :: rest => do
        let glyph ← Glyph.ofHex? e f g h
        let (glyphs, rest) ← stringBody? rest
        some (glyph :: glyphs, rest)
      | e :: rest => do
        let glyph ← Glyph.ofLetter? e
        let (glyphs, rest) ← stringBody? rest
        some (glyph :: glyphs, rest)
    else if c.toNat < 32 then none
    else do
      let (glyphs, rest) ← stringBody? rest
      some (Glyph.char c :: glyphs, rest)

/-- The characters that glyphs spell: a leading half and a trailing half make one character, and
no half may stand otherwise. -/
def spell? : List Glyph → Option (List Char)
  | [] => some []
  | .char c :: glyphs => (spell? glyphs).map (c :: ·)
  | .half leading :: .half trailing :: glyphs =>
    if leading < 0xDC00 ∧ 0xDC00 ≤ trailing then
      (spell? glyphs).map
        (Char.ofNat (0x10000 + (leading - 0xD800) * 0x400 + (trailing - 0xDC00)) :: ·)
    else none
  | .half _ :: _ => none

/-- A run of digits, if there is one, and the text behind it. -/
def digits? (text : List Char) : Option (List Char × List Char) :=
  match text.takeWhile Char.isDigit with
  | [] => none
  | digits => some (digits, text.dropWhile Char.isDigit)

/-- Skips a fraction, if there is one; a point without digits is refused. -/
def skipFraction? : List Char → Option (Bool × List Char)
  | '.' :: rest => (digits? rest).map fun (_, rest) => (true, rest)
  | rest => some (false, rest)

/-- Skips the sign of an exponent, if there is one. -/
def skipSign : List Char → List Char
  | '+' :: rest => rest
  | '-' :: rest => rest
  | rest => rest

/-- Skips an exponent, if there is one; an exponent without digits is refused. -/
def skipExponent? : List Char → Option (Bool × List Char)
  | 'e' :: rest => (digits? (skipSign rest)).map fun (_, rest) => (true, rest)
  | 'E' :: rest => (digits? (skipSign rest)).map fun (_, rest) => (true, rest)
  | rest => some (false, rest)

/-- A number without its sign, and the text behind it. A zero in front of other digits is
refused. -/
def unsigned? (text : List Char) : Option (JsonToken × List Char) := do
  let (digits, rest) ← digits? text
  if digits.head? == some '0' && digits.length != 1 then none
  let (fraction, rest) ← skipFraction? rest
  let (exponent, rest) ← skipExponent? rest
  if fraction || exponent then some (number, rest)
  else some (natural (Nat.ofDigitChars 10 digits 0), rest)

/-- The token that starts with a character, and the text behind it; nothing is left behind an
invalid token. -/
def next (c : Char) (rest : List Char) : JsonToken × List Char :=
  if c == '[' then (openArray, rest)
  else if c == ']' then (closeArray, rest)
  else if c == '\x7b' then (openObject, rest)
  else if c == '\x7d' then (closeObject, rest)
  else if c == ',' then (comma, rest)
  else if c == ':' then (colon, rest)
  else if c == '"' then
    match stringBody? rest with
    | some (glyphs, rest) => (string ((spell? glyphs).map String.ofList), rest)
    | none => (invalid, [])
  else if c == '-' then
    match unsigned? rest with
    | some (_, rest) => (number, rest)
    | none => (invalid, [])
  else if c.isDigit then
    (unsigned? (c :: rest)).getD (invalid, [])
  else
    match c, rest with
    | 'n', 'u' :: 'l' :: 'l' :: rest => (null, rest)
    | 't', 'r' :: 'u' :: 'e' :: rest => (bool true, rest)
    | 'f', 'a' :: 'l' :: 's' :: 'e' :: rest => (bool false, rest)
    | _, _ => (invalid, [])

theorem length_of_stringBody? {text : List Char} {glyphs : List Glyph} {rest : List Char}
    (read : stringBody? text = some (glyphs, rest)) : rest.length < text.length := by
  fun_induction stringBody? text generalizing glyphs rest with
  | case1 => simp at read
  | case2 c tail quote => simp_all
  | case3 => simp at read
  | case4 c quote escape e f g h tail ih =>
    simp only [Option.bind_eq_bind, Option.bind_eq_some_iff, Option.some.injEq,
      Prod.mk.injEq, Prod.exists] at read
    obtain ⟨_, _, _, _, body, _, rfl⟩ := read
    have := ih body
    simp only [List.length_cons]
    omega
  | case5 c quote escape e tail other ih =>
    simp only [Option.bind_eq_bind, Option.bind_eq_some_iff, Option.some.injEq,
      Prod.mk.injEq, Prod.exists] at read
    obtain ⟨_, _, _, _, body, _, rfl⟩ := read
    have := ih body
    simp only [List.length_cons]
    omega
  | case6 => simp at read
  | case7 c tail quote escape control ih =>
    simp only [Option.bind_eq_bind, Option.bind_eq_some_iff, Option.some.injEq,
      Prod.mk.injEq, Prod.exists] at read
    obtain ⟨_, _, body, _, rfl⟩ := read
    have := ih body
    simp only [List.length_cons]
    omega

theorem length_of_digits? {text digits rest : List Char}
    (read : digits? text = some (digits, rest)) : rest.length < text.length := by
  unfold digits? at read
  split at read
  · simp at read
  · next nonempty =>
    simp only [Option.some.injEq, Prod.mk.injEq] at read
    obtain ⟨rfl, rfl⟩ := read
    have whole := congrArg List.length (List.takeWhile_append_dropWhile (p := Char.isDigit) (l := text))
    have : 0 < (text.takeWhile Char.isDigit).length := List.length_pos_iff.mpr nonempty
    simp only [List.length_append] at whole
    omega

theorem length_of_skipFraction? {text rest : List Char} {found : Bool}
    (read : skipFraction? text = some (found, rest)) : rest.length ≤ text.length := by
  unfold skipFraction? at read
  split at read
  · simp only [Option.map_eq_some_iff, Prod.mk.injEq, Prod.exists] at read
    obtain ⟨_, _, body, _, rfl⟩ := read
    have := length_of_digits? body
    simp only [List.length_cons]
    omega
  · simp_all

theorem length_skipSign (text : List Char) : (skipSign text).length ≤ text.length := by
  unfold skipSign
  split <;> simp

theorem length_of_skipExponent? {text rest : List Char} {found : Bool}
    (read : skipExponent? text = some (found, rest)) : rest.length ≤ text.length := by
  unfold skipExponent? at read
  split at read
  · next tail =>
    simp only [Option.map_eq_some_iff, Prod.mk.injEq, Prod.exists] at read
    obtain ⟨_, _, body, _, rfl⟩ := read
    have := length_of_digits? body
    have := length_skipSign tail
    simp only [List.length_cons]
    omega
  · next tail =>
    simp only [Option.map_eq_some_iff, Prod.mk.injEq, Prod.exists] at read
    obtain ⟨_, _, body, _, rfl⟩ := read
    have := length_of_digits? body
    have := length_skipSign tail
    simp only [List.length_cons]
    omega
  · simp_all

theorem length_of_unsigned? {text rest : List Char} {token : JsonToken}
    (read : unsigned? text = some (token, rest)) : rest.length < text.length := by
  unfold unsigned? at read
  simp only [Option.bind_eq_bind, Option.bind_eq_some_iff, Prod.exists] at read
  obtain ⟨digits, afterDigits, body, read⟩ := read
  have := length_of_digits? body
  split at read
  · simp at read
  · simp only [Option.bind_eq_some_iff, Prod.exists] at read
    obtain ⟨_, _, fraction, _, _, exponent, read⟩ := read
    have := length_of_skipFraction? fraction
    have := length_of_skipExponent? exponent
    split at read <;> (simp only [Option.some.injEq, Prod.mk.injEq] at read; obtain ⟨_, rfl⟩ := read; omega)

/-- A token leaves no more than there was, so scanning ends. -/
theorem length_next (c : Char) (rest : List Char) : (next c rest).2.length ≤ rest.length := by
  unfold next
  repeat' split
  all_goals try simp
  · next body => exact Nat.le_of_lt (length_of_stringBody? body)
  · next body => exact Nat.le_of_lt (length_of_unsigned? body)
  · cases read : unsigned? (c :: rest) with
    | none => simp
    | some found =>
      have := length_of_unsigned? read
      simp only [List.length_cons] at this
      simp only [Option.getD_some]
      omega
  all_goals omega

def isBlank (c : Char) : Bool :=
  c == ' ' || c == '\t' || c == '\n' || c == '\r'

def scan : List Char → List JsonToken
  | [] => []
  | c :: rest =>
    if isBlank c then scan rest
    else (next c rest).1 :: scan (next c rest).2
termination_by text => text.length
decreasing_by
  · simp
  · have := length_next c rest
    simp only [List.length_cons]
    omega

end JsonToken

end ReactorCausality
