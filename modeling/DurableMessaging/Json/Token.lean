/-!
# Tokens of JSON text

Marks, words, numbers and strings, read one at a time from the front of a text. A number keeps its
digits as written. A string keeps its text, unless an escape in it names half of a surrogate pair
alone; such a string is well formed but stands for no text.
-/

namespace DurableMessaging.Json

/-- A number as written: `whole` has at least one digit, `fraction` none if there is no point. -/
structure NumberText where
  negative : Bool
  whole : List Char
  fraction : List Char
  /-- The sign of the exponent (`true` for minus) and its digits. -/
  exponent : Option (Bool × List Char)
  deriving DecidableEq, Repr

inductive Token where
  | openArray
  | closeArray
  | openObject
  | closeObject
  | colon
  | comma
  | null
  | truth (value : Bool)
  | number (text : NumberText)
  | string (text : Option String)
  deriving DecidableEq, Repr

/-! ## Strings -/

/-- One character of a string, or a 16-bit unit written as an escape. -/
inductive Piece where
  | char (c : Char)
  | unit (n : Nat)
  deriving DecidableEq, Repr

def isHighSurrogate (n : Nat) : Bool := 0xD800 ≤ n && n < 0xDC00

def isLowSurrogate (n : Nat) : Bool := 0xDC00 ≤ n && n < 0xE000

/-- The text of a string, two escaped halves of a surrogate pair making one character. -/
def joinPieces : List Piece → Option (List Char)
  | [] => some []
  | .char c :: rest => (joinPieces rest).map (c :: ·)
  | .unit high :: .unit low :: rest =>
    if isHighSurrogate high then
      if isLowSurrogate low then
        (joinPieces rest).map
          (Char.ofNat (0x10000 + (high - 0xD800) * 0x400 + (low - 0xDC00)) :: ·)
      else none
    else if isLowSurrogate high then none
    else (joinPieces (.unit low :: rest)).map (Char.ofNat high :: ·)
  | .unit n :: rest =>
    if isHighSurrogate n || isLowSurrogate n then none
    else (joinPieces rest).map (Char.ofNat n :: ·)

def hexValue? (c : Char) : Option Nat :=
  if '0' ≤ c ∧ c ≤ '9' then some (c.toNat - '0'.toNat)
  else if 'a' ≤ c ∧ c ≤ 'f' then some (c.toNat - 'a'.toNat + 10)
  else if 'A' ≤ c ∧ c ≤ 'F' then some (c.toNat - 'A'.toNat + 10)
  else none

/-- What an escape of one letter stands for. -/
def shortEscape? : Char → Option Char
  | '"' => some '"'
  | '\\' => some '\\'
  | '/' => some '/'
  | 'b' => some '\x08'
  | 'f' => some '\x0c'
  | 'n' => some '\n'
  | 'r' => some '\r'
  | 't' => some '\t'
  | _ => none

/-- Where a string is: in plain text, after a backslash, or with hex digits still due. -/
inductive StringMode where
  | plain
  | escape
  | hex (due value : Nat)

/-- The pieces up to the closing quote and what follows it; `read` holds the pieces so far, the
latest first. Control characters must be escaped. -/
def scanString : StringMode → List Piece → List Char → Option (List Piece × List Char)
  | _, _, [] => none
  | .plain, read, c :: cs =>
    if c = '"' then some (read.reverse, cs)
    else if c = '\\' then scanString .escape read cs
    else if c.toNat < 0x20 then none
    else scanString .plain (.char c :: read) cs
  | .escape, read, c :: cs =>
    if c = 'u' then scanString (.hex 3 0) read cs
    else
      match shortEscape? c with
      | some e => scanString .plain (.char e :: read) cs
      | none => none
  | .hex due value, read, c :: cs =>
    match hexValue? c with
    | none => none
    | some h =>
      match due with
      | 0 => scanString .plain (.unit (value * 16 + h) :: read) cs
      | due + 1 => scanString (.hex due (value * 16 + h)) read cs

theorem scanString_shorter {mode : StringMode} {read ps : List Piece} {cs rest : List Char}
    (h : scanString mode read cs = some (ps, rest)) : rest.length < cs.length := by
  induction cs generalizing mode read with
  | nil => cases mode <;> simp [scanString] at h
  | cons c cs ih =>
    cases mode with
    | plain =>
      simp only [scanString] at h
      split at h
      · simp_all
      · split at h
        · exact Nat.lt_succ_of_lt (ih h)
        · split at h
          · simp at h
          · exact Nat.lt_succ_of_lt (ih h)
    | escape =>
      simp only [scanString] at h
      split at h
      · exact Nat.lt_succ_of_lt (ih h)
      · split at h
        · exact Nat.lt_succ_of_lt (ih h)
        · simp at h
    | hex due value =>
      simp only [scanString] at h
      split at h
      · simp at h
      · cases due <;> exact Nat.lt_succ_of_lt (ih h)

/-! ## Numbers -/

/-- The digits in front, and the rest. -/
def spanDigits (cs : List Char) : List Char × List Char :=
  (cs.takeWhile Char.isDigit, cs.dropWhile Char.isDigit)

/-- A whole part: one zero, or digits that do not start with a zero. -/
def scanWhole (cs : List Char) : Option (List Char × List Char) :=
  match spanDigits cs with
  | ([], _) => none
  | (['0'], rest) => some (['0'], rest)
  | ('0' :: _, _) => none
  | found => some found

/-- The digits after a point, none if there is no point. -/
def scanFraction : List Char → Option (List Char × List Char)
  | '.' :: cs =>
    match spanDigits cs with
    | ([], _) => none
    | found => some found
  | cs => some ([], cs)

/-- An optional sign; `true` for minus. -/
def scanSign : List Char → Bool × List Char
  | '+' :: cs => (false, cs)
  | '-' :: cs => (true, cs)
  | cs => (false, cs)

/-- An optional sign and at least one digit. -/
def scanPower (cs : List Char) : Option ((Bool × List Char) × List Char) :=
  match spanDigits (scanSign cs).2 with
  | ([], _) => none
  | (digits, rest) => some (((scanSign cs).1, digits), rest)

def scanExponent : List Char → Option (Option (Bool × List Char) × List Char)
  | 'e' :: cs => (scanPower cs).map fun (p, rest) => (some p, rest)
  | 'E' :: cs => (scanPower cs).map fun (p, rest) => (some p, rest)
  | cs => some (none, cs)

/-- A number whose sign has been read. -/
def scanNumber (negative : Bool) (cs : List Char) : Option (NumberText × List Char) := do
  let (whole, cs) ← scanWhole cs
  let (fraction, cs) ← scanFraction cs
  let (exponent, cs) ← scanExponent cs
  some (⟨negative, whole, fraction, exponent⟩, cs)

theorem spanDigits_length (cs : List Char) :
    (spanDigits cs).1.length + (spanDigits cs).2.length = cs.length := by
  rw [← List.length_append, spanDigits, List.takeWhile_append_dropWhile]

theorem scanWhole_shorter {cs ds rest : List Char} (h : scanWhole cs = some (ds, rest)) :
    rest.length < cs.length := by
  have len := spanDigits_length cs
  unfold scanWhole at h
  split at h
  · simp at h
  · simp_all; omega
  · simp at h
  · rename_i found nil _ _
    rw [Option.some.inj h] at len nil
    cases ds with
    | nil => exact absurd rfl (nil rest)
    | cons d ds => simp only [List.length_cons] at len; omega

theorem scanFraction_length_le {cs ds rest : List Char} (h : scanFraction cs = some (ds, rest)) :
    rest.length ≤ cs.length := by
  unfold scanFraction at h
  split at h
  · rename_i cs
    have len := spanDigits_length cs
    split at h
    · simp at h
    · rw [Option.some.inj h] at len
      simp only [List.length_cons] at len ⊢
      omega
  · simp_all

theorem scanSign_length_le (cs : List Char) : (scanSign cs).2.length ≤ cs.length := by
  unfold scanSign
  split <;> simp

theorem scanPower_length_le {cs rest : List Char} {p : Bool × List Char}
    (h : scanPower cs = some (p, rest)) : rest.length ≤ cs.length := by
  have le := scanSign_length_le cs
  have len := spanDigits_length (scanSign cs).2
  unfold scanPower at h
  split at h
  · simp at h
  · rename_i ds r _ heq
    rw [heq] at len
    obtain ⟨-, rfl⟩ : _ ∧ r = rest := by simpa using h
    simp only at len
    omega

theorem scanExponent_length_le {cs rest : List Char} {p : Option (Bool × List Char)}
    (h : scanExponent cs = some (p, rest)) : rest.length ≤ cs.length := by
  unfold scanExponent at h
  split at h
  · obtain ⟨⟨q, r⟩, hq, he⟩ := Option.map_eq_some_iff.1 h
    have := scanPower_length_le hq
    simp_all; omega
  · obtain ⟨⟨q, r⟩, hq, he⟩ := Option.map_eq_some_iff.1 h
    have := scanPower_length_le hq
    simp_all; omega
  · simp_all

theorem scanNumber_shorter {negative : Bool} {cs rest : List Char} {n : NumberText}
    (h : scanNumber negative cs = some (n, rest)) : rest.length < cs.length := by
  simp only [scanNumber, Option.bind_eq_bind, Option.bind_eq_some_iff] at h
  obtain ⟨⟨w, cs₁⟩, hw, ⟨f, cs₂⟩, hf, ⟨e, cs₃⟩, he, heq⟩ := h
  have := scanWhole_shorter hw
  have := scanFraction_length_le hf
  have := scanExponent_length_le he
  simp_all; omega

/-! ## Tokens -/

/-- The blanks that may stand between tokens. -/
def isSpace (c : Char) : Bool := c == ' ' || c == '\t' || c == '\n' || c == '\r'

def scanStringToken (cs : List Char) : Option (Token × List Char) :=
  (scanString .plain [] cs).map fun (pieces, rest) =>
    (.string ((joinPieces pieces).map String.ofList), rest)

def scanNumberToken (negative : Bool) (cs : List Char) : Option (Token × List Char) :=
  (scanNumber negative cs).map fun (n, rest) => (.number n, rest)

/-- The token at the front of a text that starts with no blank. -/
def scanToken : List Char → Option (Token × List Char)
  | '[' :: cs => some (.openArray, cs)
  | ']' :: cs => some (.closeArray, cs)
  | '\x7b' :: cs => some (.openObject, cs)
  | '\x7d' :: cs => some (.closeObject, cs)
  | ':' :: cs => some (.colon, cs)
  | ',' :: cs => some (.comma, cs)
  | 'n' :: 'u' :: 'l' :: 'l' :: cs => some (.null, cs)
  | 't' :: 'r' :: 'u' :: 'e' :: cs => some (.truth true, cs)
  | 'f' :: 'a' :: 'l' :: 's' :: 'e' :: cs => some (.truth false, cs)
  | '"' :: cs => scanStringToken cs
  | '-' :: cs => scanNumberToken true cs
  | cs => scanNumberToken false cs

theorem scanToken_shorter {cs rest : List Char} {t : Token} (h : scanToken cs = some (t, rest)) :
    rest.length < cs.length := by
  have string : ∀ {cs}, scanStringToken cs = some (t, rest) → rest.length < cs.length := by
    intro cs h
    obtain ⟨⟨ps, r⟩, hs, he⟩ := Option.map_eq_some_iff.1 h
    have := scanString_shorter hs
    simp_all
  have number : ∀ {b cs}, scanNumberToken b cs = some (t, rest) → rest.length < cs.length := by
    intro b cs h
    obtain ⟨⟨n, r⟩, hn, he⟩ := Option.map_eq_some_iff.1 h
    have := scanNumber_shorter hn
    simp_all
  unfold scanToken at h
  split at h
  case h_10 => exact Nat.lt_succ_of_lt (string h)
  case h_11 => exact Nat.lt_succ_of_lt (number h)
  case h_12 => exact number h
  all_goals simp_all; try omega

end DurableMessaging.Json
