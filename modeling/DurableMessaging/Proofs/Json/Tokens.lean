import DurableMessaging.Json.Tree

/-!
# Written strings and numbers

A string is read back from its text, with every character escaped as its own or not at all. A number
is read back where its text ends or goes on with a character that is no part of a number.
-/

namespace DurableMessaging.Json

/-! ## Strings -/

theorem hexValue?_lowerHexDigit {n : Nat} (h : n < 16) : hexValue? (lowerHexDigit n) = some n := by
  have all : ∀ i : Fin 16, hexValue? (lowerHexDigit i) = some i.val := by decide
  exact all ⟨n, h⟩

/-- The pieces a written character may come back as. Only controls come as units. -/
inductive Piece.Shows : Piece → Char → Prop
  | char (c : Char) : Shows (.char c) c
  | unit {c : Char} (h : c.toNat < 0x20) : Shows (.unit c.toNat) c

theorem joinPieces_cons {p : Piece} {c : Char} (h : p.Shows c) (ps : List Piece) :
    joinPieces (p :: ps) = (joinPieces ps).map (c :: ·) := by
  cases h with
  | char => rw [joinPieces]
  | unit h =>
      -- A control is no half of a pair, whether a unit follows it or not.
      have notHigh : isHighSurrogate c.toNat = false := by simp [isHighSurrogate]; omega
      have notLow : isLowSurrogate c.toNat = false := by simp [isLowSurrogate]; omega
      rcases ps with _ | ⟨_ | _, ps⟩ <;> simp [joinPieces, notHigh, notLow, Char.ofNat_toNat]

theorem scanString_escapeChar (c : Char) : ∃ p : Piece, p.Shows c ∧ ∀ read rest,
    scanString .plain read (escapeChar c ++ rest) = scanString .plain (p :: read) rest := by
  unfold escapeChar
  split
  -- A character without a short escape: a control goes by its number, any other as it is.
  case h_8 quote backslash _ _ _ _ _ =>
    split
    · rename_i control
      refine ⟨.unit c.toNat, .unit control, fun read rest => ?_⟩
      have high := hexValue?_lowerHexDigit (show c.toNat / 16 < 16 by omega)
      have low := hexValue?_lowerHexDigit (Nat.mod_lt c.toNat (show 0 < 16 by decide))
      have value : c.toNat / 16 * 16 + c.toNat % 16 = c.toNat := Nat.div_add_mod' _ _
      have zero : hexValue? '0' = some 0 := by decide
      simp [scanString, high, low, zero, value]
    · rename_i visible
      refine ⟨.char c, .char c, fun read rest => ?_⟩
      have noQuote : c ≠ '"' := quote
      have noBackslash : c ≠ '\\' := backslash
      simp [scanString, noQuote, noBackslash, visible]
  all_goals exact ⟨.char _, .char _, fun _ _ => by simp [scanString, shortEscape?]⟩

theorem scanString_escaped (s rest : List Char) : ∃ ps, joinPieces ps = some s ∧ ∀ read,
    scanString .plain read (s.flatMap escapeChar ++ '"' :: rest) = some (read.reverse ++ ps, rest) := by
  induction s with
  | nil => exact ⟨[], rfl, fun read => by simp [scanString]⟩
  | cons c s ih =>
      obtain ⟨p, shows, step⟩ := scanString_escapeChar c
      obtain ⟨ps, joined, scanned⟩ := ih
      refine ⟨p :: ps, by rw [joinPieces_cons shows, joined]; rfl, fun read => ?_⟩
      rw [List.flatMap_cons, List.append_assoc, step, scanned]
      simp

theorem scanToken_stringChars (s : Option String) (rest : List Char) :
    scanToken (stringChars s ++ rest) = some (.string s, rest) := by
  cases s with
  | none => rfl
  | some s =>
      obtain ⟨ps, joined, scanned⟩ := scanString_escaped s.toList rest
      simp [stringChars, scanToken, scanStringToken, scanned, joined]

/-! ## Numbers -/

/-- A number as JSON has it: only zero itself starts with a zero, and there are digits after an `e`. -/
structure NumberText.Sound (n : NumberText) : Prop where
  nonempty : n.whole ≠ []
  whole : ∀ c ∈ n.whole, c.isDigit = true
  lead : n.whole.head? = some '0' → n.whole = ['0']
  fraction : ∀ c ∈ n.fraction, c.isDigit = true
  exponent : ∀ e ∈ n.exponent, e.2 ≠ [] ∧ ∀ c ∈ e.2, c.isDigit = true

/-- Whether a number may go on with a character. -/
def goesOn (c : Char) : Bool := c.isDigit || c == '.' || c == 'e' || c == 'E'

/-- A text with which no number goes on. -/
def Stops (rest : List Char) : Prop := ∀ c ∈ rest.head?, goesOn c = false

theorem stops_nil : Stops [] := nofun

theorem stops_cons {c : Char} {rest : List Char} (h : goesOn c = false) : Stops (c :: rest) := by
  rintro _ ⟨⟩
  exact h

theorem Stops.head? {rest : List Char} (stop : Stops rest) :
    ∀ c ∈ rest.head?, c.isDigit = false ∧ c ≠ '.' := by
  intro c hc
  have := stop c hc
  simp_all [goesOn]

theorem spanDigits_append {ds rest : List Char} (digits : ∀ c ∈ ds, c.isDigit = true)
    (stop : ∀ c ∈ rest.head?, c.isDigit = false) : spanDigits (ds ++ rest) = (ds, rest) := by
  have ends : rest.takeWhile Char.isDigit = [] ∧ rest.dropWhile Char.isDigit = rest := by
    cases rest <;> simp_all
  rw [spanDigits, List.takeWhile_append_of_pos digits, List.dropWhile_append_of_pos digits, ends.1,
    ends.2, List.append_nil]

namespace NumberText

def fractionChars (fraction : List Char) : List Char :=
  if fraction.isEmpty then [] else '.' :: fraction

def exponentChars : Option (Bool × List Char) → List Char
  | none => []
  | some (negative, digits) => 'e' :: (if negative then ['-'] else []) ++ digits

theorem chars_eq (n : NumberText) : n.chars = (if n.negative then ['-'] else []) ++
    (n.whole ++ (fractionChars n.fraction ++ exponentChars n.exponent)) := by
  obtain ⟨negative, whole, fraction, _ | ⟨minus, digits⟩⟩ := n <;>
    simp [chars, fractionChars, exponentChars]

theorem head?_exponentChars (exponent : Option (Bool × List Char)) {rest : List Char}
    (stop : Stops rest) :
    ∀ c ∈ (exponentChars exponent ++ rest).head?, c.isDigit = false ∧ c ≠ '.' := by
  rcases exponent with _ | ⟨negative, digits⟩
  · exact stop.head?
  · rintro _ ⟨⟩
    decide

theorem head?_fractionChars {fraction rest : List Char}
    (stop : ∀ c ∈ rest.head?, c.isDigit = false ∧ c ≠ '.') :
    ∀ c ∈ (fractionChars fraction ++ rest).head?, c.isDigit = false := by
  rcases fraction with _ | ⟨d, fraction⟩
  · exact fun c hc => (stop c hc).1
  · rintro _ ⟨⟩
    decide

end NumberText

open NumberText

theorem scanWhole_append {whole rest : List Char} (nonempty : whole ≠ [])
    (digits : ∀ c ∈ whole, c.isDigit = true) (lead : whole.head? = some '0' → whole = ['0'])
    (stop : ∀ c ∈ rest.head?, c.isDigit = false) :
    scanWhole (whole ++ rest) = some (whole, rest) := by
  rw [scanWhole, spanDigits_append digits stop]
  split <;> simp_all

theorem scanFraction_fractionChars {fraction rest : List Char}
    (digits : ∀ c ∈ fraction, c.isDigit = true)
    (stop : ∀ c ∈ rest.head?, c.isDigit = false ∧ c ≠ '.') :
    scanFraction (fractionChars fraction ++ rest) = some (fraction, rest) := by
  cases fraction with
  | nil =>
      cases rest with
      | nil => rfl
      | cons c rest =>
          have noPoint : c ≠ '.' := (stop c rfl).2
          simp [fractionChars, scanFraction, noPoint]
  | cons d fraction =>
      have spanned := spanDigits_append digits fun c hc => (stop c hc).1
      simp only [List.cons_append] at spanned
      simp [fractionChars, scanFraction, spanned]

theorem scanPower_append (negative : Bool) {digits rest : List Char} (nonempty : digits ≠ [])
    (all : ∀ c ∈ digits, c.isDigit = true) (stop : Stops rest) :
    scanPower ((if negative then ['-'] else []) ++ digits ++ rest) =
      some ((negative, digits), rest) := by
  have spanned := spanDigits_append all fun c hc => (stop.head? c hc).1
  have sign : scanSign ((if negative then ['-'] else []) ++ digits ++ rest) =
      (negative, digits ++ rest) := by
    cases negative with
    | true => simp [scanSign]
    | false =>
        -- The first digit is not taken for a sign.
        obtain ⟨d, digits, rfl⟩ := List.exists_cons_of_ne_nil nonempty
        have hd := all d List.mem_cons_self
        simp only [Bool.false_eq_true, if_false, List.nil_append, List.cons_append]
        unfold scanSign
        split <;> simp_all
  rw [scanPower, sign]
  dsimp only
  rw [spanned]
  split <;> simp_all

theorem scanExponent_exponentChars {exponent : Option (Bool × List Char)} {rest : List Char}
    (h : ∀ e ∈ exponent, e.2 ≠ [] ∧ ∀ c ∈ e.2, c.isDigit = true) (stop : Stops rest) :
    scanExponent (exponentChars exponent ++ rest) = some (exponent, rest) := by
  rcases exponent with _ | ⟨negative, digits⟩
  · cases rest with
    | nil => rfl
    | cons c rest =>
        have := stop c rfl
        simp_all [goesOn, exponentChars, scanExponent]
  · obtain ⟨nonempty, all⟩ := h _ rfl
    have scanned := scanPower_append negative nonempty all stop
    simp_all [exponentChars, scanExponent]

theorem scanNumber_chars {n : NumberText} (h : n.Sound) {rest : List Char} (stop : Stops rest) :
    scanNumber n.negative
      (n.whole ++ (fractionChars n.fraction ++ (exponentChars n.exponent ++ rest))) =
      some (n, rest) := by
  have past := head?_exponentChars n.exponent stop
  simp [scanNumber, scanWhole_append h.nonempty h.whole h.lead (head?_fractionChars past),
    scanFraction_fractionChars h.fraction past, scanExponent_exponentChars h.exponent stop]

theorem scanToken_of_isDigit {c : Char} {cs : List Char} (h : c.isDigit = true) :
    scanToken (c :: cs) = scanNumberToken false (c :: cs) := by
  unfold scanToken
  split
  case h_12 => rfl
  all_goals
    rename_i heq
    cases heq
    exact absurd h (by decide)

theorem scanToken_numberChars {n : NumberText} (h : n.Sound) {rest : List Char}
    (stop : Stops rest) : scanToken (n.chars ++ rest) = some (.number n, rest) := by
  have scanned := scanNumber_chars h stop
  rw [n.chars_eq]
  simp only [List.append_assoc]
  cases hn : n.negative with
  | true =>
      rw [hn] at scanned
      simp [scanToken, scanNumberToken, scanned]
  | false =>
      obtain ⟨c, whole, hw⟩ := List.exists_cons_of_ne_nil h.nonempty
      rw [hn, hw, List.cons_append] at scanned
      have hc := h.whole c (hw ▸ List.mem_cons_self)
      simp [hw, scanToken_of_isDigit hc, scanNumberToken, scanned]

/-! ## Natural numbers -/

theorem head_toDigits_ne_zero {n : Nat} (h : 0 < n) : (Nat.toDigits 10 n).head? ≠ some '0' := by
  induction n using Nat.strongRecOn with
  | ind n ih =>
      by_cases small : n < 10
      · rw [Nat.toDigits_of_lt_base small]
        have all : ∀ i : Fin 10, 0 < i.val → [i.val.digitChar].head? ≠ some '0' := by decide
        exact all ⟨n, small⟩ h
      · -- The digits of `n / 10` come first.
        have front := ih (n / 10) (by omega) (by omega)
        rw [Nat.toDigits_of_base_le (by decide) (Nat.le_of_not_lt small), List.head?_append]
        cases hd : (Nat.toDigits 10 (n / 10)).head? with
        | none => exact absurd (List.head?_eq_none_iff.mp hd) Nat.toDigits_ne_nil
        | some d =>
            rw [hd] at front
            exact front

theorem NumberText.sound_ofNat (n : Nat) : (ofNat n).Sound where
  nonempty := Nat.toDigits_ne_nil
  whole _ := Nat.isDigit_of_mem_toDigits (by decide) (by decide)
  lead zero := by
    rcases Nat.eq_zero_or_pos n with rfl | positive
    · rfl
    · exact absurd zero (head_toDigits_ne_zero positive)
  fraction := nofun
  exponent := nofun

end DurableMessaging.Json
