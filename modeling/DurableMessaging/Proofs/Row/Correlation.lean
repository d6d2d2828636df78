import DurableMessaging.Row.Basic

/-!
# Ids and correlation tokens as text

Which texts name a row: those that spell a 64-bit number, perhaps with a plus sign in front, with
nothing but blanks around it. Ids and correlation tokens are read alike, and a text that names no row
is told in the error as it came.
-/

namespace DurableMessaging

namespace Text

/-! ## Blanks -/

theorem trimBlanks_append_left {before cs : List Char} (h : ∀ c ∈ before, isBlank c = true) :
    trimBlanks (before ++ cs) = trimBlanks cs := by
  rw [trimBlanks, List.dropWhile_append_of_pos h, trimBlanks]

theorem trimBlanks_append_right {cs after : List Char} (h : ∀ c ∈ after, isBlank c = true) :
    trimBlanks (cs ++ after) = trimBlanks cs := by
  have gone : after.dropWhile isBlank = [] := by
    rw [← List.append_nil after, List.dropWhile_append_of_pos h]
    rfl
  have back : ∀ l : List Char, (l ++ after).reverse.dropWhile isBlank = l.reverse.dropWhile isBlank :=
    fun l => by rw [List.reverse_append, List.dropWhile_append_of_pos (by simpa using h)]
  rw [trimBlanks, trimBlanks, List.dropWhile_append]
  split
  · rename_i empty
    rw [List.isEmpty_iff.mp empty, gone]
  · rw [back]

/-- What is trimmed away is blank. -/
theorem exists_eq_trimBlanks (cs : List Char) : ∃ before after,
    cs = before ++ trimBlanks cs ++ after ∧ ∀ c ∈ before ++ after, isBlank c = true := by
  refine ⟨cs.takeWhile isBlank, ((cs.dropWhile isBlank).reverse.takeWhile isBlank).reverse, ?_, ?_⟩
  · rw [trimBlanks, List.append_assoc, ← List.reverse_append, List.takeWhile_append_dropWhile,
      List.reverse_reverse, List.takeWhile_append_dropWhile]
  · have taken : ∀ l : List Char, ∀ c ∈ l.takeWhile isBlank, isBlank c = true :=
      fun _ => List.all_eq_true.mp List.all_takeWhile
    rw [List.forall_mem_append]
    exact ⟨taken _, fun c hc => taken _ c (List.mem_reverse.mp hc)⟩

/-! ## Digits -/

/-- Digits that write a number, with any number of zeros in front. -/
structure IsDecimal (cs : List Char) (n : Nat) : Prop where
  nonempty : cs ≠ []
  digits : ∀ c ∈ cs, c.isDigit = true
  value : Nat.ofDigitChars 10 cs 0 = n

/-- A number spelled with or without a plus sign. -/
inductive Spells : List Char → Nat → Prop
  | plain {cs : List Char} {n : Nat} (h : IsDecimal cs n) : Spells cs n
  | plus {cs : List Char} {n : Nat} (h : IsDecimal cs n) : Spells ('+' :: cs) n

/-- A number spelled with nothing but blanks around it. -/
def Names (text : String) (n : Nat) : Prop :=
  ∃ before spelling after, text.toList = before ++ spelling ++ after ∧
    (∀ c ∈ before ++ after, isBlank c = true) ∧ Spells spelling n

theorem isDecimal_toDigits (n : Nat) : IsDecimal (Nat.toDigits 10 n) n where
  nonempty := Nat.toDigits_ne_nil
  digits _ := Nat.isDigit_of_mem_toDigits (by decide) (by decide)
  value := Nat.ofDigitChars_ten_toDigits

theorem Spells.isBlank_eq_false {cs : List Char} {n : Nat} (h : Spells cs n) :
    ∀ c ∈ cs, isBlank c = false := by
  cases h with
  | plain h => exact fun c hc => isBlank_of_isDigit (h.digits c hc)
  | plus h => exact List.forall_mem_cons.mpr ⟨rfl, fun c hc => isBlank_of_isDigit (h.digits c hc)⟩

theorem value_of_readDigits {limit value n : Nat} {cs : List Char} (h : value ≤ limit)
    (read : readDigits limit value cs = .ok n) : Nat.ofDigitChars 10 cs value = n ∧ n ≤ limit := by
  induction cs generalizing value with
  | nil =>
      cases read
      exact ⟨rfl, h⟩
  | cons c cs ih =>
      have hc : digit? c = some (c.toNat - '0'.toNat) :=
        if_pos (isDigit_of_readDigits read c List.mem_cons_self)
      simp only [readDigits, hc] at read
      split at read
      · rename_i fits
        rw [Nat.ofDigitChars_cons, Nat.mul_comm]
        exact ih fits read
      · cases read

theorem readDigits_eq_ok_iff {limit value n : Nat} {cs : List Char} (h : value ≤ limit) :
    readDigits limit value cs = .ok n ↔
      (∀ c ∈ cs, c.isDigit = true) ∧ Nat.ofDigitChars 10 cs value = n ∧ n ≤ limit := by
  constructor
  · exact fun read => ⟨isDigit_of_readDigits read, value_of_readDigits h read⟩
  · rintro ⟨digits, rfl, fits⟩
    exact readDigits_eq_ok digits fits

theorem readMagnitude_eq_ok_iff {limit n : Nat} {cs : List Char} :
    readMagnitude limit cs = .ok n ↔ IsDecimal cs n ∧ n ≤ limit := by
  cases cs with
  | nil => exact ⟨fun read => (by cases read), fun h => absurd rfl h.1.nonempty⟩
  | cons c cs =>
      rw [readMagnitude, readDigits_eq_ok_iff (Nat.zero_le _)]
      · constructor
        · rintro ⟨digits, value, fits⟩
          exact ⟨⟨List.cons_ne_nil _ _, digits, value⟩, fits⟩
        · rintro ⟨h, fits⟩
          exact ⟨h.digits, h.value, fits⟩
      · exact List.cons_ne_nil _ _

theorem readNat_eq_ok_iff {limit n : Nat} {cs : List Char} :
    readNat limit cs = .ok n ↔ Spells cs n ∧ n ≤ limit := by
  unfold readNat
  split
  · refine ⟨nofun, fun ⟨h, _⟩ => ?_⟩
    cases h with
    | plain h => exact absurd rfl h.nonempty
  · rename_i cs
    rw [readMagnitude_eq_ok_iff]
    refine and_congr_left fun _ => ⟨.plus, fun h => ?_⟩
    cases h with
    | plain h => exact absurd (h.digits '+' List.mem_cons_self) (by decide)
    | plus h => exact h
  · rename_i noPlus
    rw [readMagnitude_eq_ok_iff]
    refine and_congr_left fun _ => ⟨.plain, fun h => ?_⟩
    cases h with
    | plain h => exact h
    | plus h => exact absurd rfl (noPlus _)

theorem readNat_trimBlanks_eq_ok_iff {limit n : Nat} {text : String} :
    readNat limit (trimBlanks text.toList) = .ok n ↔ Names text n ∧ n ≤ limit := by
  rw [readNat_eq_ok_iff]
  refine and_congr_left fun _ => ⟨fun h => ?_, ?_⟩
  · obtain ⟨before, after, split, blank⟩ := exists_eq_trimBlanks text.toList
    exact ⟨before, _, after, split, blank, h⟩
  · rintro ⟨before, spelling, after, split, blank, h⟩
    rw [List.forall_mem_append] at blank
    rwa [split, trimBlanks_append_right blank.2, trimBlanks_append_left blank.1,
      trimBlanks_eq_self h.isBlank_eq_false]

theorem word?_eq_ok_iff {text : String} {w : UInt64} : word? text = .ok w ↔ Names text w.toNat := by
  have small := w.toNat_lt
  have fits : w.toNat ≤ UInt64.size - 1 := Nat.le_sub_one_of_lt small
  unfold word?
  constructor
  · cases read : readNat (UInt64.size - 1) (trimBlanks text.toList) with
    | error e => exact nofun
    | ok n =>
        rintro ⟨⟩
        obtain ⟨named, le⟩ := readNat_trimBlanks_eq_ok_iff.mp read
        have lt : n < UInt64.size := Nat.lt_of_le_pred (by decide) le
        rwa [UInt64.toNat_ofNat_of_lt' lt]
  · intro named
    rw [readNat_trimBlanks_eq_ok_iff.mpr ⟨named, fits⟩]
    exact congrArg _ (UInt64.ofNat_toNat)

end Text

/-! ## Rows -/

namespace RowId

theorem names_text (id : RowId) : Text.Names id.text id.toNat :=
  ⟨[], _, [], by rw [text, Nat.toList_repr]; simp, nofun, .plain (Text.isDecimal_toDigits _)⟩

theorem readCorrelation_eq_ok_iff {s : String} {id : RowId} :
    readCorrelation s = .ok id ↔ read s = .ok id := by
  unfold readCorrelation
  cases read s with
  | error e => exact ⟨nofun, nofun⟩
  | ok found => exact ⟨fun h => congrArg _ (Except.ok.inj h), fun h => congrArg _ (Except.ok.inj h)⟩

theorem readCorrelation_eq_error_iff {s : String} :
    readCorrelation s = .error (.invalidCorrelation s) ↔ ∀ id, read s ≠ .ok id := by
  unfold readCorrelation
  cases read s with
  | error e => exact ⟨fun _ => nofun, fun _ => rfl⟩
  | ok found => exact ⟨nofun, fun h => absurd rfl (h found)⟩

/-- Ids come back from the text that shows them. A correlation token is taken where an id is, for the
same row, and that is where the text spells a 64-bit number between blanks. The error that any other
token meets holds all of it, blanks included. -/
theorem reads_spelled_numbers_only :
    (∀ id : RowId, read id.text = .ok id ∧ readCorrelation id.text = .ok id) ∧
      ∀ s : String,
        (∀ id, readCorrelation s = .ok id ↔ read s = .ok id) ∧
        (∀ id, read s = .ok id ↔ Text.Names s id.toNat) ∧
        (readCorrelation s = .error (.invalidCorrelation s) ↔
          ¬∃ n, n ≤ UInt64.size - 1 ∧ Text.Names s n) := by
  have shown : ∀ id : RowId, read id.text = .ok id :=
    fun id => Text.word?_eq_ok_iff.mpr id.names_text
  refine ⟨fun id => ⟨shown id, readCorrelation_eq_ok_iff.mpr (shown id)⟩, fun s => ?_⟩
  refine ⟨fun _ => readCorrelation_eq_ok_iff, fun _ => Text.word?_eq_ok_iff, ?_⟩
  rw [readCorrelation_eq_error_iff]
  constructor
  · rintro unread ⟨n, small, named⟩
    have lt : n < UInt64.size := Nat.lt_of_le_pred (by decide) small
    refine unread (UInt64.ofNat n) (Text.word?_eq_ok_iff.mpr ?_)
    rwa [UInt64.toNat_ofNat_of_lt' lt]
  · intro unnamed id found
    exact unnamed ⟨id.toNat, Nat.le_pred_of_lt id.toNat_lt, Text.word?_eq_ok_iff.mp found⟩

example : readCorrelation "\u3000+0018446744073709551615\n" = .ok 18446744073709551615 := rfl

example : readCorrelation " 18446744073709551616" =
    .error (.invalidCorrelation " 18446744073709551616") := rfl

end RowId

end DurableMessaging
