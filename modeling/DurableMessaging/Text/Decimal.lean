import DurableMessaging.Text.Blank

/-!
# Decimal integers

Reading bounded integers from decimal text. A plus sign is allowed, digits are ASCII, and the value
must stay within the bound at every digit.
-/

namespace DurableMessaging.Text

/-- Why a text is no integer within its bounds. -/
inductive IntegerError where
  | empty
  | invalidDigit
  | tooLarge
  deriving DecidableEq, Repr

def IntegerError.message : IntegerError → String
  | .empty => "cannot parse integer from empty string"
  | .invalidDigit => "invalid digit found in string"
  | .tooLarge => "number too large to fit in target type"

/-- The value of an ASCII digit. -/
def digit? (c : Char) : Option Nat :=
  if c.isDigit then some (c.toNat - '0'.toNat) else none

/-- Digits continue `value`, which may not pass `limit`. -/
def readDigits (limit : Nat) (value : Nat) : List Char → Except IntegerError Nat
  | [] => .ok value
  | c :: cs =>
    match digit? c with
    | none => .error .invalidDigit
    | some d =>
      if value * 10 + d ≤ limit then readDigits limit (value * 10 + d) cs else .error .tooLarge

/-- Digits that may not be missing. -/
def readMagnitude (limit : Nat) : List Char → Except IntegerError Nat
  | [] => .error .invalidDigit
  | cs => readDigits limit 0 cs

/-- A natural number of at most `limit`. -/
def readNat (limit : Nat) : List Char → Except IntegerError Nat
  | [] => .error .empty
  | '+' :: cs => readMagnitude limit cs
  | cs => readMagnitude limit cs

/-- An integer from `-(limit + 1)` to `limit`, as in two's complement. -/
def readInt (limit : Nat) : List Char → Except IntegerError Int
  | [] => .error .empty
  | '+' :: cs => (readMagnitude limit cs).map Int.ofNat
  | '-' :: cs => (readMagnitude (limit + 1) cs).map fun n => -(n : Int)
  | cs => (readMagnitude limit cs).map Int.ofNat

/-- A 64-bit word, blanks around it ignored. -/
def word? (s : String) : Except IntegerError UInt64 :=
  (readNat (UInt64.size - 1) (trimBlanks s.toList)).map UInt64.ofNat

/-- A signed 64-bit integer, blanks around it ignored. -/
def counter? (s : String) : Option Int :=
  (readInt (UInt64.size / 2 - 1) (trimBlanks s.toList)).toOption

/-! ## Decimal digits of a number -/

theorem le_ofDigitChars (cs : List Char) (value : Nat) : value ≤ Nat.ofDigitChars 10 cs value := by
  induction cs generalizing value with
  | nil => exact Nat.le_refl value
  | cons c cs ih =>
      rw [Nat.ofDigitChars_cons]
      exact Nat.le_trans (by omega) (ih _)

theorem readDigits_eq_ok {limit value : Nat} {cs : List Char} (digits : ∀ c ∈ cs, c.isDigit = true)
    (h : Nat.ofDigitChars 10 cs value ≤ limit) :
    readDigits limit value cs = .ok (Nat.ofDigitChars 10 cs value) := by
  induction cs generalizing value with
  | nil => rfl
  | cons c cs ih =>
      rw [Nat.ofDigitChars_cons, Nat.mul_comm] at h ⊢
      have hd : digit? c = some (c.toNat - '0'.toNat) := if_pos (digits c List.mem_cons_self)
      unfold readDigits
      rw [hd]
      dsimp only
      rw [if_pos (Nat.le_trans (le_ofDigitChars cs _) h)]
      exact ih (fun c hc => digits c (List.mem_cons_of_mem _ hc)) h

theorem isBlank_of_isDigit {c : Char} (h : c.isDigit = true) : isBlank c = false := by
  simp only [Char.isDigit, Bool.and_eq_true, decide_eq_true_eq, ge_iff_le, UInt32.le_iff_toNat_le]
    at h
  have lower : 48 ≤ c.toNat := h.1
  have upper : c.toNat ≤ 57 := h.2
  simp only [isBlank, Bool.or_eq_false_iff, Bool.and_eq_false_iff, decide_eq_false_iff_not,
    beq_eq_false_iff_ne]
  omega

/-- A number within the bound is read back from its own text. -/
theorem counter?_repr {n : Nat} (h : n < UInt64.size / 2) : counter? n.repr = some (n : Int) := by
  have digits : ∀ c ∈ Nat.toDigits 10 n, c.isDigit = true :=
    fun c hc => Nat.isDigit_of_mem_toDigits (by decide) (by decide) hc
  have value : Nat.ofDigitChars 10 (Nat.toDigits 10 n) 0 = n :=
    Nat.ofDigitChars_toDigits (by decide) (by decide)
  have read : readDigits (UInt64.size / 2 - 1) 0 (Nat.toDigits 10 n) = .ok n := by
    rw [readDigits_eq_ok digits (by omega), value]
  unfold counter?
  rw [Nat.toList_repr, trimBlanks_eq_self fun c hc => isBlank_of_isDigit (digits c hc)]
  cases hcs : Nat.toDigits 10 n with
  | nil => exact absurd hcs Nat.toDigits_ne_nil
  | cons c cs =>
      rw [hcs] at digits read
      have hc := digits c List.mem_cons_self
      unfold readInt
      split
      · rename_i h
        cases h
      · rename_i h
        cases h
        cases hc
      · rename_i h
        cases h
        cases hc
      · rw [readMagnitude, read]
        · rfl
        · exact nofun

/-! ## Characters of a number -/

theorem isDigit_of_readDigits {limit value n : Nat} {cs : List Char}
    (h : readDigits limit value cs = .ok n) : ∀ c ∈ cs, c.isDigit = true := by
  induction cs generalizing value with
  | nil => exact nofun
  | cons c cs ih =>
      unfold readDigits digit? at h
      by_cases hc : c.isDigit = true
      · rw [if_pos hc] at h
        dsimp only at h
        split at h
        · exact List.forall_mem_cons.mpr ⟨hc, ih h⟩
        · cases h
      · rw [if_neg hc] at h
        cases h

theorem isDigit_of_readMagnitude {limit n : Nat} {cs : List Char}
    (h : readMagnitude limit cs = .ok n) : ∀ c ∈ cs, c.isDigit = true := by
  cases cs with
  | nil => cases h
  | cons c cs => exact isDigit_of_readDigits h

theorem sign_or_digit_of_readInt {limit : Nat} {n : Int} {cs : List Char}
    (h : readInt limit cs = .ok n) : ∀ c ∈ cs, c = '+' ∨ c = '-' ∨ c.isDigit = true := by
  unfold readInt at h
  split at h
  · cases h
  · rename_i cs
    cases hr : readMagnitude limit cs with
    | error e =>
        rw [hr] at h
        cases h
    | ok m =>
        refine List.forall_mem_cons.mpr ⟨.inl rfl, fun c hc => ?_⟩
        exact .inr (.inr (isDigit_of_readMagnitude hr c hc))
  · rename_i cs
    cases hr : readMagnitude (limit + 1) cs with
    | error e =>
        rw [hr] at h
        cases h
    | ok m =>
        refine List.forall_mem_cons.mpr ⟨.inr (.inl rfl), fun c hc => ?_⟩
        exact .inr (.inr (isDigit_of_readMagnitude hr c hc))
  · cases hr : readMagnitude limit cs with
    | error e =>
        rw [hr] at h
        cases h
    | ok m => exact fun c hc => .inr (.inr (isDigit_of_readMagnitude hr c hc))

theorem counter?_eq_none {s : String} {c : Char} (hc : c ∈ s.toList) (blank : isBlank c = false)
    (sign : c ≠ '+' ∧ c ≠ '-') (digit : c.isDigit = false) : counter? s = none := by
  unfold counter?
  cases h : readInt (UInt64.size / 2 - 1) (trimBlanks s.toList) with
  | error e => rfl
  | ok n =>
      rcases sign_or_digit_of_readInt h c (mem_trimBlanks hc blank) with hp | hm | hd
      · exact absurd hp sign.1
      · exact absurd hm sign.2
      · rw [digit] at hd
        cases hd

end DurableMessaging.Text
