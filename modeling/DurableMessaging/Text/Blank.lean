/-!
# Blank characters

The white space of Unicode, and cutting it from both ends of a text.
-/

namespace DurableMessaging.Text

/-- The characters with the Unicode property `White_Space`. -/
def isBlank (c : Char) : Bool :=
  let n := c.toNat
  (0x9 ≤ n && n ≤ 0xD) || n == 0x20 || n == 0x85 || n == 0xA0 || n == 0x1680
    || (0x2000 ≤ n && n ≤ 0x200A) || n == 0x2028 || n == 0x2029 || n == 0x202F
    || n == 0x205F || n == 0x3000

/-- A text without its leading and trailing blanks. -/
def trimBlanks (cs : List Char) : List Char :=
  ((cs.dropWhile isBlank).reverse.dropWhile isBlank).reverse

/-- Nothing but blanks, or nothing at all. -/
def isBlankText (s : String) : Bool := s.toList.all isBlank

theorem trimBlanks_eq_self {cs : List Char} (h : ∀ c ∈ cs, isBlank c = false) :
    trimBlanks cs = cs := by
  have drop : ∀ {l : List Char}, (∀ c ∈ l, isBlank c = false) → l.dropWhile isBlank = l := by
    intro l hl
    cases l with
    | nil => rfl
    | cons c l => simp [List.dropWhile, hl c List.mem_cons_self]
  rw [trimBlanks, drop h, drop (by simpa using h), List.reverse_reverse]

theorem mem_dropWhile_isBlank {c : Char} {cs : List Char} (hc : c ∈ cs) (h : isBlank c = false) :
    c ∈ cs.dropWhile isBlank := by
  induction cs with
  | nil => cases hc
  | cons c' cs ih =>
    by_cases hb : isBlank c' = true
    · rw [List.dropWhile_cons_of_pos hb]
      rcases List.mem_cons.mp hc with rfl | hc
      · rw [h] at hb
        cases hb
      · exact ih hc
    · rw [List.dropWhile_cons_of_neg hb]
      exact hc

theorem mem_trimBlanks {c : Char} {cs : List Char} (hc : c ∈ cs) (h : isBlank c = false) :
    c ∈ trimBlanks cs :=
  List.mem_reverse.mpr
    (mem_dropWhile_isBlank (List.mem_reverse.mpr (mem_dropWhile_isBlank hc h)) h)

end DurableMessaging.Text
