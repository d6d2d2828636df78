import DurableMessaging.Exchange
import Mathlib.Data.List.Forall2

/-!
# What a topic pattern lets through

The words of a key are cut into consecutive segments, one for each word of the pattern. The matcher
tries the places where a segment can end; that it finds a cut just if there is one is shown here.
-/

namespace DurableMessaging

namespace Topic

/-- The segments of a key that a word of a pattern stands for. -/
inductive Takes : (word : List Char) → (segment : List (List Char)) → Prop
  | hash (segment : List (List Char)) : Takes ['#'] segment
  | star (word : List Char) : Takes ['*'] [word]
  | literal {word : List Char} (hash : word ≠ ['#']) (star : word ≠ ['*']) : Takes word [word]

/-- The words of a key can be cut into segments that those of a pattern stand for, in order. -/
def Fits (pattern key : List (List Char)) : Prop :=
  ∃ segments, key = segments.flatten ∧ List.Forall₂ Takes pattern segments

/-! ## The matcher -/

theorem takes_self (word : List Char) : Takes word [word] := by
  by_cases hash : word = ['#']
  · exact hash ▸ .hash _
  · by_cases star : word = ['*']
    · exact star ▸ .star _
    · exact .literal hash star

theorem takes_iff_of_ne_hash {word : List Char} (hash : word ≠ ['#'])
    {segment : List (List Char)} :
    Takes word segment ↔ ∃ k, segment = [k] ∧ (word = ['*'] ∨ word = k) := by
  constructor
  · intro h
    cases h with
    | hash => exact absurd rfl hash
    | star k => exact ⟨k, rfl, .inl rfl⟩
    | literal => exact ⟨word, rfl, .inr rfl⟩
  · rintro ⟨k, rfl, rfl | rfl⟩
    · exact .star k
    · exact takes_self word

theorem fits_nil {key : List (List Char)} : Fits [] key ↔ key = [] := by
  constructor
  · rintro ⟨segments, rfl, h⟩
    cases h
    rfl
  · rintro rfl
    exact ⟨[], rfl, .nil⟩

theorem fits_cons {word : List Char} {pattern key : List (List Char)} :
    Fits (word :: pattern) key ↔
      ∃ segment rest, key = segment ++ rest ∧ Takes word segment ∧ Fits pattern rest := by
  constructor
  · rintro ⟨segments, rfl, h⟩
    obtain ⟨segment, segments, hw, hp, rfl⟩ := List.forall₂_cons_left_iff.mp h
    exact ⟨segment, segments.flatten, rfl, hw, segments, rfl, hp⟩
  · rintro ⟨segment, _, rfl, hw, segments, rfl, hp⟩
    exact ⟨segment :: segments, rfl, .cons hw hp⟩

/-- A hash takes nothing, or the first word and then what a hash takes. -/
theorem fits_hash_cons {pattern : List (List Char)} {k : List Char} {key : List (List Char)} :
    Fits (['#'] :: pattern) (k :: key) ↔
      Fits pattern (k :: key) ∨ Fits (['#'] :: pattern) key := by
  constructor
  · intro h
    obtain ⟨segment, rest, he, -, hp⟩ := fits_cons.mp h
    cases segment with
    | nil => exact .inl (he ▸ hp)
    | cons k' segment =>
        obtain ⟨rfl, rfl⟩ := List.cons.inj he
        exact .inr (fits_cons.mpr ⟨segment, rest, rfl, .hash _, hp⟩)
  · rintro (hp | h)
    · exact fits_cons.mpr ⟨[], _, rfl, .hash _, hp⟩
    · obtain ⟨segment, rest, rfl, -, hp⟩ := fits_cons.mp h
      exact fits_cons.mpr ⟨k :: segment, rest, rfl, .hash _, hp⟩

theorem fits_hash_nil {pattern : List (List Char)} :
    Fits (['#'] :: pattern) [] ↔ Fits pattern [] := by
  constructor
  · intro h
    obtain ⟨segment, rest, he, -, hp⟩ := fits_cons.mp h
    obtain ⟨-, rfl⟩ := List.append_eq_nil_iff.mp he.symm
    exact hp
  · exact fun hp => fits_cons.mpr ⟨[], [], rfl, .hash _, hp⟩

theorem not_fits_cons_nil {word : List Char} (hash : word ≠ ['#']) {pattern : List (List Char)} :
    ¬Fits (word :: pattern) [] := by
  intro h
  obtain ⟨segment, rest, he, hw, -⟩ := fits_cons.mp h
  obtain ⟨k, rfl, -⟩ := (takes_iff_of_ne_hash hash).mp hw
  cases he

theorem fits_cons_cons {word : List Char} (hash : word ≠ ['#']) {pattern : List (List Char)}
    {k : List Char} {key : List (List Char)} :
    Fits (word :: pattern) (k :: key) ↔ (word = ['*'] ∨ word = k) ∧ Fits pattern key := by
  constructor
  · intro h
    obtain ⟨segment, rest, he, hw, hp⟩ := fits_cons.mp h
    obtain ⟨k', rfl, hk⟩ := (takes_iff_of_ne_hash hash).mp hw
    obtain ⟨rfl, rfl⟩ := List.cons.inj he
    exact ⟨hk, hp⟩
  · rintro ⟨hk, hp⟩
    exact fits_cons.mpr ⟨[k], key, rfl, (takes_iff_of_ne_hash hash).mpr ⟨k, rfl, hk⟩, hp⟩

theorem wordsMatch_iff (pattern key : List (List Char)) :
    wordsMatch pattern key = true ↔ Fits pattern key := by
  fun_induction wordsMatch pattern key with
  | case1 key => rw [List.isEmpty_iff, fits_nil]
  | case2 pattern ih => rw [ih, fits_hash_nil]
  | case3 pattern k key ih₁ ih₂ => rw [Bool.or_eq_true, ih₁, ih₂, fits_hash_cons]
  | case4 word pattern hash =>
      exact iff_of_false Bool.false_ne_true (not_fits_cons_nil fun h => hash h)
  | case5 word pattern k key hash ih =>
      rw [Bool.and_eq_true, Bool.or_eq_true, beq_iff_eq, beq_iff_eq, ih,
        fits_cons_cons fun h => hash h]

/-- Every word takes itself, a hash and a star too. -/
theorem wordsMatch_self (key : List (List Char)) : wordsMatch key key = true := by
  rw [wordsMatch_iff]
  induction key with
  | nil => exact fits_nil.mpr rfl
  | cons k key ih => exact fits_cons.mpr ⟨[k], key, rfl, takes_self k, ih⟩

/-- Without a star or a hash there is one word for each word. -/
theorem fits_literal_iff {pattern key : List (List Char)}
    (literal : ∀ word ∈ pattern, word ≠ ['*'] ∧ word ≠ ['#']) : Fits pattern key ↔ pattern = key := by
  induction pattern generalizing key with
  | nil => exact fits_nil.trans eq_comm
  | cons word pattern ih =>
      obtain ⟨⟨star, hash⟩, literal⟩ := List.forall_mem_cons.mp literal
      cases key with
      | nil => exact iff_of_false (not_fits_cons_nil hash) (List.cons_ne_nil _ _)
      | cons k key => rw [fits_cons_cons hash, or_iff_right star, ih literal, List.cons.injEq]

/-! ## Words -/

theorem words_eq_splitOn (cs : List Char) : words cs = cs.splitOn '.' := by
  induction cs with
  | nil => rfl
  | cons c cs ih =>
      have split_cons : (c :: cs).splitOn '.' =
          if (c == '.') = true then [] :: cs.splitOn '.'
          else (cs.splitOn '.').modifyHead (c :: ·) :=
        List.splitOnP_cons_eq_if_modifyHead c cs
      rw [words, ih, split_cons]
      simp only [beq_iff_eq]
      split
      · rfl
      · cases hs : cs.splitOn '.' with
        | nil => exact absurd hs (List.splitOn_ne_nil _ _)
        | cons w ws => rfl

theorem splitOn_dot_inj {s t : String} : s.toList.splitOn '.' = t.toList.splitOn '.' ↔ s = t := by
  constructor
  · intro h
    have same := congrArg (List.intercalate ['.']) h
    rw [List.intercalate_splitOn, List.intercalate_splitOn] at same
    exact String.toList_injective same
  · rintro rfl
    rfl

/-- A key satisfies a pattern just if its words, which its dots separate, can be cut into one segment
for each word of the pattern: any for a hash, a single word for a star, the word itself for any other.
A pattern without stars and hashes is satisfied by itself alone. -/
theorem keyMatches_iff_segments (pattern key : String) :
    let p := pattern.toList.splitOn '.'
    let k := key.toList.splitOn '.'
    (keyMatches pattern key = true ↔
      ∃ segments, k = segments.flatten ∧ List.Forall₂ Takes p segments) ∧
      ((∀ word ∈ p, word ≠ ['*'] ∧ word ≠ ['#']) →
        (keyMatches pattern key = true ↔ pattern = key)) := by
  intro p k
  have matched : keyMatches pattern key = true ↔ Fits p k := by
    unfold keyMatches
    rw [words_eq_splitOn, words_eq_splitOn, wordsMatch_iff]
  refine ⟨matched, fun literal => ?_⟩
  rw [matched, fits_literal_iff literal, splitOn_dot_inj]

/-- An empty word is a word too. -/
theorem keyMatches_without_empty_word :
    (∀ word ∈ "orders..placed".toList.splitOn '.', word ≠ ['*'] ∧ word ≠ ['#']) ∧
      (keyMatches "orders..placed" "orders.placed" = true ↔ "orders..placed" = "orders.placed") :=
  ⟨by decide, (keyMatches_iff_segments _ _).2 (by decide)⟩

end Topic

/-- A key gets through to a queue that is bound with it, whatever the type. -/
theorem ExchangeType.routes_self (t : ExchangeType) (key : String) : t.routes key key = true := by
  cases t with
  | fanout => rfl
  | topic => exact Topic.wordsMatch_self _
  | direct | headers => exact beq_self_eq_true key

end DurableMessaging
