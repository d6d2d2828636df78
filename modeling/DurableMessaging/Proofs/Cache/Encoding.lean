import DurableMessaging.Cache.Object

/-!
# Keys and texts of typed objects

The length in front of a type's name tells where the name ends, so no two objects share a key. What
Base64 writes, it reads back.
-/

namespace DurableMessaging

/-! ## Keys -/

namespace CacheKey

theorem ne_colon_of_mem_repr {n : Nat} {c : Char} (h : c ∈ n.repr.toList) : c ≠ ':' := by
  rw [Nat.toList_repr] at h
  rintro rfl
  exact absurd (Nat.isDigit_of_mem_toDigits (by decide) (by decide) h) (by decide)

theorem takeWhile_repr_colon (n : Nat) (s : String) :
    (n.repr ++ (":" ++ s)).toList.takeWhile (· != ':') = n.repr.toList := by
  rw [String.toList_append, List.takeWhile_append_of_pos fun c hc =>
    bne_iff_ne.mpr (ne_colon_of_mem_repr hc), String.toList_append]
  exact List.append_nil _

theorem eq_of_toList_repr_eq {m n : Nat} (h : m.repr.toList = n.repr.toList) : m = n := by
  rw [Nat.toList_repr, Nat.toList_repr] at h
  have values := congrArg (Nat.ofDigitChars 10 · 0) h
  rwa [Nat.ofDigitChars_toDigits (by decide) (by decide),
    Nat.ofDigitChars_toDigits (by decide) (by decide)] at values

theorem eq_of_object_eq {t u k j : String} (h : object t k = object u j) : t = u ∧ k = j := by
  unfold object at h
  simp only [String.append_assoc, String.append_right_inj] at h
  -- The numbers end at the first colon, and then the names are equally long.
  have digits := congrArg (·.toList.takeWhile (· != ':')) h
  rw [takeWhile_repr_colon, takeWhile_repr_colon] at digits
  have sizes : t.utf8ByteSize = u.utf8ByteSize := eq_of_toList_repr_eq digits
  rw [sizes, String.append_right_inj, String.append_right_inj] at h
  have bytes := congrArg String.toByteArray h
  rw [String.toByteArray_append, String.toByteArray_append] at bytes
  obtain rfl : t = u := String.toByteArray_inj.mp (ByteArray.append_inj_left bytes sizes)
  rw [String.append_right_inj, String.append_right_inj] at h
  exact ⟨rfl, h⟩

/-- No two objects share a key, with colons and digits in their names or not: whoever knows the key
knows the type and the caller's key. -/
theorem object_eq_object_iff {t u k j : String} : object t k = object u j ↔ t = u ∧ k = j :=
  ⟨eq_of_object_eq, fun ⟨types, keys⟩ => by rw [types, keys]⟩

end CacheKey

/-! ## Texts -/

namespace Text.Base64

theorem value?_symbol {n : Nat} (h : n < 64) : value? (symbol n) = some n := by
  have all : ∀ i : Fin 64, value? (symbol i) = some i.val := by decide
  exact all ⟨n, h⟩

theorem symbol_ne_pad {n : Nat} (h : n < 64) : symbol n ≠ '=' := by
  intro heq
  have read := value?_symbol h
  rw [heq] at read
  cases read

theorem decode_group {a b c d : Char} (hd : d ≠ '=') (rest : List Char) :
    decode (a :: b :: c :: d :: rest) = (do
      let n := (← value? a) * 262144 + (← value? b) * 4096 + (← value? c) * 64 + (← value? d)
      let tail ← decode rest
      some (UInt8.ofNat (n / 65536) :: UInt8.ofNat (n / 256 % 256) :: UInt8.ofNat (n % 256) ::
        tail)) := by
  rw [decode]
  · exact fun _ h _ => hd h
  · exact fun h _ => hd h

theorem decode_encode (bytes : List UInt8) : decode (encode bytes) = some bytes := by
  have byte : ∀ (a : UInt8) {n : Nat}, n = a.toNat → UInt8.ofNat n = a :=
    fun a _ h => h ▸ UInt8.ofNat_toNat
  fun_induction encode bytes with
  | case1 a b c rest n ih =>
      have := a.toNat_lt
      have := b.toNat_lt
      have := c.toNat_lt
      rw [decode_group (symbol_ne_pad (Nat.mod_lt _ (by decide)))]
      simp (disch := omega) only [value?_symbol, ih, bind, Option.bind_some]
      rw [byte a (by omega), byte b (by omega), byte c (by omega)]
  | case2 a b n =>
      have := a.toNat_lt
      have := b.toNat_lt
      rw [decode]
      · simp (disch := omega) only [value?_symbol, bind, Option.bind_some]
        rw [if_pos (by omega), byte a (by omega), byte b (by omega)]
      · exact symbol_ne_pad (by omega)
  | case3 a =>
      have := a.toNat_lt
      rw [decode]
      simp (disch := omega) only [value?_symbol, bind, Option.bind_some]
      rw [if_pos (by omega), byte a (by omega)]
  | case4 => rfl

end Text.Base64

end DurableMessaging
