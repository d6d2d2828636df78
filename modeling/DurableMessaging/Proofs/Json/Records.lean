import DurableMessaging.Json.Record
import DurableMessaging.Proofs.Json.Trees

/-!
# Records that were written

The fields of a record are found again in the object that was made of them, each under its name, and
each value is read back from the tree that stands for it.
-/

namespace DurableMessaging.Json

namespace Tree

/-! ## Fields -/

theorem lookup_of_mem {fields : List (String × Tree)} (nodup : (fields.map Prod.fst).Nodup)
    {name : String} {t : Tree} (h : (name, t) ∈ fields) : fields.lookup name = some t := by
  induction fields with
  | nil => cases h
  | cons field fields ih =>
      obtain ⟨fresh, nodup⟩ := List.nodup_cons.mp nodup
      rcases List.mem_cons.mp h with rfl | h
      · exact List.lookup_cons_self
      · have apart : name ≠ field.1 := fun same => fresh (List.mem_map.mpr ⟨_, h, same⟩)
        rw [List.lookup_cons, beq_false_of_ne apart]
        exact ih nodup h

theorem lookup_eq_none {fields : List (String × Tree)} {name : String}
    (h : name ∉ fields.map Prod.fst) : fields.lookup name = none := by
  refine List.lookup_eq_none_iff.mpr fun field hf => bne_iff_ne.mpr ?_
  rintro rfl
  exact h (List.mem_map_of_mem hf)

/-- Each field joins those that were found, as none of its name has been. -/
theorem memberFields_eq {rule : RecordRule} {names : List String} {fields : List (String × Tree)}
    (known : ∀ field ∈ fields, field.1 ∈ names) (found : List (String × Tree))
    (nodup : ((fields.reverse ++ found).map Prod.fst).Nodup) :
    memberFields rule names found (fields.map fun (name, t) => (some name, t)) =
      some (names.map (List.lookup · (fields.reverse ++ found))) := by
  induction fields generalizing found with
  | nil => rfl
  | cons field fields ih =>
      obtain ⟨name, t⟩ := field
      obtain ⟨first, others⟩ := List.forall_mem_cons.mp known
      rw [List.reverse_cons, List.append_assoc, List.singleton_append] at nodup ⊢
      have fresh : name ∉ found.map Prod.fst := by
        rw [List.map_append] at nodup
        exact (List.nodup_cons.mp (List.nodup_append.mp nodup).2.1).1
      have listed : names.contains name = true := List.contains_iff_mem.mpr first
      simp only [List.map_cons, memberFields, listed, lookup_eq_none fresh, if_true,
        Option.isSome_none, Bool.false_eq_true, if_false]
      exact ih others _ nodup

theorem fields?_ofFields {rule : RecordRule} {names : List String} {fields : List (String × Tree)}
    (named : fields.map Prod.fst = names) (nodup : names.Nodup) :
    (ofFields fields).fields? rule names = some (fields.map fun field => some field.2) := by
  subst named
  have backward : (fields.reverse.map Prod.fst).Nodup := by
    rw [List.map_reverse]
    exact (List.reverse_perm _).nodup_iff.mpr nodup
  have known : ∀ field ∈ fields, field.1 ∈ fields.map Prod.fst := fun _ => List.mem_map_of_mem
  rw [ofFields, fields?, memberFields_eq known [] (by rwa [List.append_nil]), List.append_nil,
    List.map_map]
  -- What was found last stands in front.
  refine congrArg some (List.map_congr_left fun field hf => ?_)
  exact lookup_of_mem backward (List.mem_reverse.mpr hf)

/-! ## Values -/

theorem nat?_ofNat {limit n : Nat} (h : n ≤ limit) : (ofNat n).nat? limit = some n := by
  simp [ofNat, nat?, NumberText.ofNat, NumberText.isWhole, Nat.ofDigitChars_ten_toDigits, h]

theorem word?_ofNat_of_lt {n : Nat} (h : n < UInt64.size) :
    (ofNat n).word? = some (.ofNat n) := by
  rw [word?, nat?_ofNat (Nat.le_sub_one_of_lt h), Option.map_some]

theorem halfWord?_ofNat_of_lt {n : Nat} (h : n < UInt32.size) :
    (ofNat n).halfWord? = some (.ofNat n) := by
  rw [halfWord?, nat?_ofNat (Nat.le_sub_one_of_lt h), Option.map_some]

@[simp]
theorem word?_ofNat (n : UInt64) : (ofNat n.toNat).word? = some n := by
  rw [word?_ofNat_of_lt n.toNat_lt, UInt64.ofNat_toNat]

@[simp]
theorem halfWord?_ofNat (n : UInt32) : (ofNat n.toNat).halfWord? = some n := by
  rw [halfWord?_ofNat_of_lt n.toNat_lt, UInt32.ofNat_toNat]

@[simp]
theorem text?_ofText (s : String) : (ofText s).text? = some s := rfl

@[simp]
theorem choice?_ofText (s : String) : (ofText s).choice? = some s := rfl

theorem optional?_ofOptional {α : Type} {read : Tree → Option α} {write : α → Tree}
    (visible : ∀ a, write a ≠ .null) (back : ∀ a, read (write a) = some a) (o : Option α) :
    (ofOptional write o).optional? read = some o := by
  cases o with
  | none => rfl
  | some a =>
      have read : optional? read (write a) = (read (write a)).map some := by
        unfold optional?
        split
        · rename_i null
          exact absurd null (visible a)
        · rfl
      rw [ofOptional, read, back]
      rfl

@[simp]
theorem optional?_word (o : Option UInt64) :
    (ofOptional (fun n => ofNat n.toNat) o).optional? word? = some o :=
  optional?_ofOptional (fun _ => by simp [ofNat]) word?_ofNat o

@[simp]
theorem optional?_text (o : Option String) : (ofOptional ofText o).optional? text? = some o :=
  optional?_ofOptional (fun _ => by simp [ofText]) text?_ofText o

/-! ## Soundness -/

@[simp]
theorem sound_ofNat (n : Nat) : (ofNat n).Sound := .number (NumberText.sound_ofNat n)

@[simp]
theorem sound_ofText (s : String) : (ofText s).Sound := .string _

@[simp]
theorem sound_ofOptional {α : Type} {write : α → Tree} (h : ∀ a, (write a).Sound) (o : Option α) :
    (ofOptional write o).Sound := by
  cases o with
  | none => exact .null
  | some a => exact h a

theorem sound_ofFields {fields : List (String × Tree)} (h : ∀ field ∈ fields, field.2.Sound) :
    (ofFields fields).Sound := by
  refine .object fun member hm => ?_
  obtain ⟨field, hf, rfl⟩ := List.mem_map.mp hm
  exact h field hf

end Tree

end DurableMessaging.Json
