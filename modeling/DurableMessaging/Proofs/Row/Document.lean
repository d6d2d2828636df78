import DurableMessaging.Proofs.Json.Records
import DurableMessaging.Row.Document

/-!
# Rows that were written

A row whose time is not before the epoch is read back from its JSON text, whatever its texts hold.
What a text gives is such a row.
-/

namespace DurableMessaging

open Json (Tree)
open Json.Tree (fields?_ofFields)

/-! ## Names -/

@[simp]
theorem ExchangeType.ofTree?_ofText (t : ExchangeType) : ofTree? (.ofText t.name) = some t :=
  t.ofName?_name

@[simp]
theorem RowStatus.ofTree?_ofText (s : RowStatus) : ofTree? (.ofText s.name) = some s := by
  cases s <;> rfl

@[simp]
theorem AckPolicy.ofTree?_ofText (p : AckPolicy) : ofTree? (.ofText p.name) = some p := by
  cases p <;> rfl

/-! ## Times -/

namespace Timestamp

/-- A time from the epoch on that can be represented. -/
def IsModern (t : Timestamp) : Prop := 0 ≤ t ∧ t < Instant.limit

theorem ofTree?_eq_some {tree secs nanos : Tree} {s : UInt64} {n : UInt32}
    (found : tree.fields? ⟨false, false⟩ fieldNames = some [some secs, some nanos])
    (hs : secs.word? = some s) (hn : nanos.halfWord? = some n)
    (small : Duration.ofSeconds s.toNat + n.toNat < Instant.limit) :
    ofTree? tree = some ((Duration.ofSeconds s.toNat + n.toNat : Nat) : Int) := by
  rw [ofTree?, found]
  exact Option.bind_eq_some_iff.mpr ⟨s, hs, Option.bind_eq_some_iff.mpr ⟨n, hn, if_pos small⟩⟩

/-- A modern time is written, and comes back with its nanoseconds below a second. -/
theorem IsModern.ofTree?_toTree? {t : Timestamp} (h : t.IsModern) :
    ∃ tree, t.toTree? = some tree ∧ tree.Sound ∧ ofTree? tree = some t := by
  obtain ⟨epoch, limit⟩ := h
  have small : t.toNat < Instant.limit := (Int.toNat_lt epoch).mpr limit
  have secs : t.toNat / Duration.second < UInt64.size := by
    simp only [Instant.limit, Duration.second, UInt64.size] at small ⊢
    omega
  have nanos : t.toNat % Duration.second < UInt32.size :=
    Nat.lt_trans (Nat.mod_lt _ (by decide)) (by decide)
  have total : Duration.ofSeconds (UInt64.ofNat (t.toNat / Duration.second)).toNat +
      (UInt32.ofNat (t.toNat % Duration.second)).toNat = t.toNat := by
    rw [UInt64.toNat_ofNat_of_lt' secs, UInt32.toNat_ofNat_of_lt' nanos]
    exact Nat.div_add_mod' _ _
  refine ⟨_, if_pos epoch, Tree.sound_ofFields (by simp), ?_⟩
  rw [ofTree?_eq_some (fields?_ofFields (by rfl) (by decide)) (Tree.word?_ofNat_of_lt secs)
    (Tree.halfWord?_ofNat_of_lt nanos) (by rwa [total]), total, Int.toNat_of_nonneg epoch]

theorem isModern_of_ofTree? {tree : Tree} {t : Timestamp} (h : ofTree? tree = some t) :
    t.IsModern := by
  unfold ofTree? at h
  split at h
  · simp only [Option.bind_eq_bind, Option.bind_eq_some_iff] at h
    obtain ⟨s, -, n, -, h⟩ := h
    split at h
    · rename_i small
      cases h
      exact ⟨Int.natCast_nonneg _, Int.ofNat_lt.mpr small⟩
    · cases h
  · cases h

end Timestamp

/-! ## Rows -/

namespace Row

theorem optionalText?_ofOptional (o : Option String) :
    optionalText? (some (.ofOptional .ofText o)) = some o := Tree.optional?_text o

theorem ofTree?_toTree? {row : Row} (modern : row.createdAt.IsModern) :
    ∃ tree, row.toTree? = some tree ∧ tree.Sound ∧ ofTree? tree = some row := by
  obtain ⟨created, written, sound, read⟩ := modern.ofTree?_toTree?
  refine ⟨_, by rw [toTree?, written]; rfl, Tree.sound_ofFields (by simp [sound]), ?_⟩
  rw [ofTree?, fields?_ofFields (by rfl) (by decide)]
  simp [read, optionalText?_ofOptional]

theorem isModern_of_ofTree? {tree : Tree} {row : Row} (h : ofTree? tree = some row) :
    row.createdAt.IsModern := by
  unfold ofTree? at h
  split at h
  · simp only [Option.bind_eq_bind, Option.bind_eq_some_iff, Option.some.injEq] at h
    obtain ⟨_, -, _, -, _, -, _, created, _, -, _, -, _, -, _, -, _, -, _, -, rfl⟩ := h
    exact Timestamp.isModern_of_ofTree? created
  · cases h

theorem read?_text? {row : Row} (modern : row.createdAt.IsModern) :
    ∃ text, row.text? = some text ∧ read? text = some row := by
  obtain ⟨tree, written, sound, read⟩ := ofTree?_toTree? modern
  refine ⟨tree.text, by rw [text?, written]; rfl, ?_⟩
  rw [read?, Tree.read?_text sound]
  exact read

theorem isModern_of_read? {text : String} {row : Row} (h : read? text = some row) :
    row.createdAt.IsModern := by
  obtain ⟨tree, -, h⟩ := Option.bind_eq_some_iff.mp h
  exact isModern_of_ofTree? h

/-- A row from the epoch on has a JSON text, and that text gives the row. A text that gives a row may
be laid out otherwise or leave fields out, but what is written for the row gives the same one. -/
theorem gives_row_back_from_text :
    (∀ row : Row, 0 ≤ row.createdAt → row.createdAt < Instant.limit →
      ∃ text, row.text? = some text ∧ read? text = some row) ∧
    ∀ (text : String) (row : Row), read? text = some row →
      ∃ written, row.text? = some written ∧ read? written = some row :=
  ⟨fun _ epoch limit => read?_text? ⟨epoch, limit⟩, fun _ _ h => read?_text? (isModern_of_read? h)⟩

/-- One row has the highest id and the last instant, and texts of quotes, backslashes, controls and a
character outside the basic plane. Another is given by a text in another order, without its queue and
application type. -/
theorem gives_back_row_of_controls :
    let row : Row := ⟨18446744073709551615, "\"\\\x00\x1f\x7f", "[\n\t\"𝄞\"]", Instant.limit - 1,
      "\u2028", "", some "é/\x08\x0c\r", .headers, none, .sent⟩
    let loose := "\x7b\"status\":\"sent\", \"other\":[1e999],\"created_at\":[7,1000000008]," ++
      "\"exchange_type\":\"topic\",\"payload\":\"\\ud834\\udd1e\",\"exchange\":\"\"," ++
      "\"routing_key\":\"k\",\"message_id\":\"m\",\"id\":0\x7d"
    let plain : Row := ⟨0, "m", "𝄞", 8000000008, "", "k", none, .topic, none, .sent⟩
    (0 ≤ row.createdAt ∧ row.createdAt < Instant.limit ∧
      ∃ text, row.text? = some text ∧ read? text = some row) ∧
    read? loose = some plain ∧
      ∃ written, plain.text? = some written ∧ read? written = some plain := by
  intro row loose plain
  have epoch : 0 ≤ row.createdAt := by decide
  have limit : row.createdAt < Instant.limit := by decide
  have read : read? loose = some plain := by decide +kernel
  exact ⟨⟨epoch, limit, gives_row_back_from_text.1 row epoch limit⟩, read,
    gives_row_back_from_text.2 loose plain read⟩

end Row

end DurableMessaging
