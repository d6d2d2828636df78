import DurableMessaging.Cache.Basic

/-!
# Entries that stay in a cache

Only a call that replaces or removes an entry can end it before its deadline. So what was set under
some keys can be found there for as long as none of it is past its deadline.
-/

namespace DurableMessaging

/-- Whether a call leaves every live entry in its place. -/
def CacheCall.isGentle : CacheCall → Bool
  | .set .. | .delete _ => false
  | _ => true

/-- What a call puts under a key whatever is there. -/
def CacheCall.record? (now : Instant) : CacheCall → Option (String × CacheEntry)
  | .set key value ttl => some (key, Cache.entry now value ttl)
  | _ => none

namespace Cache

theorem get?_sweep (c : Cache) (now : Instant) (key : String) :
    (c.sweep now).entries.get? key = (c.entries.get? key).filter (·.isLive now) :=
  Registry.get?_filter _ _ _

theorem available_write (c : Cache) (now : Instant) (key : String) (e : CacheEntry) :
    (c.write now key e).available = c.available := by
  unfold write
  dsimp only
  split <;> rfl

/-- A write may sweep, which leaves what is live. -/
theorem get?_write {c : Cache} {now : Instant} {key : String} {e : CacheEntry} {k : String}
    {x : CacheEntry} (h : (c.entries.insert key e).get? k = some x) (live : x.isLive now = true) :
    (c.write now key e).entries.get? k = some x := by
  unfold write
  dsimp only
  split
  · rw [get?_sweep, h, Option.filter_some, if_pos live]
  · exact h

theorem perform_of_available {c : Cache} (h : c.available = true) (now : Instant)
    (call : CacheCall) : c.perform now call = c.answer now call := by
  unfold perform ensureAvailable
  rw [if_pos h]

theorem available_perform (c : Cache) (now : Instant) (call : CacheCall) :
    (c.perform now call).2.available = c.available := by
  unfold perform
  cases c.ensureAvailable with
  | error e => rfl
  | ok u =>
      cases call with
      | «exists» key => rfl
      | get key => rfl
      | set key value ttl => exact c.available_write _ _ _
      | setIfAbsent key value ttl =>
          dsimp only [answer]
          split
          · rfl
          · exact c.available_write _ _ _
      | increment key =>
          dsimp only [answer, increment]
          split
          · exact c.available_write _ _ _
          · split <;> rfl
      | delete key => rfl

/-! ## Live entries stay -/

/-- What is live in one cache is in the other, to the same deadline. -/
def Keeps (now : Instant) (c c' : Cache) : Prop :=
  ∀ key v deadline, c.entries.get? key = some ⟨v, deadline⟩ →
    CacheEntry.isLive ⟨v, deadline⟩ now = true → ∃ v', c'.entries.get? key = some ⟨v', deadline⟩

theorem Keeps.refl (now : Instant) (c : Cache) : c.Keeps now c := fun _ v _ h _ => ⟨v, h⟩

theorem keeps_sweep (c : Cache) (now : Instant) : c.Keeps now (c.sweep now) := by
  intro key v deadline h live
  exact ⟨v, by rw [get?_sweep, h, Option.filter_some, if_pos live]⟩

theorem live?_of_get? {c : Cache} {now : Instant} {key : String} {e : CacheEntry}
    (h : c.entries.get? key = some e) (live : e.isLive now = true) : c.live? now key = some e := by
  unfold live?
  rw [h, Option.filter_some, if_pos live]

/-- A write where nothing is live replaces nothing that is. -/
theorem keeps_write {c : Cache} {now : Instant} {key : String} (h : c.live? now key = none)
    (e : CacheEntry) : c.Keeps now (c.write now key e) := by
  intro k v deadline hk live
  refine ⟨v, get?_write ?_ live⟩
  rw [Registry.get?_insert]
  split
  · rename_i heq
    rw [heq] at hk
    rw [live?_of_get? hk live] at h
    cases h
  · exact hk

theorem keeps_increment (c : Cache) (now : Instant) (key : String) :
    c.Keeps now (c.increment now key).2 := by
  unfold increment
  cases hl : c.live? now key with
  | none => exact keeps_write hl _
  | some e =>
      dsimp only
      split
      · exact .refl now c
      · intro k v deadline hk live
        dsimp only
        rw [Registry.get?_insert]
        split
        · rename_i heq
          rw [heq] at hk
          cases (live?_of_get? hk live).symm.trans hl
          exact ⟨_, rfl⟩
        · exact ⟨v, hk⟩

theorem keeps_perform (c : Cache) (now : Instant) {call : CacheCall} (h : call.isGentle = true) :
    c.Keeps now (c.perform now call).2 := by
  unfold perform
  cases c.ensureAvailable with
  | error e => exact .refl now c
  | ok u =>
      cases call with
      | «exists» key => exact .refl now c
      | get key => exact .refl now c
      | set key value ttl => cases h
      | setIfAbsent key value ttl =>
          dsimp only [answer]
          split
          · exact .refl now c
          · rename_i hl
            exact keeps_write (by simpa using hl) _
      | increment key => exact c.keeps_increment now key
      | delete key => cases h

/-! ## Records -/

/-- Under the key of each record is an entry with the deadline of one of them. -/
def Backs (c : Cache) (records : List (String × CacheEntry)) : Prop :=
  ∀ r ∈ records, ∃ r' ∈ records, r'.1 = r.1 ∧ ∃ v, c.entries.get? r.1 = some ⟨v, r'.2.deadline⟩

namespace Backs

variable {c c' : Cache} {now : Instant} {records : List (String × CacheEntry)}

theorem keep (h : c.Backs records) (lasting : ∀ r ∈ records, r.2.isLive now = true)
    (hk : c.Keeps now c') : c'.Backs records := by
  intro r hr
  obtain ⟨r', hr', hkey, v, hget⟩ := h r hr
  exact ⟨r', hr', hkey, hk _ _ _ hget (lasting r' hr')⟩

theorem live (h : c.Backs records) (lasting : ∀ r ∈ records, r.2.isLive now = true)
    {r : String × CacheEntry} (hr : r ∈ records) : (c.live? now r.1).isSome = true := by
  obtain ⟨r', hr', -, v, hget⟩ := h r hr
  rw [live?_of_get? hget (lasting r' hr')]
  rfl

theorem set (h : c.Backs records) (available : c.available = true) {key value : String}
    {ttl : Option Duration}
    (lasting : ∀ r ∈ records ++ [(key, entry now value ttl)], r.2.isLive now = true) :
    (c.perform now (.set key value ttl)).2.Backs (records ++ [(key, entry now value ttl)]) := by
  rw [perform_of_available available]
  have new : (key, entry now value ttl) ∈ records ++ [(key, entry now value ttl)] :=
    List.mem_append_right _ List.mem_cons_self
  intro r hr
  by_cases hkey : r.1 = key
  · refine ⟨_, new, hkey.symm, _, get?_write ?_ (lasting _ new)⟩
    rw [Registry.get?_insert, if_pos hkey]
    rfl
  · have old : r ∈ records := by
      rcases List.mem_append.mp hr with hr | hr
      · exact hr
      · exact absurd (congrArg Prod.fst (List.mem_singleton.mp hr)) hkey
    obtain ⟨r', hr', hk, v, hget⟩ := h r old
    have hr'' := List.mem_append_left [(key, entry now value ttl)] hr'
    refine ⟨r', hr'', hk, v, get?_write ?_ (lasting r' hr'')⟩
    rw [Registry.get?_insert, if_neg hkey]
    exact hget

end Backs

end Cache

end DurableMessaging
