import DurableMessaging.Proofs.Cache.Records

/-!
# What a call does to a cache

A cache is known by what is live in it, now and later. A call answers from the entry that is live
under its key and may replace that entry; under every other key nothing changes, as a sweep drops
only what no later call could see.
-/

namespace DurableMessaging

theorem CacheEntry.isLive_mono {e : CacheEntry} {now later : Instant} (hn : now ≤ later)
    (live : e.isLive later = true) : e.isLive now = true := by
  unfold isLive at live ⊢
  cases hd : e.deadline with
  | none => rfl
  | some deadline =>
      rw [hd, Option.all_some, decide_eq_true_eq] at live
      rw [Option.all_some, decide_eq_true_eq]
      exact Nat.lt_of_le_of_lt hn live

theorem Cache.isLive_entry (start : Instant) (value : String) (ttl : Duration) (later : Instant) :
    (Cache.entry start value (some ttl)).isLive later = true ↔
      later < start + ttl ∨ Instant.limit ≤ start + ttl := by
  unfold Cache.entry CacheEntry.isLive
  rw [Option.bind_some]
  unfold Instant.deadline
  split
  · rename_i representable
    rw [Option.all_some, decide_eq_true_eq]
    exact ⟨.inl, fun h => h.resolve_right (Nat.not_le.mpr representable)⟩
  · rename_i unrepresentable
    exact ⟨fun _ => .inr (Nat.not_lt.mp unrepresentable), fun _ => rfl⟩

theorem Cache.isLive_entry_mono {start start' : Instant} (hs : start ≤ start') {value value' : String}
    {ttl : Duration} {later : Instant}
    (live : (Cache.entry start value (some ttl)).isLive later = true) :
    (Cache.entry start' value' (some ttl)).isLive later = true := by
  have longer : start + ttl ≤ start' + ttl := Nat.add_le_add_right hs ttl
  rw [isLive_entry] at live ⊢
  exact live.imp (Nat.lt_of_lt_of_le · longer) (Nat.le_trans · longer)

theorem CacheEntry.filter_isLive_isLive {now later : Instant} (hn : now ≤ later)
    (e : Option CacheEntry) :
    (e.filter (·.isLive now)).filter (·.isLive later) = e.filter (·.isLive later) := by
  rw [Option.filter_filter]
  congr 1
  funext e
  cases hl : e.isLive later with
  | false => rw [Bool.and_false]
  | true => rw [CacheEntry.isLive_mono hn hl, Bool.and_true]

/-- The answer of an available cache to a call, and what the call leaves under its key, by what is
live there. -/
def CacheCall.effect (now : Instant) :
    (call : CacheCall) → Option CacheEntry → Except CacheError call.Answer × Option CacheEntry
  | .exists _, e => (.ok e.isSome, e)
  | .get _, e => (.ok (e.map (·.value)), e)
  | .set _ value ttl, _ => (.ok (), some (Cache.entry now value ttl))
  | .setIfAbsent _ value ttl, none => (.ok true, some (Cache.entry now value ttl))
  | .setIfAbsent .., some e => (.ok false, some e)
  | .increment _, none => (.ok 1, some ⟨"1", none⟩)
  | .increment key, some e =>
    match Cache.successor? e.value with
    | none => (.error (.notAnInteger key), some e)
    | some n => (.ok n, some { e with value := n.repr })
  | .delete _, e => (.ok e.isSome, none)

namespace Cache

theorem successor?_repr {n : Nat} (h : n + 1 < UInt64.size / 2) :
    successor? n.repr = some ((n : Int) + 1) := by
  unfold successor?
  rw [Text.counter?_repr (Nat.lt_of_succ_lt h)]
  exact if_pos (Int.ofNat_lt.mpr h)

theorem live?_sweep (c : Cache) {now later : Instant} (hn : now ≤ later) (key : String) :
    (c.sweep now).live? later key = c.live? later key := by
  unfold live?
  rw [get?_sweep, CacheEntry.filter_isLive_isLive hn]

theorem live?_insert (c : Cache) (now : Instant) (key : String) (e : CacheEntry) (k : String) :
    live? { c with entries := c.entries.insert key e } now k =
      if k = key then (some e).filter (·.isLive now) else c.live? now k := by
  unfold live?
  rw [Registry.get?_insert]
  split <;> rfl

theorem live?_erase (c : Cache) (now : Instant) (key k : String) :
    live? { c with entries := c.entries.erase key } now k =
      if k = key then none else c.live? now k := by
  unfold live?
  rw [Registry.get?_erase]
  split <;> rfl

theorem live?_write (c : Cache) {now later : Instant} (hn : now ≤ later) (key : String)
    (e : CacheEntry) (k : String) :
    (c.write now key e).live? later k =
      if k = key then (some e).filter (·.isLive later) else c.live? later k := by
  unfold write
  dsimp only
  split
  · rw [live?_sweep _ hn]
    exact c.live?_insert later key e k
  · exact c.live?_insert later key e k

theorem live?_same (c : Cache) {now later : Instant} (hn : now ≤ later) (key k : String) :
    c.live? later k =
      if k = key then (c.live? now key).filter (·.isLive later) else c.live? later k := by
  split
  · rename_i h
    rw [h]
    exact (CacheEntry.filter_isLive_isLive hn _).symm
  · rfl

theorem live?_eq_none {c : Cache} {now later : Instant} {key : String} (h : c.live? now key = none)
    (hn : now ≤ later) : c.live? later key = none := by
  rw [c.live?_same hn key key, if_pos rfl, h]
  rfl

theorem live?_of_later {c : Cache} {now later : Instant} (hn : now ≤ later) {key : String}
    {e : CacheEntry} (h : c.live? later key = some e) : c.live? now key = some e := by
  obtain ⟨found, live⟩ := Option.filter_eq_some_iff.mp h
  exact live?_of_get? found (CacheEntry.isLive_mono hn live)

theorem Keeps.isSome_live? {c c' : Cache} {now later : Instant} (h : c.Keeps now c')
    (hn : now ≤ later) {key : String} (live : (c.live? later key).isSome = true) :
    (c'.live? later key).isSome = true := by
  obtain ⟨e, he⟩ := Option.isSome_iff_exists.mp live
  obtain ⟨found, lasting⟩ := Option.filter_eq_some_iff.mp he
  obtain ⟨v, hv⟩ := h key e.value e.deadline found (CacheEntry.isLive_mono hn lasting)
  rw [live?_of_get? hv (e := ⟨v, e.deadline⟩) lasting]
  rfl

variable {c : Cache}

theorem perform_fst (h : c.available = true) (now : Instant) (call : CacheCall) :
    (c.perform now call).1 = (call.effect now (c.live? now call.key)).1 := by
  rw [perform_of_available h]
  cases call with
  | «exists» key => rfl
  | get key => rfl
  | set key value ttl => rfl
  | setIfAbsent key value ttl =>
      dsimp only [answer, CacheCall.key]
      cases c.live? now key <;> rfl
  | increment key =>
      dsimp only [answer, increment, CacheCall.key]
      cases c.live? now key with
      | none => rfl
      | some e =>
          dsimp only [CacheCall.effect]
          cases successor? e.value <;> rfl
  | delete key => rfl

theorem live?_perform (h : c.available = true) {now later : Instant} (hn : now ≤ later)
    (call : CacheCall) (k : String) :
    (c.perform now call).2.live? later k =
      if k = call.key then (call.effect now (c.live? now call.key)).2.filter (·.isLive later)
      else c.live? later k := by
  rw [perform_of_available h]
  cases call with
  | «exists» key => exact c.live?_same hn key k
  | get key => exact c.live?_same hn key k
  | set key value ttl => exact c.live?_write hn key _ k
  | setIfAbsent key value ttl =>
      have same := c.live?_same hn key k
      dsimp only [answer, CacheCall.key]
      cases hl : c.live? now key with
      | none => exact c.live?_write hn key _ k
      | some e =>
          rw [hl] at same
          exact same
  | increment key =>
      have same := c.live?_same hn key k
      dsimp only [answer, increment, CacheCall.key]
      cases hl : c.live? now key with
      | none => exact c.live?_write hn key _ k
      | some e =>
          rw [hl] at same
          dsimp only [CacheCall.effect]
          cases successor? e.value with
          | none => exact same
          | some n => exact c.live?_insert later key _ k
  | delete key => exact c.live?_erase later key k

/-- A call leaves every other key alone, whether the cache is available or not. -/
theorem live?_perform_of_ne (c : Cache) {now later : Instant} (hn : now ≤ later) {call : CacheCall}
    {k : String} (hk : call.key ≠ k) : (c.perform now call).2.live? later k = c.live? later k := by
  cases h : c.available with
  | true => rw [live?_perform h hn, if_neg hk.symm]
  | false =>
      unfold perform ensureAvailable
      rw [h]
      rfl

/-! ## Caches that agree -/

/-- What can be seen under some keys from an instant on is the same in both caches. -/
structure Agree (keys : List String) (now : Instant) (c c' : Cache) : Prop where
  available : c'.available = c.available
  live : ∀ key ∈ keys, ∀ later, now ≤ later → c'.live? later key = c.live? later key

namespace Agree

variable {keys : List String} {now later : Instant} {c c' : Cache}

theorem refl (keys : List String) (now : Instant) (c : Cache) : Agree keys now c c :=
  ⟨rfl, fun _ _ _ _ => rfl⟩

theorem symm (h : Agree keys now c c') : Agree keys now c' c :=
  ⟨h.available.symm, fun key hk t ht => (h.live key hk t ht).symm⟩

theorem wait (h : Agree keys now c c') (hn : now ≤ later) : Agree keys later c c' :=
  ⟨h.available, fun key hk t ht => h.live key hk t (Nat.le_trans hn ht)⟩

theorem trans {c'' : Cache} (h : Agree keys now c c') (h' : Agree keys now c' c'') :
    Agree keys now c c'' :=
  ⟨h'.available.trans h.available, fun key hk t ht => (h'.live key hk t ht).trans (h.live key hk t ht)⟩

theorem aside (keys : List String) (now : Instant) (c : Cache) {call : CacheCall}
    (hk : call.key ∉ keys) : Agree keys now c (c.perform now call).2 :=
  ⟨c.available_perform now call, fun _ hkey _ ht =>
    c.live?_perform_of_ne ht fun heq => hk (heq ▸ hkey)⟩

/-- A call on one of the keys has the same answer in both caches and leaves them in agreement. -/
theorem perform (h : Agree keys now c c') {call : CacheCall} (hk : call.key ∈ keys) :
    (c'.perform now call).1 = (c.perform now call).1 ∧
      Agree keys now (c.perform now call).2 (c'.perform now call).2 := by
  have hlive := h.live _ hk now (Nat.le_refl now)
  cases ha : c.available with
  | false =>
      have ha' : c'.available = false := h.available.trans ha
      unfold Cache.perform ensureAvailable
      rw [ha, ha']
      exact ⟨rfl, h⟩
  | true =>
      have ha' : c'.available = true := h.available.trans ha
      refine ⟨by rw [perform_fst ha, perform_fst ha', hlive], ?_, fun key hkey t ht => ?_⟩
      · rw [available_perform, available_perform, h.available]
      · rw [live?_perform ha ht, live?_perform ha' ht, hlive, h.live key hkey t ht]

end Agree

end Cache

end DurableMessaging
