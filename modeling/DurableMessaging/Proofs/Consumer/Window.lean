import DurableMessaging.Proofs.Consumer.Crew

/-!
# The dedup window

A dedup record keeps off every delivery of its message until its deadline, whatever the workers do
under its key in the meantime: nothing they do removes an entry, and what they write over it lives
longer.
-/

namespace DurableMessaging

/-- Each dedup record that was written is found until it is past its deadline. -/
def Bench.Remembers (rule : DecisionRule) (b : Bench) : Prop :=
  ∀ r ∈ b.journal, r.time ≤ b.now ∧
    ∀ key value, r.call = .set key value (some rule.dedupTtl) → ∀ later, b.now ≤ later →
      (Cache.entry r.time value (some rule.dedupTtl)).isLive later = true →
        (b.cache.live? later key).isSome = true

theorem DecisionRule.Makes.cases {rule : DecisionRule} {call : CacheCall} (h : rule.Makes call) :
    call.isGentle = true ∨ ∃ key value, call = .set key value (some rule.dedupTtl) := by
  cases call with
  | set key value ttl => exact .inr ⟨key, value, by rw [show ttl = _ from h]⟩
  | delete key => exact h.elim
  | _ => exact .inl rfl

namespace Bench.Remembers

variable {rule : DecisionRule} {b b' : Bench}

theorem start (rule : DecisionRule) (now : Instant) (c : Cache) : (start now c).Remembers rule := nofun

theorem later (h : b.Remembers rule) (journal : b'.journal = b.journal) (hn : b.now ≤ b'.now)
    (keep : ∀ key later, b'.now ≤ later → (b.cache.live? later key).isSome = true →
      (b'.cache.live? later key).isSome = true) : b'.Remembers rule := by
  intro r hr
  obtain ⟨past, found⟩ := h r (journal ▸ hr)
  exact ⟨Nat.le_trans past hn, fun key value hcall t ht live =>
    keep key t ht (found key value hcall t (Nat.le_trans hn ht) live)⟩

theorem set (h : b.Remembers rule) (available : b.cache.available = true) (key value : String) :
    (b.ask (.set key value (some rule.dedupTtl))).2.Remembers rule := by
  have new : ∀ t start v, b.now ≤ t → start ≤ b.now →
      (Cache.entry start v (some rule.dedupTtl)).isLive t = true →
        ((b.ask (.set key value (some rule.dedupTtl))).2.cache.live? t key).isSome = true := by
    intro t start v ht past live
    have live : (Cache.entry b.now value (some rule.dedupTtl)).isLive t = true :=
      Cache.isLive_entry_mono past live
    rw [live?_ask available ht, CacheCall.key, if_pos rfl]
    dsimp only [CacheCall.effect]
    rw [Option.filter_some, if_pos live]
    rfl
  intro r hr
  rcases List.mem_append.mp hr with hr | hr
  · obtain ⟨past, found⟩ := h r hr
    refine ⟨past, fun k v hcall t ht live => ?_⟩
    have ht : b.now ≤ t := ht
    by_cases hk : k = key
    · -- The new record took the place of the old one, and its deadline is not earlier.
      rw [hk]
      exact new t r.time v ht past live
    · rw [live?_ask available ht, CacheCall.key, if_neg hk]
      exact found k v hcall t ht live
  · obtain rfl := List.mem_singleton.mp hr
    refine ⟨Nat.le_refl _, fun k v hcall t ht live => ?_⟩
    cases hcall
    exact new t b.now _ ht (Nat.le_refl _) live

theorem gentle (h : b.Remembers rule) {call : CacheCall} (hc : call.isGentle = true) :
    (b.ask call).2.Remembers rule := by
  have kept : Bench.Remembers rule { b with cache := (b.ask call).2.cache } :=
    h.later rfl (Nat.le_refl _) fun _ _ ht => (b.cache.keeps_perform b.now hc).isSome_live? ht
  intro r hr
  rcases List.mem_append.mp hr with hr | hr
  · exact kept r hr
  · obtain rfl := List.mem_singleton.mp hr
    refine ⟨Nat.le_refl _, fun key value hcall => ?_⟩
    dsimp only at hcall
    rw [hcall] at hc
    cases hc

theorem ask (h : b.Remembers rule) (available : b.cache.available = true) {call : CacheCall}
    (makes : rule.Makes call) : (b.ask call).2.Remembers rule := by
  rcases makes.cases with hc | ⟨key, value, rfl⟩
  · exact h.gentle hc
  · exact h.set available key value

theorem sweep (h : b.Remembers rule) :
    Bench.Remembers rule { b with cache := (b.cache.purge b.now).2 } :=
  h.later rfl (Nat.le_refl _) fun _ _ ht => (b.cache.keeps_sweep b.now).isSome_live? ht

end Bench.Remembers

namespace Crew

theorem remembers_run (e : Engine) (now : Instant) {c : Cache} (available : c.available = true)
    (moves : List CrewMove) :
    (run e now c moves).bench.cache.available = true ∧
      (run e now c moves).bench.Remembers e.rule := by
  refine bench_run (P := fun b => b.cache.available = true ∧ b.Remembers e.rule)
    (fun d => (e.rule.asks_decide d).mono fun _ h => h.2) ⟨available, .start _ _ _⟩ ?_ ?_ ?_ ?_ moves
  · exact fun b call makes h => ⟨(b.cache.available_perform _ _).trans h.1, h.2.ask h.1 makes⟩
  · exact fun b x h => h
  · exact fun b d h => ⟨h.1, h.2.later rfl (Nat.le_add_right _ _) fun _ _ _ live => live⟩
  · exact fun b h => ⟨h.1, h.2.sweep⟩

/-- Once a dedup record was written for a message, a worker that checks a delivery of it before the
deadline finds a duplicate: the check changes nothing in the cache, the handler is not called, and
the delivery is accepted as soon as the worker goes on. -/
theorem accepts_within_window (e : Engine) (now : Instant) (c : Cache)
    (available : c.available = true) (moves : List CrewMove) (worker : Nat) (d : Delivery)
    (id value : String) (t : Instant)
    (hid : DecisionRule.messageId? d = some id)
    (json : (Json.Value.ofPayload? d.payload).isSome = true) :
    let s := run e now c moves
    s.inHand worker = some (d, e.rule.decide d) →
    (∃ r ∈ s.bench.journal, r.time = t ∧
      r.call = .set (CacheKey.dedup d.queue id) value (some e.rule.dedupTtl)) →
    s.bench.now < t + e.rule.dedupTtl ∨ Instant.limit ≤ t + e.rule.dedupTtl →
    ∀ (reply : Reply HandlerError Bool) (more : List CrewMove) (reply' : Reply HandlerError Bool),
      (∀ m ∈ more, m.isBy worker = false) →
      let checked := s.proceed worker reply
      let later := more.foldl step checked
      let concluded := later.proceed worker reply'
      checked.bench.cache = s.bench.cache ∧ checked.bench.handlings = s.bench.handlings ∧
        concluded.decided = later.decided ++ [(d, .accept)] ∧ concluded.bench = later.bench ∧
        concluded.inHand worker = none ∧
        concluded.engine = later.engine.countVerdict .duplicate := by
  rintro s held ⟨r, written, rfl, hcall⟩ window reply more reply' aside checked later concluded
  obtain ⟨payload, hp⟩ := Option.isSome_iff_exists.mp json
  obtain ⟨available, remembers⟩ := remembers_run e now available moves
  have known : (s.bench.cache.live? s.bench.now (CacheKey.dedup d.queue id)).isSome = true :=
    (remembers r written).2 _ value hcall _ (Nat.le_refl _) ((Cache.isLive_entry ..).mpr window)
  have check : (s.bench.ask (.exists (CacheKey.dedup d.queue id))).1 = .ok true := by
    rw [Bench.ask_fst available]
    exact congrArg Except.ok known
  unfold DecisionRule.decide at held
  rw [hid, hp] at held
  have hchecked : checked = _ := proceed_ask held reply
  rw [check] at hchecked
  have found : checked.inHand worker = some (d, .done .duplicate) :=
    (congrArg (·.inHand worker) hchecked).trans (inHand_hold ..)
  have hconcluded : concluded = _ := proceed_done (inHand_steps found aside) reply'
  have unchanged : (s.bench.ask (.exists (CacheKey.dedup d.queue id))).2.cache = s.bench.cache := by
    dsimp only [Bench.ask]
    rw [Cache.perform_of_available available]
    rfl
  rw [hconcluded]
  refine ⟨?_, ?_, rfl, rfl, inHand_hold .., rfl⟩
  · exact (congrArg (·.bench.cache) hchecked).trans unchanged
  · exact congrArg (·.bench.handlings) hchecked

/-- The retry counter of another message has the same key as the record, and is added to. -/
theorem accepts_beside_counter :
    let message (queue : String) : Delivery := ⟨1, queue, "", "", some "1", "1".toUTF8, false⟩
    let processed (worker : Nat) : CrewMove := .proceed worker (.returned true)
    let failed (worker : Nat) : CrewMove := .proceed worker (.returned false)
    let before := [.take 0 (message "retry_orders"), .take 1 (message "orders"), processed 0, failed 1,
      processed 0, failed 1, processed 0, .wait (Duration.ofSeconds 59), failed 1, failed 1, .sweep]
    let s := run .standard 0 .empty (before ++ [.take 2 (message "retry_orders")])
    let checked := s.proceed 2 (.returned true)
    let concluded := checked.proceed 2 (.returned true)
    s.bench.cache.live? s.bench.now "retry_orders_1" = some ⟨"2", some (Duration.ofSeconds 60)⟩ ∧
      concluded.decided = checked.decided ++ [(message "retry_orders", .accept)] ∧
        concluded.bench.handlings = s.bench.handlings := by
  intro message processed failed before s checked concluded
  have held : s.inHand 2 =
      some (message "retry_orders", Engine.standard.rule.decide (message "retry_orders")) := by
    have idle : (run .standard 0 .empty before).inHand 2 = none := by decide +kernel
    rw [← (sound_run .standard 0 .empty before).rule_eq]
    dsimp only [s]
    rw [run_concat]
    exact inHand_take idle _
  have h := accepts_within_window .standard 0 .empty rfl
    (before ++ [.take 2 (message "retry_orders")]) 2 (message "retry_orders") "1" "1" 0
    (by decide +kernel) (by decide +kernel) held (by decide +kernel) (by decide +kernel)
    (.returned true) [] (.returned true) nofun
  refine ⟨by decide +kernel, h.2.2.1, ?_⟩
  exact (congrArg (·.handlings) h.2.2.2.1).trans h.2.1

end Crew

end DurableMessaging
