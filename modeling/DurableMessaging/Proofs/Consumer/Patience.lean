import DurableMessaging.Proofs.Consumer.Isolation
import DurableMessaging.Proofs.Consumer.Retries

/-!
# Retries run out

A decision to retry leaves a higher count under the key of the message, and none above the bound. A
dedup record may have the same key, but it holds a message id with an underscore in it, which is no
count.
-/

namespace DurableMessaging

namespace CacheKey

theorem underscore_of_dedup_eq_retry {queue id id' : String}
    (h : dedup queue id' = retry queue id) : '_' ∈ id'.toList := by
  have split : (queue.toList ++ ['_']) ++ id'.toList =
      ("retry".toList ++ '_' :: queue.toList) ++ '_' :: id.toList := by
    have h := congrArg String.toList h
    rw [retry_eq_dedup, toList_dedup, toList_dedup, toList_dedup] at h
    rwa [List.append_assoc, List.append_assoc]
  rcases List.append_eq_append_iff.mp split with ⟨mid, -, hid⟩ | ⟨mid, hqueue, -⟩
  · rw [hid]
    exact List.mem_append_right _ List.mem_cons_self
  · have lengths := congrArg List.length hqueue
    simp only [List.length_append, List.length_cons, List.length_nil] at lengths
    have : "retry".toList.length = 5 := rfl
    omega

end CacheKey

/-- The count in an entry, zero if there is none in it. -/
def CacheEntry.count (e : CacheEntry) : Int := (Text.counter? e.value).getD 0

namespace Bench

variable {queue : String} {b b' b'' : Bench}

/-- The count that is found under a key, zero if there is none. -/
def count (b : Bench) (key : String) : Int := ((b.cache.live? b.now key).map (·.count)).getD 0

/-- No count under the retry keys of a queue is negative. -/
structure Regular (queue : String) (b : Bench) : Prop where
  available : b.cache.available = true
  counted : ∀ id e, b.cache.live? b.now (CacheKey.retry queue id) = some e → 0 ≤ e.count

/-- The retry counters of a queue that are found at a bench are not past their deadline at some
later time. -/
def LastsUntil (queue : String) (later : Instant) (b : Bench) : Prop :=
  ∀ id e, b.cache.live? b.now (CacheKey.retry queue id) = some e →
    (Text.counter? e.value).isSome = true → e.isLive later = true

/-- From one bench to a later one nothing was written. -/
structure Unwritten (b b' : Bench) : Prop where
  now_le : b.now ≤ b'.now
  available : b'.cache.available = b.cache.available
  live : ∀ key later, b'.now ≤ later → b'.cache.live? later key = b.cache.live? later key

namespace Unwritten

theorem trans (h : b.Unwritten b') (h' : b'.Unwritten b'') : b.Unwritten b'' where
  now_le := Nat.le_trans h.now_le h'.now_le
  available := h'.available.trans h.available
  live key later hn := (h'.live key later hn).trans (h.live key later (Nat.le_trans h'.now_le hn))

theorem note (b : Bench) (x : Handling) : b.Unwritten (b.note x) :=
  ⟨Nat.le_refl _, rfl, fun _ _ _ => rfl⟩

theorem wait (b : Bench) (d : Duration) : b.Unwritten (b.wait d) :=
  ⟨Nat.le_add_right _ _, rfl, fun _ _ _ => rfl⟩

theorem ask (available : b.cache.available = true) {call : CacheCall}
    (effect : ∀ e, (call.effect b.now e).2 = e) : b.Unwritten (b.ask call).2 where
  now_le := Nat.le_refl _
  available := b.cache.available_perform b.now call
  live key later hn := by
    have hn : b.now ≤ later := hn
    rw [live?_ask available hn, effect]
    exact (b.cache.live?_same hn call.key key).symm

theorem found (h : b.Unwritten b') {key : String} {e : CacheEntry}
    (he : b'.cache.live? b'.now key = some e) : b.cache.live? b.now key = some e :=
  Cache.live?_of_later h.now_le ((h.live key _ (Nat.le_refl _)).symm.trans he)

theorem stays (h : b.Unwritten b') {key : String} {e : CacheEntry}
    (found : b.cache.live? b.now key = some e) (live : e.isLive b'.now = true) :
    b'.cache.live? b'.now key = some e := by
  rw [h.live key _ (Nat.le_refl _), b.cache.live?_same h.now_le key key, if_pos rfl, found,
    Option.filter_some, if_pos live]

theorem regular (h : b.Unwritten b') (hr : b.Regular queue) : b'.Regular queue :=
  ⟨h.available.trans hr.available, fun id e he => hr.counted id e (h.found he)⟩

theorem lastsUntil (h : b.Unwritten b') {later : Instant} (hl : b.LastsUntil queue later) :
    b'.LastsUntil queue later :=
  fun id e he => hl id e (h.found he)

/-- A counter that lasts is still found, and no other turns up. -/
theorem count_eq (h : b.Unwritten b') {later : Instant} (hl : b.LastsUntil queue later)
    (hn : b'.now ≤ later) (id : String) :
    b'.count (CacheKey.retry queue id) = b.count (CacheKey.retry queue id) := by
  have same := (h.live (CacheKey.retry queue id) _ (Nat.le_refl _)).trans
    ((b.cache.live?_same h.now_le (CacheKey.retry queue id) _).trans (if_pos rfl))
  unfold count
  rw [same]
  cases found : b.cache.live? b.now (CacheKey.retry queue id) with
  | none => rfl
  | some e =>
      rw [Option.filter_some]
      split
      · rfl
      · rename_i expired
        -- what has expired was no counter
        have none : Text.counter? e.value = none := by
          rw [← Option.not_isSome_iff_eq_none]
          exact fun counter => expired (CacheEntry.isLive_mono hn (hl id e found counter))
        unfold CacheEntry.count
        rw [Option.map_some, none]
        rfl

end Unwritten

theorem Regular.count_nonneg (h : b.Regular queue) (id : String) :
    0 ≤ b.count (CacheKey.retry queue id) := by
  unfold count
  cases found : b.cache.live? b.now (CacheKey.retry queue id) with
  | none => exact Int.le_refl 0
  | some e => exact h.counted id e found

theorem Regular.ask (h : b.Regular queue) {call : CacheCall}
    (written : ∀ id e, call.key = CacheKey.retry queue id →
      (call.effect b.now (b.cache.live? b.now call.key)).2 = some e → 0 ≤ e.count) :
    (b.ask call).2.Regular queue := by
  refine ⟨(b.cache.available_perform b.now call).trans h.available, fun id e he => ?_⟩
  have he : (b.ask call).2.cache.live? b.now (CacheKey.retry queue id) = some e := he
  rw [live?_ask h.available (Nat.le_refl _)] at he
  split at he
  · rename_i hkey
    exact written id e hkey.symm (Option.filter_eq_some_iff.mp he).1
  · exact h.counted id e he

/-- What a look under a key shows is still there after it. -/
theorem ask_get (available : b.cache.available = true) (key : String) :
    b.Unwritten (b.ask (.get key)).2 ∧ (b.ask (.get key)).1 =
      .ok (((b.ask (.get key)).2.cache.live? (b.ask (.get key)).2.now key).map (·.value)) := by
  have unwritten : b.Unwritten (b.ask (.get key)).2 := .ask available fun _ => rfl
  refine ⟨unwritten, ?_⟩
  rw [ask_fst available, unwritten.live key _ (Nat.le_refl _)]
  rfl

/-- The count under a key that a call has just written. -/
theorem count_ask (available : b.cache.available = true) {call : CacheCall} {e : CacheEntry}
    (effect : (call.effect b.now (b.cache.live? b.now call.key)).2 = some e)
    (live : e.isLive b.now = true) : (b.ask call).2.count call.key = e.count := by
  have found : (b.ask call).2.cache.live? b.now call.key = some e := by
    rw [live?_ask available (Nat.le_refl _), if_pos rfl, effect, Option.filter_some, if_pos live]
  unfold count
  rw [show (b.ask call).2.now = b.now from rfl, found]
  rfl

end Bench

/-! ## Decisions -/

namespace DecisionRule

variable {rule : DecisionRule} {queue id : String} {b b' : Bench}

theorem isLive_counter (ttl : rule.retryTtl ≠ some 0) (start : Instant) (count : Nat) :
    (rule.counter start count).isLive start = true := by
  unfold counter
  cases h : rule.retryTtl with
  | none => rfl
  | some t =>
      have positive : 0 < t := Nat.pos_of_ne_zero fun zero => ttl (zero ▸ h)
      exact (Cache.isLive_entry ..).mpr (.inl (Nat.lt_add_of_pos_right positive))

/-- A run keeps the counts regular, and a retry has moved the count of its message. -/
structure Forward (rule : DecisionRule) (queue id : String) (b : Bench) (r : Verdict × Bench) :
    Prop where
  regular : r.2.Regular queue
  counted : r.1 = .retry →
    b.count (CacheKey.retry queue id) < r.2.count (CacheKey.retry queue id) ∧
      r.2.count (CacheKey.retry queue id) ≤ rule.maxRetries.toNat

namespace Forward

theorem of_ne {v : Verdict} (regular : b'.Regular queue) (calm : v ≠ .retry) :
    rule.Forward queue id b (v, b') :=
  ⟨regular, fun retry => absurd retry calm⟩

theorem of_unwritten {r : Verdict × Bench} (h : b.Unwritten b')
    (lasting : b.LastsUntil queue r.2.now) (hn : b'.now ≤ r.2.now)
    (forward : rule.Forward queue id b' r) : rule.Forward queue id b r :=
  ⟨forward.regular, fun retry => h.count_eq lasting hn id ▸ forward.counted retry⟩

/-- A call that has just written a higher count. -/
theorem of_write {call : CacheCall} {e : CacheEntry} (regular : b'.Regular queue)
    (hkey : call.key = CacheKey.retry queue id)
    (effect : (call.effect b'.now (b'.cache.live? b'.now call.key)).2 = some e)
    (live : e.isLive b'.now = true) (nonneg : 0 ≤ e.count)
    (more : b.count (CacheKey.retry queue id) < e.count)
    (bounded : e.count ≤ rule.maxRetries.toNat) (v : Verdict) :
    rule.Forward queue id b (v, (b'.ask call).2) := by
  refine ⟨regular.ask fun id' e' _ he => ?_, fun _ => ?_⟩
  · obtain rfl := Option.some.inj (effect.symm.trans he)
    exact nonneg
  · rw [← hkey] at more ⊢
    rw [Bench.count_ask regular.available effect live]
    exact ⟨more, bounded⟩

end Forward

theorem count_counter (rule : DecisionRule) (start : Instant) {k : Nat}
    (small : k < UInt64.size / 2) : (rule.counter start k).count = k := by
  unfold counter CacheEntry.count Cache.entry
  rw [Text.counter?_repr small]
  rfl

variable (a : Attempt) (pauses : Nat → Duration)

theorem forward_startRetries (ttl : rule.retryTtl ≠ some 0) (hn : 0 < rule.maxRetries.toNat)
    (h : b.Regular queue) (absent : b.cache.live? b.now (CacheKey.retry queue id) = none) :
    rule.Forward queue id b
      ((rule.startRetries (CacheKey.retry queue id)).run (a.surroundings pauses) b) := by
  have zero : b.count (CacheKey.retry queue id) = 0 := by
    unfold Bench.count
    rw [absent]
    rfl
  unfold startRetries
  rw [Decision.run_ask]
  generalize pauses b.journal.length = d
  have waited : (b.wait d).Regular queue := (Bench.Unwritten.wait b d).regular h
  have nothing : (b.wait d).cache.live? (b.wait d).now (CacheKey.retry queue id) = none :=
    Cache.live?_eq_none absent (Nat.le_add_right _ _)
  generalize b.wait d = b₁ at waited nothing
  have stored :
      (b₁.ask (.setIfAbsent (CacheKey.retry queue id) "1" rule.retryTtl)).1 = .ok true := by
    rw [Bench.ask_fst waited.available, CacheCall.key, nothing]
    rfl
  have effect : ((CacheCall.setIfAbsent (CacheKey.retry queue id) "1" rule.retryTtl).effect b₁.now
      (b₁.cache.live? b₁.now (CacheKey.retry queue id))).2 = some (rule.counter b₁.now 1) := by
    rw [nothing]
    rfl
  have one := rule.count_counter b₁.now (k := 1) (by decide)
  rw [stored]
  refine Forward.of_write waited rfl effect (isLive_counter ttl _ _) ?_ ?_ ?_ .retry <;> omega

theorem forward_incrementRetries (h : b.Regular queue) {e : CacheEntry} {c : Int}
    (found : b.cache.live? b.now (CacheKey.retry queue id) = some e)
    (counter : Text.counter? e.value = some c) (hc : c < rule.maxRetries.toNat)
    (lasting : b.LastsUntil queue
      ((incrementRetries (CacheKey.retry queue id)).run (a.surroundings pauses) b).2.now) :
    rule.Forward queue id b
      ((incrementRetries (CacheKey.retry queue id)).run (a.surroundings pauses) b) := by
  have count : b.count (CacheKey.retry queue id) = c := by
    unfold Bench.count CacheEntry.count
    rw [found, Option.map_some, counter]
    rfl
  obtain ⟨k, rfl⟩ := Int.eq_ofNat_of_zero_le (count ▸ h.count_nonneg id)
  -- The bound has 32 bits, so a counter below it has a successor among those of 64.
  have small : k + 1 < UInt64.size / 2 :=
    Nat.lt_of_le_of_lt (Int.ofNat_lt.mp hc) (Nat.lt_trans rule.maxRetries.toNat_lt (by decide))
  have successor : Cache.successor? e.value = some ((k + 1 : Nat) : Int) := by
    unfold Cache.successor?
    rw [counter]
    exact if_pos (Int.ofNat_lt.mpr small)
  unfold incrementRetries at lasting ⊢
  rw [Decision.run_ask] at lasting ⊢
  generalize pauses b.journal.length = d at lasting ⊢
  have waited := Bench.Unwritten.wait b d
  have live : e.isLive (b.wait d).now = true :=
    CacheEntry.isLive_mono
      (Decision.run_later a pauses _ ((b.wait d).ask (.increment (CacheKey.retry queue id))).2).now_le
      (lasting id e found (by rw [counter]; rfl))
  have found := waited.stays found live
  replace waited := waited.regular h
  generalize b.wait d = b₁ at waited live found
  have answer : (b₁.ask (.increment (CacheKey.retry queue id))).1 = .ok ((k + 1 : Nat) : Int) := by
    rw [Bench.ask_fst waited.available, CacheCall.key, found]
    dsimp only [CacheCall.effect]
    rw [successor]
  have effect : ((CacheCall.increment (CacheKey.retry queue id)).effect b₁.now
      (b₁.cache.live? b₁.now (CacheKey.retry queue id))).2 =
        some { e with value := (k + 1).repr } := by
    rw [found]
    dsimp only [CacheCall.effect]
    rw [successor]
    rfl
  have next : CacheEntry.count { e with value := (k + 1).repr } = ((k + 1 : Nat) : Int) := by
    unfold CacheEntry.count
    rw [Text.counter?_repr small]
    rfl
  rw [answer]
  refine Forward.of_write waited rfl effect live ?_ ?_ ?_ .retry <;> omega

theorem forward_afterFailure (ttl : rule.retryTtl ≠ some 0) (h : b.Regular queue)
    (lasting : b.LastsUntil queue
      ((rule.afterFailure queue id).run (a.surroundings pauses) b).2.now) :
    rule.Forward queue id b ((rule.afterFailure queue id).run (a.surroundings pauses) b) := by
  unfold afterFailure at lasting ⊢
  dsimp only at lasting ⊢
  rw [Decision.run_ask] at lasting ⊢
  generalize pauses b.journal.length = d at lasting ⊢
  have available : (b.wait d).cache.available = true := h.available
  obtain ⟨looked, answer⟩ := Bench.ask_get available (CacheKey.retry queue id)
  replace looked := (Bench.Unwritten.wait b d).trans looked
  refine .of_unwritten looked lasting (Decision.run_later a pauses _ _).now_le ?_
  replace lasting := looked.lastsUntil lasting
  replace h := looked.regular h
  rw [answer] at lasting ⊢
  generalize ((b.wait d).ask (.get (CacheKey.retry queue id))).2 = b₁ at lasting h ⊢
  cases found : b₁.cache.live? b₁.now (CacheKey.retry queue id) with
  | none =>
      dsimp only [Option.map_none, Reply.ofExcept]
      by_cases none : rule.maxRetries = 0
      · rw [if_pos none]
        exact .of_ne h nofun
      · rw [if_neg none]
        have some : 0 < rule.maxRetries.toNat :=
          Nat.pos_of_ne_zero fun zero => none (UInt32.toNat_inj.mp zero)
        exact forward_startRetries a pauses ttl some h found
  | some e =>
      rw [found] at lasting
      dsimp only [Option.map_some, Reply.ofExcept] at lasting ⊢
      cases counter : Text.counter? e.value with
      | none => exact .of_ne h nofun
      | some c =>
          rw [counter] at lasting
          dsimp only at lasting ⊢
          by_cases full : (rule.maxRetries.toNat : Int) ≤ c
          · rw [if_pos full]
            exact .of_ne h nofun
          · rw [if_neg full] at lasting ⊢
            exact forward_incrementRetries a pauses h found counter (Int.not_le.mp full) lasting

theorem forward_afterSuccess (h : b.Regular queue) :
    rule.Forward queue id b ((rule.afterSuccess queue id).run (a.surroundings pauses) b) := by
  unfold afterSuccess
  rw [Decision.run_ask]
  generalize pauses b.journal.length = d
  have waited : (b.wait d).Regular queue := (Bench.Unwritten.wait b d).regular h
  have written : ((b.wait d).ask (.set (CacheKey.dedup queue id) id (some rule.dedupTtl))).2.Regular
      queue := by
    refine waited.ask fun id' e hkey he => ?_
    obtain rfl := Option.some.inj he
    have record : Text.counter? id = none :=
      Text.counter?_eq_none (CacheKey.underscore_of_dedup_eq_retry hkey) (by decide) (by decide)
        (by decide)
    unfold CacheEntry.count Cache.entry
    rw [record]
    exact Int.le_refl 0
  cases ((b.wait d).ask (.set (CacheKey.dedup queue id) id (some rule.dedupTtl))).1 <;>
    exact .of_ne written nofun

theorem forward_process (ttl : rule.retryTtl ≠ some 0) (h : b.Regular queue) (payload : Json.Value)
    (lasting : b.LastsUntil queue
      ((rule.process queue id payload).run (a.surroundings pauses) b).2.now) :
    rule.Forward queue id b ((rule.process queue id payload).run (a.surroundings pauses) b) := by
  unfold process at lasting ⊢
  rw [Decision.run_handle] at lasting ⊢
  have noted := Bench.Unwritten.note b ⟨a.delivery, a.handler payload⟩
  refine .of_unwritten noted lasting (Decision.run_later a pauses _ _).now_le ?_
  replace lasting := noted.lastsUntil lasting
  replace h := noted.regular h
  revert lasting h
  generalize b.note ⟨a.delivery, a.handler payload⟩ = b₁
  cases a.handler payload with
  | returned processed =>
      cases processed with
      | true => exact fun _ h => forward_afterSuccess a pauses h
      | false => exact fun lasting h => forward_afterFailure a pauses ttl h lasting
  | failed e => exact fun _ h => .of_ne h nofun
  | crashed => exact fun _ h => .of_ne h nofun

/-- How many retries there may be yet for a message. -/
def left (rule : DecisionRule) (queue : String) (messageId : Option String) (b : Bench) : Nat :=
  messageId.elim 0 fun id => (rule.maxRetries.toNat - b.count (CacheKey.retry queue id)).toNat

theorem left_le (rule : DecisionRule) (h : b.Regular queue) (messageId : Option String) :
    rule.left queue messageId b ≤ rule.maxRetries.toNat := by
  cases messageId with
  | none => exact Nat.zero_le _
  | some id =>
      have nonneg := h.count_nonneg id
      dsimp only [left, Option.elim]
      omega

theorem Forward.left_lt {r : Verdict × Bench} (h : rule.Forward queue id b r) (retry : r.1 = .retry) :
    rule.left queue (some id) r.2 < rule.left queue (some id) b := by
  obtain ⟨more, bounded⟩ := h.counted retry
  dsimp only [left, Option.elim]
  omega

/-- Each decision to retry leaves fewer retries for its message. -/
theorem left_decide (ttl : rule.retryTtl ≠ some 0) (h : b.Regular a.delivery.queue)
    (lasting : b.LastsUntil a.delivery.queue
      ((rule.decide a.delivery).run (a.surroundings pauses) b).2.now) :
    let r := (rule.decide a.delivery).run (a.surroundings pauses) b
    r.2.Regular a.delivery.queue ∧
      (r.1 = .retry → rule.left a.delivery.queue (messageId? a.delivery) r.2 <
        rule.left a.delivery.queue (messageId? a.delivery) b) := by
  revert lasting
  unfold decide
  cases messageId? a.delivery with
  | none => exact fun _ => ⟨h, nofun⟩
  | some id =>
      cases Json.Value.ofPayload? a.delivery.payload with
      | none => exact fun _ => ⟨h, nofun⟩
      | some payload =>
          intro lasting
          suffices forward : rule.Forward a.delivery.queue id b _ from
            ⟨forward.regular, forward.left_lt⟩
          dsimp only at lasting ⊢
          rw [Decision.run_ask] at lasting ⊢
          generalize pauses b.journal.length = d at lasting ⊢
          have available : (b.wait d).cache.available = true := h.available
          have look : (b.wait d).Unwritten
              ((b.wait d).ask (.exists (CacheKey.dedup a.delivery.queue id))).2 :=
            .ask available fun _ => rfl
          have looked := (Bench.Unwritten.wait b d).trans look
          refine .of_unwritten looked lasting (Decision.run_later a pauses _ _).now_le ?_
          replace lasting := looked.lastsUntil lasting
          replace h := looked.regular h
          revert lasting h
          rcases (b.wait d).ask (.exists (CacheKey.dedup a.delivery.queue id)) with ⟨e | known, b₁⟩
          · exact fun _ h => .of_ne h nofun
          · cases known with
            | true => exact fun _ h => .of_ne h nofun
            | false => exact fun lasting h => forward_process a pauses ttl h payload lasting

end DecisionRule

end DurableMessaging
