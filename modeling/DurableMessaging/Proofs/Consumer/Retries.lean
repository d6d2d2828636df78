import DurableMessaging.Proofs.Consumer.Bench
import DurableMessaging.Proofs.Pipeline.Dedup
import Mathlib.Data.List.Induction

/-!
# Retries are bounded

The retry counter of a message is started by the first failure of its handler and goes up by one at
each other one until it reaches its bound. It lives from its start for as long as the rule says, and
nothing but these failures moves it.
-/

namespace DurableMessaging

def Handling.failedFor (x : Handling) (queue messageId : String) : Bool :=
  x.delivery.queue == queue && DecisionRule.messageId? x.delivery == some messageId &&
    x.reply == .returned false

theorem Handling.failedFor_iff {x : Handling} {queue messageId : String} :
    x.failedFor queue messageId = true ↔
      x.delivery.queue = queue ∧ DecisionRule.messageId? x.delivery = some messageId ∧
        x.reply = .returned false := by
  simp only [failedFor, Bool.and_eq_true, beq_iff_eq, and_assoc]

def CallRecord.starts (r : CallRecord) (key : String) : Bool :=
  match r.call with
  | .setIfAbsent k .. => k == key
  | _ => false

namespace Bench

def failures (b : Bench) (queue messageId : String) : Nat :=
  b.handlings.countP (·.failedFor queue messageId)

def counterStart? (b : Bench) (key : String) : Option Instant :=
  (b.journal.find? (·.starts key)).map (·.time)

end Bench

def DecisionRule.counter (rule : DecisionRule) (start : Instant) (count : Nat) : CacheEntry :=
  Cache.entry start count.repr rule.retryTtl

/-- The counter under a key, if it was started, is not past its deadline. -/
def Bench.Unexpired (rule : DecisionRule) (key : String) (b : Bench) : Prop :=
  (b.counterStart? key).all fun start => (rule.counter start 0).isLive b.now

instance (rule : DecisionRule) (key : String) (b : Bench) : Decidable (b.Unexpired rule key) :=
  inferInstanceAs (Decidable (_ = true))

/-- What is known of a retry counter after `k` failures. -/
structure Bench.Tally (rule : DecisionRule) (key : String) (k : Nat) (b : Bench) : Prop where
  available : b.cache.available = true
  idle : min k rule.maxRetries.toNat = 0 →
    b.counterStart? key = none ∧ ∀ later, b.now ≤ later → b.cache.live? later key = none
  running : 0 < min k rule.maxRetries.toNat → ∃ start, b.counterStart? key = some start ∧
    ∀ later, b.now ≤ later → b.cache.live? later key =
      (some (rule.counter start (min k rule.maxRetries.toNat))).filter (·.isLive later)
  counted : ∀ time answer, ⟨time, .increment key, answer⟩ ∈ b.journal → ∃ n, answer = .ok n

namespace Bench

variable {rule : DecisionRule} {key : String} {k : Nat} {b b' : Bench}

theorem counterStart?_append {calls : List CallRecord} (h : b'.journal = b.journal ++ calls) :
    b'.counterStart? key =
      (b.counterStart? key).or ((calls.find? (·.starts key)).map (·.time)) := by
  unfold counterStart?
  rw [h, List.find?_append, Option.map_or]

theorem counterStart?_of_append {calls : List CallRecord} (h : b'.journal = b.journal ++ calls)
    {start : Instant} (hs : b.counterStart? key = some start) : b'.counterStart? key = some start := by
  rw [counterStart?_append h, hs]
  rfl

theorem find?_starts_of_aside {calls : List CallRecord} (h : ∀ r ∈ calls, r.call.key ∉ [key]) :
    calls.find? (·.starts key) = none := by
  rw [List.find?_eq_none]
  intro r hr
  have hne := h r hr
  unfold CallRecord.starts
  cases hc : r.call with
  | setIfAbsent k value ttl =>
      rw [hc] at hne
      simpa [CacheCall.key] using hne
  | _ => exact nofun

theorem Unexpired.isLive (h : b.Unexpired rule key) {start : Instant}
    (hs : b.counterStart? key = some start) (count : Nat) :
    (rule.counter start count).isLive b.now = true := by
  unfold Unexpired at h
  rwa [hs] at h

theorem Unexpired.earlier {keys : List String} (h : b'.Unexpired rule key) (ha : b.Aside keys b') :
    b.Unexpired rule key := by
  obtain ⟨calls, hj, -⟩ := ha.journal
  unfold Unexpired
  cases hs : b.counterStart? key with
  | none => rfl
  | some start =>
      exact CacheEntry.isLive_mono ha.now_le (h.isLive (counterStart?_of_append hj hs) 0)

namespace Tally

theorem start {now : Instant} {c : Cache} (available : c.available = true)
    (absent : c.live? now key = none) : (Bench.start now c).Tally rule key 0 where
  available := available
  idle _ := ⟨rfl, fun _ hn => Cache.live?_eq_none absent hn⟩
  running h := absurd h (by simp)
  counted := nofun

theorem congr {k' : Nat} (h : b.Tally rule key k)
    (hk : min k rule.maxRetries.toNat = min k' rule.maxRetries.toNat) : b.Tally rule key k' where
  available := h.available
  idle := hk ▸ h.idle
  running := hk ▸ h.running
  counted := h.counted

theorem keep (h : b.Tally rule key k) (available : b'.cache.available = b.cache.available)
    (hn : b.now ≤ b'.now)
    (live : ∀ later, b'.now ≤ later → b'.cache.live? later key = b.cache.live? later key)
    {calls : List CallRecord} (hj : b'.journal = b.journal ++ calls)
    (hstart : calls.find? (·.starts key) = none)
    (counted : ∀ time answer, ⟨time, .increment key, answer⟩ ∉ calls) : b'.Tally rule key k := by
  have same : b'.counterStart? key = b.counterStart? key := by
    rw [counterStart?_append hj, hstart]
    exact Option.or_none
  refine ⟨available.trans h.available, fun hk => ?_, fun hk => ?_, fun time answer hm => ?_⟩
  · obtain ⟨hs, hl⟩ := h.idle hk
    exact ⟨same.trans hs, fun later hlater =>
      (live later hlater).trans (hl later (Nat.le_trans hn hlater))⟩
  · obtain ⟨start, hs, hl⟩ := h.running hk
    exact ⟨start, same.trans hs, fun later hlater =>
      (live later hlater).trans (hl later (Nat.le_trans hn hlater))⟩
  · rw [hj, List.mem_append] at hm
    exact hm.elim (h.counted time answer) fun hm => absurd hm (counted time answer)

theorem aside (h : b.Tally rule key k) (ha : b.Aside [key] b') : b'.Tally rule key k := by
  obtain ⟨calls, hj, hc⟩ := ha.journal
  exact h.keep ha.agree.available ha.now_le (ha.agree.live key List.mem_cons_self) hj
    (find?_starts_of_aside hc) fun time answer hm => hc _ hm List.mem_cons_self

theorem look (h : b.Tally rule key k) (d : Duration) :
    ((b.wait d).ask (.get key)).2.Tally rule key k := by
  have available : (b.wait d).cache.available = true := h.available
  refine h.keep (Cache.available_perform _ _ _) (Nat.le_add_right _ _) (fun later hn => ?_) rfl rfl
    fun time answer hm => ?_
  · have hn : (b.wait d).now ≤ later := hn
    rw [live?_ask available hn]
    exact ((b.wait d).cache.live?_same hn key key).symm
  · cases List.mem_singleton.mp hm

theorem look_idle (h : b.Tally rule key k) (hm : min k rule.maxRetries.toNat = 0) (d : Duration) :
    ((b.wait d).ask (.get key)).1 = .ok none := by
  have available : (b.wait d).cache.available = true := h.available
  have absent : (b.wait d).cache.live? (b.wait d).now key = none :=
    (h.idle hm).2 _ (Nat.le_add_right _ _)
  rw [ask_fst available, CacheCall.key, absent]
  rfl

theorem look_running (h : b.Tally rule key k) (hm : 0 < min k rule.maxRetries.toNat) (d : Duration)
    (unexpired : ((b.wait d).ask (.get key)).2.Unexpired rule key) :
    ((b.wait d).ask (.get key)).1 = .ok (some (min k rule.maxRetries.toNat).repr) := by
  have available : (b.wait d).cache.available = true := h.available
  obtain ⟨start, started, live⟩ := h.running hm
  have still : ((b.wait d).ask (.get key)).2.counterStart? key = some start :=
    counterStart?_of_append (b := b) rfl started
  have found : (b.wait d).cache.live? (b.wait d).now key =
      some (rule.counter start (min k rule.maxRetries.toNat)) := by
    refine (live _ (Nat.le_add_right _ _)).trans ?_
    exact if_pos (unexpired.isLive still _)
  rw [ask_fst available, CacheCall.key, found]
  rfl

/-- A call that leaves the next count under the key, and answers if it is an addition. -/
theorem advance (h : b.Tally rule key k) (hn : k < rule.maxRetries.toNat) (d : Duration)
    {call : CacheCall} (hkey : call.key = key) {start : Instant}
    (started : ((b.wait d).ask call).2.counterStart? key = some start)
    (effect : (call.effect (b.wait d).now ((b.wait d).cache.live? (b.wait d).now key)).2 =
      some (rule.counter start (k + 1)))
    (answered : ∀ time answer,
      (⟨time, .increment key, answer⟩ : CallRecord) =
          ⟨(b.wait d).now, call, ((b.wait d).ask call).1⟩ →
        ∃ n, answer = .ok n) :
    ((b.wait d).ask call).2.Tally rule key (k + 1) := by
  have available : (b.wait d).cache.available = true := h.available
  refine ⟨(Cache.available_perform _ _ _).trans available, by omega, fun _ => ?_,
    fun time answer hm => ?_⟩
  · refine ⟨start, started, fun later hlater => ?_⟩
    have hlater : (b.wait d).now ≤ later := hlater
    rw [Nat.min_eq_left hn, live?_ask available hlater, hkey, if_pos rfl, effect]
  · rcases List.mem_append.mp hm with hm | hm
    · exact h.counted time answer hm
    · exact answered time answer (List.mem_singleton.mp hm)

theorem startRetries (h : b.Tally rule key 0) (hn : 0 < rule.maxRetries.toNat) (a : Attempt)
    (pauses : Nat → Duration) :
    let r := (rule.startRetries key).run (a.surroundings pauses) b
    r.1 = .retry ∧ r.2.Tally rule key 1 ∧ r.2.counterStart? key = some r.2.now := by
  obtain ⟨unstarted, absent⟩ := h.idle (Nat.zero_min _)
  unfold DecisionRule.startRetries
  rw [Decision.run_ask]
  generalize hd : pauses b.journal.length = d
  have available : (b.wait d).cache.available = true := h.available
  have nothing : (b.wait d).cache.live? (b.wait d).now key = none :=
    absent _ (Nat.le_add_right _ _)
  have stored : ((b.wait d).ask (.setIfAbsent key "1" rule.retryTtl)).1 = .ok true := by
    rw [ask_fst available, CacheCall.key, nothing]
    rfl
  have started : ((b.wait d).ask (.setIfAbsent key "1" rule.retryTtl)).2.counterStart? key =
      some (b.wait d).now := by
    rw [counterStart?_append (b := b) rfl, unstarted]
    simp [CallRecord.starts]
  rw [stored]
  refine ⟨rfl, h.advance hn d rfl started ?_ nofun, started⟩
  rw [nothing]
  rfl

theorem incrementRetries (h : b.Tally rule key k) (hk : 0 < k) (hn : k < rule.maxRetries.toNat)
    (a : Attempt) (pauses : Nat → Duration)
    (unexpired :
      ((DecisionRule.incrementRetries key).run (a.surroundings pauses) b).2.Unexpired rule key) :
    let r := (DecisionRule.incrementRetries key).run (a.surroundings pauses) b
    r.1 = .retry ∧ r.2.Tally rule key (k + 1) := by
  obtain ⟨start, started, live⟩ := h.running (by omega)
  rw [Nat.min_eq_left (Nat.le_of_lt hn)] at live
  unfold DecisionRule.incrementRetries at unexpired ⊢
  rw [Decision.run_ask] at unexpired ⊢
  generalize hd : pauses b.journal.length = d at unexpired ⊢
  have available : (b.wait d).cache.available = true := h.available
  have still : ((b.wait d).ask (.increment key)).2.counterStart? key = some start :=
    counterStart?_of_append (b := b) rfl started
  -- The bound has 32 bits, so a counter below it has a successor among those of 64.
  have small : k + 1 < UInt64.size / 2 :=
    Nat.lt_of_le_of_lt hn (Nat.lt_trans rule.maxRetries.toNat_lt (by decide))
  have unexpired : ((b.wait d).ask (.increment key)).2.Unexpired rule key := by
    cases hr : ((b.wait d).ask (.increment key)).1 <;> rw [hr] at unexpired <;> exact unexpired
  have found : (b.wait d).cache.live? (b.wait d).now key = some (rule.counter start k) := by
    refine (live _ (Nat.le_add_right _ _)).trans ?_
    exact if_pos (unexpired.isLive still k)
  have effect : (CacheCall.increment key).effect (b.wait d).now (some (rule.counter start k)) =
      (.ok ((k : Int) + 1), some (rule.counter start (k + 1))) := by
    dsimp only [CacheCall.effect, DecisionRule.counter, Cache.entry]
    rw [Cache.successor?_repr small]
    rfl
  have counted : ((b.wait d).ask (.increment key)).1 = .ok ((k : Int) + 1) := by
    rw [ask_fst available, CacheCall.key, found, effect]
  rw [counted]
  refine ⟨rfl, h.advance hn d rfl still ?_ ?_⟩
  · rw [found, effect]
  · rintro _ _ ⟨⟩
    exact ⟨_, counted⟩

/-- A failure is counted if there may be another retry. -/
theorem afterFailure {queue id : String} (h : b.Tally rule (CacheKey.retry queue id) k)
    (a : Attempt) (pauses : Nat → Duration)
    (unexpired : ((rule.afterFailure queue id).run (a.surroundings pauses) b).2.Unexpired rule
      (CacheKey.retry queue id)) :
    let r := (rule.afterFailure queue id).run (a.surroundings pauses) b
    r.1 = (if k + 1 ≤ rule.maxRetries.toNat then .retry else .reject) ∧
      r.2.Tally rule (CacheKey.retry queue id) (k + 1) ∧
      (k = 0 → 0 < rule.maxRetries.toNat →
        r.2.counterStart? (CacheKey.retry queue id) = some r.2.now) := by
  generalize hkey : CacheKey.retry queue id = key at h unexpired ⊢
  unfold DecisionRule.afterFailure at unexpired ⊢
  rw [hkey] at unexpired ⊢
  dsimp only at unexpired ⊢
  rw [Decision.run_ask] at unexpired ⊢
  generalize pauses b.journal.length = d at unexpired ⊢
  have looked := h.look d
  rcases Nat.eq_zero_or_pos (min k rule.maxRetries.toNat) with hm | hm
  · rw [h.look_idle hm d] at unexpired ⊢
    dsimp only [Reply.ofExcept] at unexpired ⊢
    by_cases hn : rule.maxRetries = 0
    · have hn' : rule.maxRetries.toNat = 0 := congrArg UInt32.toNat hn
      rw [if_pos hn, if_neg (by omega)]
      exact ⟨rfl, looked.congr (by omega), by omega⟩
    · have hn' : 0 < rule.maxRetries.toNat :=
        Nat.pos_of_ne_zero fun h0 => hn (UInt32.toNat_inj.mp h0)
      obtain rfl : k = 0 := by omega
      rw [if_neg hn, if_pos (by omega)]
      obtain ⟨hr, tally, started⟩ := looked.startRetries hn' a pauses
      exact ⟨hr, tally, fun _ _ => started⟩
  · have small : min k rule.maxRetries.toNat < UInt64.size / 2 :=
      Nat.lt_of_le_of_lt (Nat.min_le_right _ _) (Nat.lt_trans rule.maxRetries.toNat_lt (by decide))
    have unexpired' := unexpired.earlier (Decision.run_later a pauses _ _)
    rw [h.look_running hm d unexpired'] at unexpired ⊢
    dsimp only [Reply.ofExcept] at unexpired ⊢
    rw [Text.counter?_repr small] at unexpired ⊢
    dsimp only at unexpired ⊢
    by_cases hn : rule.maxRetries.toNat ≤ k
    · rw [if_pos (by omega), if_neg (by omega)]
      exact ⟨rfl, looked.congr (by omega), by omega⟩
    · rw [if_neg (by omega)] at unexpired ⊢
      rw [if_pos (by omega)]
      obtain ⟨hr, tally⟩ := looked.incrementRetries (by omega) (by omega) a pauses unexpired
      exact ⟨hr, tally, by omega⟩

end Tally

end Bench

/-! ## Decisions about any message -/

theorem CacheKey.retry_ne_dedup (queue id : String) : retry queue id ≠ dedup queue id := by
  intro h
  have := congrArg String.length h
  simp only [retry, dedup, String.length_append] at this
  have : "retry_".length = 6 := rfl
  omega

namespace Bench

theorem failures_append {b b' : Bench} {new : List Handling} (h : b'.handlings = b.handlings ++ new)
    (queue id : String) :
    b'.failures queue id = b.failures queue id + new.countP (·.failedFor queue id) := by
  unfold failures
  rw [h, List.countP_append]

theorem failures_note (b : Bench) (x : Handling) (queue id : String) :
    (b.note x).failures queue id =
      b.failures queue id + if x.failedFor queue id then 1 else 0 := by
  rw [failures_append rfl, List.countP_singleton]

theorem failures_note_of_ne (b : Bench) {x : Handling} (h : x.reply ≠ .returned false)
    (queue id : String) : (b.note x).failures queue id = b.failures queue id := by
  rw [failures_note, if_neg fun hx => h (Handling.failedFor_iff.mp hx).2.2]
  rfl

end Bench

theorem Decision.Quiet.handlings_run {p : Decision} (hp : p.Quiet) (a : Attempt)
    (pauses : Nat → Duration) (b : Bench) : (p.run (a.surroundings pauses) b).2.handlings = b.handlings := by
  induction p generalizing b with
  | done v => rfl
  | ask call next ih => exact ih _ (hp.2 _) ((b.wait (pauses b.journal.length)).ask call).2
  | handle payload next ih => exact hp.elim

namespace DecisionRule

variable (rule : DecisionRule) (a : Attempt) (pauses : Nat → Duration) (b : Bench)

/-- Whether a bench has come from another without a failure of a message. -/
def Passes (queue id : String) (b b' : Bench) : Prop :=
  b.Aside [CacheKey.retry queue id] b' ∧ b'.failures queue id = b.failures queue id

theorem passes_of_ne {queue id : String}
    (hne : (a.delivery.queue, messageId? a.delivery) ≠ (queue, some id))
    (apart : CacheKey.retry queue id ∉ keys a.delivery) :
    Passes queue id b ((rule.decide a.delivery).run (a.surroundings pauses) b).2 := by
  constructor
  · refine Decision.run_aside a pauses ((rule.asks_decide a.delivery).mono fun call h => ?_) b
    rw [List.mem_singleton]
    exact fun hkey => apart (hkey ▸ h.1)
  · obtain ⟨new, hnew, hd⟩ := (rule.decide a.delivery).run_handlings a pauses b
    rw [Bench.failures_append hnew, List.countP_eq_zero.mpr, Nat.add_zero]
    intro x hx hf
    obtain ⟨hq, hid, -⟩ := Handling.failedFor_iff.mp hf
    rw [hd x hx] at hq hid
    exact hne (by rw [hq, hid])

theorem passes_afterSuccess (queue id : String) :
    Passes queue id b ((rule.afterSuccess queue id).run (a.surroundings pauses) b).2 := by
  constructor
  · refine Decision.run_aside a pauses ((rule.asks_afterSuccess queue id).mono fun call h => ?_) b
    rw [List.mem_singleton, h.1]
    exact (CacheKey.retry_ne_dedup queue id).symm
  · unfold afterSuccess Bench.failures
    rw [Decision.run_ask]
    split <;> rfl

theorem passes_note {x : Handling} (h : x.reply ≠ .returned false) (queue id : String) :
    Passes queue id b (b.note x) :=
  ⟨.note _ b x, b.failures_note_of_ne h queue id⟩

theorem Passes.trans {queue id : String} {b b' b'' : Bench} (h : Passes queue id b b')
    (h' : Passes queue id b' b'') : Passes queue id b b'' :=
  ⟨h.1.trans h'.1, h'.2.trans h.2⟩

/-- Whether a bench has come to count a failure of a message, and nothing else about it. -/
def Fails (queue id : String) (b : Bench) (r : Verdict × Bench) : Prop :=
  ∃ b', b.Aside [CacheKey.retry queue id] b' ∧
    r = (rule.afterFailure queue id).run (a.surroundings pauses) b' ∧
    r.2.failures queue id = b.failures queue id + 1

theorem process_cases {id : String} (hid : messageId? a.delivery = some id) (payload : Json.Value) :
    let r := (rule.process a.delivery.queue id payload).run (a.surroundings pauses) b
    Passes a.delivery.queue id b r.2 ∨ rule.Fails a pauses a.delivery.queue id b r := by
  unfold process
  rw [Decision.run_handle]
  cases a.handler payload with
  | returned processed =>
      cases processed with
      | true =>
          have noted := passes_note b (x := ⟨a.delivery, .returned true⟩) nofun a.delivery.queue id
          exact .inl (noted.trans (rule.passes_afterSuccess a pauses _ _ _))
      | false =>
          refine .inr ⟨b.note ⟨a.delivery, .returned false⟩, .note _ b _, rfl, ?_⟩
          have quiet := (rule.quiet_afterFailure a.delivery.queue id).handlings_run a pauses
            (b.note ⟨a.delivery, .returned false⟩)
          have failed : Handling.failedFor ⟨a.delivery, .returned false⟩ a.delivery.queue id = true :=
            Handling.failedFor_iff.mpr ⟨rfl, hid, rfl⟩
          refine (Bench.failures_append (quiet.trans (List.append_nil _).symm) _ _).trans ?_
          rw [Bench.failures_note, if_pos failed]
          rfl
  | failed e => exact .inl (passes_note b (x := ⟨a.delivery, .failed e⟩) nofun _ _)
  | crashed => exact .inl (passes_note b (x := ⟨a.delivery, .crashed⟩) nofun _ _)

/-- A decision passes a message by, or comes to count a failure of it. -/
theorem decide_cases {queue id : String}
    (apart : (a.delivery.queue, messageId? a.delivery) ≠ (queue, some id) →
      CacheKey.retry queue id ∉ keys a.delivery) :
    let r := (rule.decide a.delivery).run (a.surroundings pauses) b
    Passes queue id b r.2 ∨ rule.Fails a pauses queue id b r := by
  by_cases hpair : (a.delivery.queue, messageId? a.delivery) = (queue, some id)
  · obtain ⟨rfl, hid⟩ := Prod.mk.inj hpair
    unfold decide
    rw [hid]
    cases Json.Value.ofPayload? a.delivery.payload with
    | none => exact .inl ⟨.refl _ b, rfl⟩
    | some payload =>
        dsimp only
        rw [Decision.run_ask]
        have looked : Passes a.delivery.queue id b ((b.wait (pauses b.journal.length)).ask
            (.exists (CacheKey.dedup a.delivery.queue id))).2 := by
          refine ⟨.ask b _ ?_, rfl⟩
          rw [List.mem_singleton]
          exact (CacheKey.retry_ne_dedup a.delivery.queue id).symm
        revert looked
        rcases (b.wait (pauses b.journal.length)).ask (.exists (CacheKey.dedup a.delivery.queue id))
          with ⟨e | known, b₁⟩
        · exact .inl
        · intro looked
          cases known with
          | true => exact .inl looked
          | false =>
              rcases rule.process_cases a pauses b₁ hid payload with h | ⟨b', aside, hr, hf⟩
              · exact .inl (looked.trans h)
              · exact .inr ⟨b', looked.1.trans aside, hr, hf.trans (congrArg (· + 1) looked.2)⟩
  · exact .inl (rule.passes_of_ne a pauses b hpair (apart hpair))

end DecisionRule

namespace Bench.Tally

variable {rule : DecisionRule} {queue id : String} {b : Bench}

theorem decide (h : b.Tally rule (CacheKey.retry queue id) (b.failures queue id)) (a : Attempt)
    (pauses : Nat → Duration)
    (apart : (a.delivery.queue, DecisionRule.messageId? a.delivery) ≠ (queue, some id) →
      CacheKey.retry queue id ∉ DecisionRule.keys a.delivery)
    (unexpired : ((rule.decide a.delivery).run (a.surroundings pauses) b).2.Unexpired rule
      (CacheKey.retry queue id)) :
    let r := (rule.decide a.delivery).run (a.surroundings pauses) b
    r.2.Tally rule (CacheKey.retry queue id) (r.2.failures queue id) ∧
      (r.2.failures queue id = b.failures queue id + 1 →
        r.1 = (if r.2.failures queue id ≤ rule.maxRetries.toNat then .retry else .reject) ∧
        (b.failures queue id = 0 → 0 < rule.maxRetries.toNat →
          r.2.counterStart? (CacheKey.retry queue id) = some r.2.now)) := by
  intro r
  rcases rule.decide_cases a pauses b apart with ⟨aside, hf⟩ | ⟨b', aside, hr, hf⟩
  · have hf : r.2.failures queue id = b.failures queue id := hf
    rw [hf]
    exact ⟨h.aside aside, fun hne => by omega⟩
  · have hr : r = (rule.afterFailure queue id).run (a.surroundings pauses) b' := hr
    have hf : r.2.failures queue id = b.failures queue id + 1 := hf
    obtain ⟨verdict, tally, started⟩ := (h.aside aside).afterFailure a pauses (hr ▸ unexpired)
    rw [hf, hr]
    exact ⟨tally, fun _ => ⟨verdict, started⟩⟩

end Bench.Tally

namespace Engine

theorem decideAll_concat (pauses : Nat → Duration) (attempts : List Attempt) (a : Attempt)
    (s : Engine × Bench) :
    decideAll pauses (attempts ++ [a]) s =
      ((decideAll pauses attempts s).1.decide (a.surroundings pauses) a.delivery
        (decideAll pauses attempts s).2).2 :=
  List.foldl_concat ..

theorem tally_decideAll {rule : DecisionRule} {queue id : String} {s : Engine × Bench}
    (hrule : s.1.rule = rule)
    (h : s.2.Tally rule (CacheKey.retry queue id) (s.2.failures queue id)) (pauses : Nat → Duration)
    (attempts : List Attempt)
    (apart : ∀ a ∈ attempts,
      (a.delivery.queue, DecisionRule.messageId? a.delivery) ≠ (queue, some id) →
        CacheKey.retry queue id ∉ DecisionRule.keys a.delivery)
    (unexpired : (decideAll pauses attempts s).2.Unexpired rule (CacheKey.retry queue id)) :
    (decideAll pauses attempts s).2.Tally rule (CacheKey.retry queue id)
      ((decideAll pauses attempts s).2.failures queue id) := by
  induction attempts using List.reverseRecOn with
  | nil => exact h
  | append_singleton attempts a ih =>
      rw [decideAll_concat] at unexpired ⊢
      have same := (rule_decideAll pauses attempts s).trans hrule
      generalize decideAll pauses attempts s = s' at ih unexpired same ⊢
      subst same
      have before := ih (fun x hx => apart x (List.mem_append_left _ hx))
        (unexpired.earlier (Decision.run_later a pauses _ _))
      exact (before.decide a pauses (apart a (List.mem_append_right _ List.mem_cons_self))
        unexpired).1

/-- While the retry counter of a message is not past its deadline, the `k`-th failure of its handler
leads to a retry just if `k` is within the bound. The counter then stands at `k`, or at the bound if
that is less, under the deadline it got when it was started by the first failure; nothing else moves
it, and adding to it does not fail. -/
theorem retries_within_bound (e : Engine) (pauses : Nat → Duration) (now : Instant) (c : Cache)
    (queue id : String) (available : c.available = true)
    (absent : c.live? now (CacheKey.retry queue id) = none) (earlier : List Attempt) (a : Attempt)
    (apart : ∀ x ∈ earlier ++ [a],
      (x.delivery.queue, DecisionRule.messageId? x.delivery) ≠ (queue, some id) →
        CacheKey.retry queue id ∉ DecisionRule.keys x.delivery) :
    let key := CacheKey.retry queue id
    let n := e.rule.maxRetries.toNat
    let before := decideAll pauses earlier (e, .start now c)
    let r := before.1.decide (a.surroundings pauses) a.delivery before.2
    let after := r.2.2
    let k := after.failures queue id
    after.Unexpired e.rule key →
      (k = before.2.failures queue id + 1 → r.1 = if k ≤ n then .retry else .reject) ∧
      (k = before.2.failures queue id + 1 → k = 1 → 0 < n →
        after.counterStart? key = some after.now) ∧
      (∀ start, before.2.counterStart? key = some start → after.counterStart? key = some start) ∧
      (min k n = 0 → ∀ later, after.now ≤ later → after.cache.live? later key = none) ∧
      (0 < min k n → ∃ start, after.counterStart? key = some start ∧
        ∀ later, after.now ≤ later → after.cache.live? later key =
          (some (Cache.entry start (min k n).repr e.rule.retryTtl)).filter (·.isLive later)) ∧
      ∀ time answer, ⟨time, .increment key, answer⟩ ∈ after.journal → ∃ count, answer = .ok count := by
  intro key n before r after k unexpired
  have same : before.1.rule = e.rule := rule_decideAll pauses earlier _
  have later : before.2.Aside [] after := Decision.run_later a pauses _ _
  have tally : before.2.Tally e.rule key (before.2.failures queue id) :=
    tally_decideAll (s := (e, .start now c)) rfl (.start available absent) pauses earlier
      (fun x hx => apart x (List.mem_append_left _ hx)) (unexpired.earlier later)
  have hr : r = (((e.rule.decide a.delivery).run (a.surroundings pauses) before.2).1.action, r.2.1,
      ((e.rule.decide a.delivery).run (a.surroundings pauses) before.2).2) := by
    rw [← same]
    rfl
  have hafter : after = ((e.rule.decide a.delivery).run (a.surroundings pauses) before.2).2 :=
    congrArg (·.2.2) hr
  obtain ⟨tally', failed⟩ := tally.decide a pauses
    (apart a (List.mem_append_right _ List.mem_cons_self)) (hafter ▸ unexpired)
  rw [← hafter] at tally' failed
  obtain ⟨calls, hj, -⟩ := later.journal
  refine ⟨fun hk => ?_, fun hk h1 hn => (failed hk).2 (by omega) hn,
    fun start => Bench.counterStart?_of_append hj, fun hm => (tally'.idle hm).2, tally'.running,
    tally'.counted⟩
  have verdict : r.1 = Verdict.action _ := congrArg (·.1) hr
  rw [verdict, (failed hk).1]
  split <;> rfl

/-- The fourth failure rejects a message, whatever was decided in between. -/
theorem rejects_fourth_failure :
    let attempt (id : String) (reply : Reply HandlerError Bool) : Attempt :=
      ⟨⟨1, "orders", "", "", some id, "1".toUTF8, false⟩, fun _ => reply⟩
    let failing := attempt "abc" (.returned false)
    let earlier := [failing, attempt "xyz" (.returned true), failing, attempt "abc" .crashed, failing]
    let pauses (_ : Nat) := Duration.second
    let before := decideAll pauses earlier (.standard, .start 0 .empty)
    (∀ x ∈ earlier ++ [failing],
      (x.delivery.queue, DecisionRule.messageId? x.delivery) ≠ ("orders", some "abc") →
        CacheKey.retry "orders" "abc" ∉ DecisionRule.keys x.delivery) ∧
      (before.1.decide (failing.surroundings pauses) failing.delivery before.2).1 = .reject := by
  intro attempt failing earlier pauses before
  have apart : ∀ x ∈ earlier ++ [failing],
      (x.delivery.queue, DecisionRule.messageId? x.delivery) ≠ ("orders", some "abc") →
        CacheKey.retry "orders" "abc" ∉ DecisionRule.keys x.delivery := by decide +kernel
  have bounded := retries_within_bound .standard pauses 0 .empty "orders" "abc" rfl rfl earlier failing
    apart (by decide +kernel)
  refine ⟨apart, (bounded.1 (by decide +kernel)).trans ?_⟩
  decide +kernel

end Engine

end DurableMessaging
