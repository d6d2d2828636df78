import DurableMessaging.Proofs.Consumer.Retries

/-!
# A retry counter between calls

A decision about a failed delivery looks at the retry counter in one call and moves it in another.
The counter stands at the number of the calls that have moved it, whatever came in between.
-/

namespace DurableMessaging

/-- Whether a call has moved the counter under a key. -/
def CallRecord.moves (key : String) : CallRecord → Bool
  | ⟨_, .setIfAbsent k _ _, .ok stored⟩ => k == key && stored
  | ⟨_, .increment k, .ok _⟩ => k == key
  | _ => false

theorem CallRecord.moves_of_ne {key : String} {r : CallRecord} (h : r.call.key ≠ key) :
    r.moves key = false := by
  unfold moves
  split
  · exact Bool.and_eq_false_iff.mpr (.inl (beq_eq_false_iff_ne.mpr h))
  · exact beq_eq_false_iff_ne.mpr h
  · rfl

namespace Bench

/-- How often the counter under a key was moved. -/
def moved (b : Bench) (key : String) : Nat := b.journal.countP (·.moves key)

/-- The counter that is found under a key, zero if there is none. -/
def counter? (b : Bench) (key : String) : Option Int :=
  match b.cache.live? b.now key with
  | none => some 0
  | some e => Text.counter? e.value

/-- The counter under a key stands at the number of times it was moved. -/
structure Stands (rule : DecisionRule) (key : String) (b : Bench) : Prop where
  available : b.cache.available = true
  absent : b.moved key = 0 →
    b.counterStart? key = none ∧ ∀ later, b.now ≤ later → b.cache.live? later key = none
  present : 0 < b.moved key → ∃ start, b.counterStart? key = some start ∧
    ∀ later, b.now ≤ later → b.cache.live? later key =
      (some (rule.counter start (b.moved key))).filter (·.isLive later)
  small : b.moved key < UInt64.size / 2

variable {rule : DecisionRule} {key : String} {b b' : Bench}

theorem moved_append {calls : List CallRecord} (h : b'.journal = b.journal ++ calls) :
    b'.moved key = b.moved key + calls.countP (·.moves key) := by
  unfold moved
  rw [h, List.countP_append]

theorem moved_ask (b : Bench) (call : CacheCall) (key : String) :
    (b.ask call).2.moved key =
      b.moved key + if CallRecord.moves key ⟨b.now, call, (b.ask call).1⟩ then 1 else 0 := by
  have hj : (b.ask call).2.journal = b.journal ++ [⟨b.now, call, (b.ask call).1⟩] := rfl
  rw [moved_append hj, List.countP_singleton]

namespace Stands

theorem start {now : Instant} {c : Cache} (available : c.available = true)
    (absent : c.live? now key = none) : (Bench.start now c).Stands rule key where
  available := available
  absent _ := ⟨rfl, fun _ hn => Cache.live?_eq_none absent hn⟩
  present h := absurd h (by simp [moved, Bench.start])
  small := by simp [moved, Bench.start, UInt64.size]

/-- What does not move the counter leaves it standing. -/
theorem keep (h : b.Stands rule key) (available : b'.cache.available = b.cache.available)
    (hn : b.now ≤ b'.now)
    (live : ∀ later, b'.now ≤ later → b'.cache.live? later key = b.cache.live? later key)
    (moved : b'.moved key = b.moved key)
    (started : b'.counterStart? key = b.counterStart? key) : b'.Stands rule key := by
  refine ⟨available.trans h.available, fun hm => ?_, fun hm => ?_, moved ▸ h.small⟩
  · obtain ⟨hs, hl⟩ := h.absent (moved ▸ hm)
    exact ⟨started.trans hs, fun later ht => (live later ht).trans (hl later (Nat.le_trans hn ht))⟩
  · obtain ⟨start, hs, hl⟩ := h.present (moved ▸ hm)
    refine ⟨start, started.trans hs, fun later ht => ?_⟩
    rw [live later ht, hl later (Nat.le_trans hn ht), moved]

theorem aside (h : b.Stands rule key) (ha : b.Aside [key] b') :
    b'.Stands rule key ∧ b'.moved key = b.moved key := by
  obtain ⟨calls, hj, hc⟩ := ha.journal
  have unmoved : b'.moved key = b.moved key := by
    rw [moved_append hj, List.countP_eq_zero.mpr, Nat.add_zero]
    intro r hr
    rw [CallRecord.moves_of_ne fun hk => hc r hr (hk ▸ List.mem_cons_self)]
    exact Bool.false_ne_true
  refine ⟨h.keep ha.agree.available ha.now_le (ha.agree.live key List.mem_cons_self) unmoved ?_,
    unmoved⟩
  rw [counterStart?_append hj, find?_starts_of_aside hc]
  exact Option.or_none

/-! ## The calls on a counter -/

theorem found (h : b.Stands rule key) (hm : 0 < b.moved key) (unexpired : b.Unexpired rule key) :
    ∃ start, b.counterStart? key = some start ∧
      b.cache.live? b.now key = some (rule.counter start (b.moved key)) := by
  obtain ⟨start, started, live⟩ := h.present hm
  exact ⟨start, started, (live _ (Nat.le_refl _)).trans (if_pos (unexpired.isLive started _))⟩

theorem counter?_eq (h : b.Stands rule key) (unexpired : b.Unexpired rule key) :
    b.counter? key = some (b.moved key : Int) := by
  unfold counter?
  rcases Nat.eq_zero_or_pos (b.moved key) with hm | hm
  · rw [(h.absent hm).2 _ (Nat.le_refl _), hm]
    rfl
  · obtain ⟨start, -, live⟩ := h.found hm unexpired
    rw [live]
    exact Text.counter?_repr h.small

/-- A call that leaves what is under the key, and starts no counter. -/
theorem look (h : b.Stands rule key) (call : CacheCall) (hkey : call.key = key)
    (effect : (call.effect b.now (b.cache.live? b.now key)).2 = b.cache.live? b.now key)
    (unmoved : CallRecord.moves key ⟨b.now, call, (b.ask call).1⟩ = false)
    (started : (b.ask call).2.counterStart? key = b.counterStart? key) :
    (b.ask call).2.Stands rule key ∧ (b.ask call).2.moved key = b.moved key := by
  have same : (b.ask call).2.moved key = b.moved key := by
    rw [moved_ask, unmoved]
    rfl
  refine ⟨h.keep (Cache.available_perform _ _ _) (Nat.le_refl _) (fun later hn => ?_) same started,
    same⟩
  have hn : b.now ≤ later := hn
  rw [live?_ask h.available hn, hkey, if_pos rfl, effect]
  exact ((b.cache.live?_same hn key key).trans (if_pos rfl)).symm

/-- A call that leaves the next count under the key. -/
theorem advance (h : b.Stands rule key) (call : CacheCall) (start : Instant) (hkey : call.key = key)
    (effect : (call.effect b.now (b.cache.live? b.now key)).2 =
      some (rule.counter start (b.moved key + 1)))
    (move : CallRecord.moves key ⟨b.now, call, (b.ask call).1⟩ = true)
    (started : (b.ask call).2.counterStart? key = some start)
    (small : b.moved key + 1 < UInt64.size / 2) :
    (b.ask call).2.Stands rule key ∧ (b.ask call).2.moved key = b.moved key + 1 := by
  have next : (b.ask call).2.moved key = b.moved key + 1 := by
    rw [moved_ask, move]
    rfl
  refine ⟨⟨(Cache.available_perform _ _ _).trans h.available, fun hm => ?_, fun _ => ?_,
    next ▸ small⟩, next⟩
  · omega
  · refine ⟨start, started, fun later hn => ?_⟩
    have hn : b.now ≤ later := hn
    rw [live?_ask h.available hn, hkey, if_pos rfl, effect, next]

theorem get (h : b.Stands rule key) (unexpired : b.Unexpired rule key) :
    ((b.ask (.get key)).2.Stands rule key ∧ (b.ask (.get key)).2.moved key = b.moved key) ∧
      ((b.moved key = 0 ∧ (b.ask (.get key)).1 = .ok none) ∨
        (0 < b.moved key ∧ (b.ask (.get key)).1 = .ok (some (b.moved key).repr))) := by
  refine ⟨h.look (.get key) rfl rfl rfl ?_, ?_⟩
  · rw [counterStart?_append (b := b) rfl]
    exact Option.or_none
  rcases Nat.eq_zero_or_pos (b.moved key) with hm | hm
  · have absent := (h.absent hm).2 _ (Nat.le_refl _)
    refine .inl ⟨hm, ?_⟩
    rw [ask_fst h.available, CacheCall.key, absent]
    rfl
  · obtain ⟨start, -, live⟩ := h.found hm unexpired
    refine .inr ⟨hm, ?_⟩
    rw [ask_fst h.available, CacheCall.key, live]
    rfl

/-- Whoever finds a counter absent starts it; whoever comes second changes nothing. -/
theorem setIfAbsent (h : b.Stands rule key) (unexpired : b.Unexpired rule key) :
    let r := b.ask (.setIfAbsent key "1" rule.retryTtl)
    r.2.Stands rule key ∧
      ((r.1 = .ok true ∧ r.2.moved key = b.moved key + 1) ∨
        (r.1 = .ok false ∧ 0 < b.moved key ∧ r.2.moved key = b.moved key)) := by
  intro r
  rcases Nat.eq_zero_or_pos (b.moved key) with hm | hm
  · obtain ⟨unstarted, absent⟩ := h.absent hm
    have stored : r.1 = .ok true := by
      dsimp only [r]
      rw [ask_fst h.available, CacheCall.key, absent _ (Nat.le_refl _)]
      rfl
    have started : r.2.counterStart? key = some b.now := by
      dsimp only [r]
      rw [counterStart?_append (b := b) rfl, unstarted]
      simp [CallRecord.starts]
    have move : CallRecord.moves key ⟨b.now, .setIfAbsent key "1" rule.retryTtl, r.1⟩ = true := by
      rw [stored]
      exact Bool.and_eq_true_iff.mpr ⟨beq_self_eq_true _, rfl⟩
    obtain ⟨stands, next⟩ := h.advance (.setIfAbsent key "1" rule.retryTtl) b.now rfl
      (by rw [absent _ (Nat.le_refl _), hm]; rfl) move started (by rw [hm]; decide)
    exact ⟨stands, .inl ⟨stored, next⟩⟩
  · obtain ⟨start, started, live⟩ := h.found hm unexpired
    have stored : r.1 = .ok false := by
      dsimp only [r]
      rw [ask_fst h.available, CacheCall.key, live]
      rfl
    have move : CallRecord.moves key ⟨b.now, .setIfAbsent key "1" rule.retryTtl, r.1⟩ = false := by
      rw [stored]
      exact Bool.and_false _
    have still : r.2.counterStart? key = b.counterStart? key :=
      (counterStart?_of_append (b := b) rfl started).trans started.symm
    obtain ⟨stands, same⟩ := h.look (.setIfAbsent key "1" rule.retryTtl) rfl
      (by rw [live]; rfl) move still
    exact ⟨stands, .inr ⟨stored, hm, same⟩⟩

/-- An addition to a counter that was started moves it, unless it is refused. -/
theorem increment (h : b.Stands rule key) (hm : 0 < b.moved key) (unexpired : b.Unexpired rule key)
    (fine : (b.ask (.increment key)).1.isOk = true) :
    let r := b.ask (.increment key)
    r.2.Stands rule key ∧ r.2.moved key = b.moved key + 1 ∧ ∃ count, r.1 = .ok count := by
  intro r
  obtain ⟨start, started, live⟩ := h.found hm unexpired
  have answer : r.1 = ((CacheCall.increment key).effect b.now
      (some (rule.counter start (b.moved key)))).1 := by
    dsimp only [r]
    rw [ask_fst h.available, CacheCall.key, live]
  by_cases small : b.moved key + 1 < UInt64.size / 2
  · have effect : (CacheCall.increment key).effect b.now (some (rule.counter start (b.moved key))) =
        (.ok ((b.moved key : Int) + 1), some (rule.counter start (b.moved key + 1))) := by
      dsimp only [CacheCall.effect, DecisionRule.counter, Cache.entry]
      rw [Cache.successor?_repr small]
      rfl
    rw [effect] at answer
    have move : CallRecord.moves key ⟨b.now, .increment key, r.1⟩ = true := by
      rw [answer]
      exact beq_self_eq_true _
    obtain ⟨stands, next⟩ := h.advance (.increment key) start rfl (by rw [live, effect]) move
      (counterStart?_of_append (b := b) rfl started) small
    exact ⟨stands, next, _, answer⟩
  · -- the count has no successor among the integers of 64 bits, so the call was refused
    have full : Cache.successor? (b.moved key).repr = none := by
      unfold Cache.successor?
      rw [Text.counter?_repr h.small]
      exact if_neg fun hlt => small (Int.ofNat_lt.mp hlt)
    have refused : r.1 = .error (.notAnInteger key) := by
      rw [answer]
      dsimp only [CacheCall.effect, DecisionRule.counter, Cache.entry]
      rw [full]
    rw [show (b.ask (.increment key)).1 = _ from refused] at fine
    cases fine

end Stands

end Bench

/-! ## Decisions under way -/

namespace Decision

/-- Whether the next call may move the counter under a key. -/
def moves (key : String) : Decision → Bool
  | .ask (.setIfAbsent k _ _) _ => k == key
  | .ask (.increment k) _ => k == key
  | _ => false

/-- Whether the next call reads the counter under a key. -/
def reads (key : String) : Decision → Bool
  | .ask (.get k) _ => k == key
  | _ => false

def isRetry : Decision → Bool
  | .done .retry => true
  | _ => false

/-- What is left of a decision after its next call, and the bench then. -/
def turn (d : Delivery) (reply : Reply HandlerError Bool) (b : Bench) : Decision → Decision × Bench
  | .done v => (.done v, b)
  | .ask call next => (next (.ofExcept (b.ask call).1), (b.ask call).2)
  | .handle _ next => (next reply, b.note ⟨d, reply⟩)

theorem turn_aside {keys : List String} (d : Delivery) (reply : Reply HandlerError Bool) (b : Bench)
    {p : Decision} (hp : p.Asks fun call => call.key ∉ keys) : b.Aside keys (p.turn d reply b).2 := by
  cases p with
  | done v => exact .refl _ b
  | ask call next => exact .ask b 0 hp.1
  | handle payload next => exact .note _ b _

theorem turn_later (p : Decision) (d : Delivery) (reply : Reply HandlerError Bool) (b : Bench) :
    b.Aside [] (p.turn d reply b).2 := by
  cases p with
  | done v => exact .refl _ b
  | ask call next => exact .ask b 0 List.not_mem_nil
  | handle payload next => exact .note _ b _

end Decision

namespace DecisionRule

/-- What may be left of a decision about a message whose counter was moved `k` times. -/
inductive Stage (rule : DecisionRule) (queue id : String) (k : Nat) : Decision → Prop
  | check {d : Delivery} : d.queue = queue → messageId? d = some id →
      Stage rule queue id k (rule.decide d)
  | handle (payload : Json.Value) : Stage rule queue id k (rule.process queue id payload)
  | succeeded : Stage rule queue id k (rule.afterSuccess queue id)
  | failed : Stage rule queue id k (rule.afterFailure queue id)
  | start : 0 < rule.maxRetries.toNat →
      Stage rule queue id k (rule.startRetries (CacheKey.retry queue id))
  | increment : 0 < k → Stage rule queue id k (incrementRetries (CacheKey.retry queue id))
  | done (v : Verdict) : Stage rule queue id k (.done v)

theorem Stage.mono {rule : DecisionRule} {queue id : String} {k k' : Nat} {p : Decision}
    (h : rule.Stage queue id k p) (hk : k ≤ k') : rule.Stage queue id k' p := by
  cases h with
  | check hq hid => exact .check hq hid
  | handle payload => exact .handle payload
  | succeeded => exact .succeeded
  | failed => exact .failed
  | start hn => exact .start hn
  | increment hm => exact .increment (Nat.lt_of_lt_of_le hm hk)
  | done v => exact .done v

/-- How a turn of a decision brings it nearer to a retry, and what becomes of the count `k`. -/
inductive Course (rule : DecisionRule) (key : String) (p p' : Decision) (k : Nat) : Nat → Prop
  | quiet : p'.moves key = p.moves key → p'.isRetry = p.isRetry → Course rule key p p' k k
  | look : k < rule.maxRetries.toNat → p.moves key = false → p.isRetry = false →
      p'.moves key = true → p'.isRetry = false → Course rule key p p' k k
  | move : p.moves key = true → p.isRetry = false → p' = .done .retry →
      Course rule key p p' k (k + 1)

theorem Course.balance {rule : DecisionRule} {key : String} {p p' : Decision} {k k' : Nat}
    (h : rule.Course key p p' k k') :
    k ≤ k' ∧ k' + p.isRetry.toNat = k + p'.isRetry.toNat ∧
      (k' + (p'.moves key).toNat = k + (p.moves key).toNat ∨
        (k' = k ∧ k < rule.maxRetries.toNat)) := by
  cases h with
  | quiet moves isRetry => exact ⟨Nat.le_refl _, by rw [isRetry], .inl (by rw [moves])⟩
  | look below _ calm _ calm' => exact ⟨Nat.le_refl _, by rw [calm, calm'], .inr ⟨rfl, below⟩⟩
  | move moves calm said =>
      subst said
      exact ⟨Nat.le_succ _, by rw [calm]; rfl, .inl (by rw [moves]; rfl)⟩

variable {rule : DecisionRule} {queue id : String} {b : Bench} {d : Delivery}
  {reply : Reply HandlerError Bool} {p : Decision}

/-- What a turn of a decision comes to. -/
structure Turns (rule : DecisionRule) (queue id : String) (b : Bench) (p : Decision)
    (r : Decision × Bench) : Prop where
  stands : r.2.Stands rule (CacheKey.retry queue id)
  stage : rule.Stage queue id (r.2.moved (CacheKey.retry queue id)) r.1
  course : rule.Course (CacheKey.retry queue id) p r.1 (b.moved (CacheKey.retry queue id))
    (r.2.moved (CacheKey.retry queue id))

theorem Turns.of {r : Decision × Bench} {p' : Decision} {k : Nat}
    (stands : r.2.Stands rule (CacheKey.retry queue id)) (next : r.1 = p')
    (moved : r.2.moved (CacheKey.retry queue id) = k) (stage : rule.Stage queue id k p')
    (course : rule.Course (CacheKey.retry queue id) p p' (b.moved (CacheKey.retry queue id)) k) :
    rule.Turns queue id b p r := by
  subst next moved
  exact ⟨stands, stage, course⟩

/-- A turn that leaves the counter alone. -/
theorem Turns.aside {r : Decision × Bench} (stands : b.Stands rule (CacheKey.retry queue id))
    (aside : b.Aside [CacheKey.retry queue id] r.2)
    (stage : rule.Stage queue id (b.moved (CacheKey.retry queue id)) r.1)
    (moves : r.1.moves (CacheKey.retry queue id) = p.moves (CacheKey.retry queue id))
    (isRetry : r.1.isRetry = p.isRetry) : rule.Turns queue id b p r := by
  obtain ⟨stands', same⟩ := stands.aside aside
  exact ⟨stands', same ▸ stage, same ▸ .quiet moves isRetry⟩

theorem turns_decide {d' : Delivery} (stands : b.Stands rule (CacheKey.retry queue id))
    (hq : d.queue = queue) (hid : messageId? d = some id) :
    rule.Turns queue id b (rule.decide d) ((rule.decide d).turn d' reply b) := by
  subst hq
  unfold decide
  rw [hid]
  cases Json.Value.ofPayload? d.payload with
  | none => exact .aside stands (.refl _ b) (.done _) rfl rfl
  | some payload =>
      have aside : b.Aside [CacheKey.retry d.queue id]
          (b.ask (.exists (CacheKey.dedup d.queue id))).2 := by
        refine .ask b 0 ?_
        rw [List.mem_singleton]
        exact (CacheKey.retry_ne_dedup d.queue id).symm
      dsimp only [Decision.turn]
      rcases (b.ask (.exists (CacheKey.dedup d.queue id))).1 with e | known
      · exact .aside stands aside (.done _) rfl rfl
      · cases known with
        | true => exact .aside stands aside (.done _) rfl rfl
        | false => exact .aside stands aside (.handle payload) rfl rfl

theorem turns_process (stands : b.Stands rule (CacheKey.retry queue id)) (payload : Json.Value) :
    rule.Turns queue id b (rule.process queue id payload)
      ((rule.process queue id payload).turn d reply b) := by
  have aside := Bench.Aside.note [CacheKey.retry queue id] b ⟨d, reply⟩
  cases reply with
  | returned processed =>
      cases processed with
      | true => exact .aside stands aside .succeeded rfl rfl
      | false => exact .aside stands aside .failed rfl rfl
  | failed e => exact .aside stands aside (.done _) rfl rfl
  | crashed => exact .aside stands aside (.done _) rfl rfl

theorem turns_afterSuccess (stands : b.Stands rule (CacheKey.retry queue id)) :
    rule.Turns queue id b (rule.afterSuccess queue id)
      ((rule.afterSuccess queue id).turn d reply b) := by
  have aside : b.Aside [CacheKey.retry queue id]
      (b.ask (.set (CacheKey.dedup queue id) id (some rule.dedupTtl))).2 := by
    refine .ask b 0 ?_
    rw [List.mem_singleton]
    exact (CacheKey.retry_ne_dedup queue id).symm
  dsimp only [afterSuccess, Decision.turn]
  rcases (b.ask (.set (CacheKey.dedup queue id) id (some rule.dedupTtl))).1 with e | u
  · exact .aside stands aside (.done _) rfl rfl
  · exact .aside stands aside (.done _) rfl rfl

/-- A worker that reads the counter goes by what it stands at. -/
theorem turn_afterFailure (d : Delivery) (reply : Reply HandlerError Bool)
    (stands : b.Stands rule (CacheKey.retry queue id))
    (unexpired : b.Unexpired rule (CacheKey.retry queue id)) :
    ((rule.afterFailure queue id).turn d reply b).1 =
      if rule.maxRetries.toNat ≤ b.moved (CacheKey.retry queue id) then .done .reject
      else if b.moved (CacheKey.retry queue id) = 0 then rule.startRetries (CacheKey.retry queue id)
      else incrementRetries (CacheKey.retry queue id) := by
  dsimp only [afterFailure, Decision.turn]
  rcases (stands.get unexpired).2 with ⟨hm, answer⟩ | ⟨hm, answer⟩
  · rw [answer, hm, if_pos rfl]
    refine if_congr ?_ rfl rfl
    rw [Nat.le_zero, ← UInt32.toNat_inj]
    exact Iff.rfl
  · rw [answer, if_neg (Nat.pos_iff_ne_zero.mp hm)]
    dsimp only [Reply.ofExcept]
    rw [Text.counter?_repr stands.small]
    exact if_congr Int.ofNat_le rfl rfl

theorem turns_afterFailure (stands : b.Stands rule (CacheKey.retry queue id))
    (unexpired : b.Unexpired rule (CacheKey.retry queue id)) :
    rule.Turns queue id b (rule.afterFailure queue id)
      ((rule.afterFailure queue id).turn d reply b) := by
  obtain ⟨⟨stands', same⟩, -⟩ := stands.get unexpired
  have next := turn_afterFailure d reply stands unexpired
  by_cases full : rule.maxRetries.toNat ≤ b.moved (CacheKey.retry queue id)
  · rw [if_pos full] at next
    exact .of stands' next same (.done _) (.quiet rfl rfl)
  rw [if_neg full] at next
  by_cases hm : b.moved (CacheKey.retry queue id) = 0
  · rw [if_pos hm] at next
    exact .of stands' next same (.start (by omega))
      (.look (Nat.not_le.mp full) rfl rfl (beq_self_eq_true _) rfl)
  · rw [if_neg hm] at next
    exact .of stands' next same (.increment (Nat.pos_of_ne_zero hm))
      (.look (Nat.not_le.mp full) rfl rfl (beq_self_eq_true _) rfl)

theorem turns_startRetries (stands : b.Stands rule (CacheKey.retry queue id))
    (unexpired : b.Unexpired rule (CacheKey.retry queue id)) :
    rule.Turns queue id b (rule.startRetries (CacheKey.retry queue id))
      ((rule.startRetries (CacheKey.retry queue id)).turn d reply b) := by
  obtain ⟨stands', ⟨answer, next⟩ | ⟨answer, hm, same⟩⟩ := stands.setIfAbsent unexpired
  · refine .of stands' ?_ next (.done _) (.move (beq_self_eq_true _) rfl rfl)
    dsimp only [startRetries, Decision.turn]
    rw [answer]
    rfl
  · refine .of stands' ?_ same (.increment hm) (.quiet rfl rfl)
    dsimp only [startRetries, Decision.turn]
    rw [answer]
    rfl

theorem turns_incrementRetries (stands : b.Stands rule (CacheKey.retry queue id))
    (hm : 0 < b.moved (CacheKey.retry queue id))
    (unexpired : b.Unexpired rule (CacheKey.retry queue id))
    (fine : (b.ask (.increment (CacheKey.retry queue id))).1.isOk = true) :
    rule.Turns queue id b (incrementRetries (CacheKey.retry queue id))
      ((incrementRetries (CacheKey.retry queue id)).turn d reply b) := by
  obtain ⟨stands', next, count, answer⟩ := stands.increment hm unexpired fine
  refine .of stands' ?_ next (.done _) (.move (beq_self_eq_true _) rfl rfl)
  dsimp only [incrementRetries, Decision.turn]
  rw [answer]
  rfl

/-- A turn keeps a counter standing, as long as the counter lives and no call on it fails. -/
theorem Stage.turn (h : rule.Stage queue id (b.moved (CacheKey.retry queue id)) p)
    (stands : b.Stands rule (CacheKey.retry queue id))
    (unexpired : (p.turn d reply b).2.Unexpired rule (CacheKey.retry queue id))
    (fine : ∀ r ∈ (p.turn d reply b).2.journal,
      r.call.key = CacheKey.retry queue id → r.answer.isOk = true) :
    rule.Turns queue id b p (p.turn d reply b) := by
  replace unexpired : b.Unexpired rule (CacheKey.retry queue id) :=
    unexpired.earlier (p.turn_later d reply b)
  cases h with
  | check hq hid => exact turns_decide stands hq hid
  | handle payload => exact turns_process stands payload
  | succeeded => exact turns_afterSuccess stands
  | failed => exact turns_afterFailure stands unexpired
  | start hn => exact turns_startRetries stands unexpired
  | increment hk =>
      exact turns_incrementRetries stands hk unexpired
        (fine _ (List.mem_append_right _ (List.mem_singleton_self _)) rfl)
  | done v => exact ⟨stands, .done v, .quiet rfl rfl⟩

/-- Of all calls, only the one right after a failure reads a counter. -/
theorem Stage.eq_afterFailure {k : Nat} {key : String} (h : rule.Stage queue id k p)
    (reads : p.reads key = true) : p = rule.afterFailure queue id := by
  cases h with
  | check hq hid =>
      unfold decide at reads
      split at reads
      · cases reads
      · split at reads <;> cases reads
  | failed => rfl
  | _ => cases reads

end DecisionRule

end DurableMessaging
