import DurableMessaging.Proofs.Cache.Effect
import DurableMessaging.Proofs.Pipeline.Run

/-!
# Decisions at a bench

A bench is a cache with a clock that only goes forward. It keeps a journal of the calls to the cache
and a list of what handlers replied. Decisions are taken at it one after another; any time may pass
before each call.
-/

namespace DurableMessaging

structure CallRecord where
  time : Instant
  call : CacheCall
  answer : Except CacheError call.Answer

structure Bench where
  now : Instant
  cache : Cache
  /-- Every call to the cache, the oldest first. -/
  journal : List CallRecord
  /-- Every call of a handler, the oldest first. -/
  handlings : List Handling

namespace Bench

def start (now : Instant) (c : Cache) : Bench := ⟨now, c, [], []⟩

def wait (d : Duration) (b : Bench) : Bench := { b with now := b.now + d }

def ask (call : CacheCall) (b : Bench) : Except CacheError call.Answer × Bench :=
  let (answer, cache) := b.cache.perform b.now call
  (answer, { b with cache, journal := b.journal ++ [⟨b.now, call, answer⟩] })

def note (x : Handling) (b : Bench) : Bench := { b with handlings := b.handlings ++ [x] }

theorem ask_fst {b : Bench} (h : b.cache.available = true) (call : CacheCall) :
    (b.ask call).1 = (call.effect b.now (b.cache.live? b.now call.key)).1 :=
  Cache.perform_fst h b.now call

theorem live?_ask {b : Bench} (h : b.cache.available = true) {later : Instant} (hn : b.now ≤ later)
    (call : CacheCall) (k : String) :
    (b.ask call).2.cache.live? later k =
      if k = call.key then
        (call.effect b.now (b.cache.live? b.now call.key)).2.filter (·.isLive later)
      else b.cache.live? later k :=
  Cache.live?_perform h hn call k

end Bench

/-- A delivery to be decided about, and what its handler will reply. -/
structure Attempt where
  delivery : Delivery
  handler : Json.Value → Reply HandlerError Bool

/-- The `n`-th call at a bench is made after the `n`-th pause. -/
def Attempt.surroundings (a : Attempt) (pauses : Nat → Duration) : Surroundings Bench where
  cache call b :=
    let (answer, b) := (b.wait (pauses b.journal.length)).ask call
    (.ofExcept answer, b)
  handler payload b := (a.handler payload, b.note ⟨a.delivery, a.handler payload⟩)

theorem Decision.run_ask (a : Attempt) (pauses : Nat → Duration) (call : CacheCall)
    (next : Reply CacheError call.Answer → Decision) (b : Bench) :
    (ask call next).run (a.surroundings pauses) b =
      (next (.ofExcept ((b.wait (pauses b.journal.length)).ask call).1)).run
        (a.surroundings pauses) ((b.wait (pauses b.journal.length)).ask call).2 := rfl

theorem Decision.run_handle (a : Attempt) (pauses : Nat → Duration) (payload : Json.Value)
    (next : Reply HandlerError Bool → Decision) (b : Bench) :
    (handle payload next).run (a.surroundings pauses) b =
      (next (a.handler payload)).run (a.surroundings pauses)
        (b.note ⟨a.delivery, a.handler payload⟩) := rfl

def Engine.decideAll (pauses : Nat → Duration) (attempts : List Attempt) (s : Engine × Bench) :
    Engine × Bench :=
  attempts.foldl (fun s a => (s.1.decide (a.surroundings pauses) a.delivery s.2).2) s

theorem Engine.rule_countVerdict (e : Engine) (v : Verdict) : (e.countVerdict v).rule = e.rule := by
  cases v <;> rfl

theorem Engine.rule_decide {σ : Type} (e : Engine) (around : Surroundings σ) (d : Delivery) (s : σ) :
    (e.decide around d s).2.1.rule = e.rule :=
  e.rule_countVerdict _

theorem Engine.rule_decideAll (pauses : Nat → Duration) (attempts : List Attempt)
    (s : Engine × Bench) : (decideAll pauses attempts s).1.rule = s.1.rule := by
  induction attempts generalizing s with
  | nil => rfl
  | cons a attempts ih => exact (ih _).trans (s.1.rule_decide _ _ _)

/-! ## What a decision asks -/

/-- Whether every call that a decision may lead to satisfies a condition. -/
def Decision.Asks (P : CacheCall → Prop) : Decision → Prop
  | .done _ => True
  | .ask call next => P call ∧ ∀ r, (next r).Asks P
  | .handle _ next => ∀ r, (next r).Asks P

theorem Decision.Asks.mono {P Q : CacheCall → Prop} (hpq : ∀ call, P call → Q call) {p : Decision}
    (h : p.Asks P) : p.Asks Q := by
  induction p with
  | done v => trivial
  | ask call next ih => exact ⟨hpq call h.1, fun r => ih r (h.2 r)⟩
  | handle payload next ih => exact fun r => ih r (h r)

namespace DecisionRule

/-- The keys under which a cache keeps what is known of a delivery. -/
def keys (d : Delivery) : List String :=
  match messageId? d with
  | none => []
  | some id => [CacheKey.dedup d.queue id, CacheKey.retry d.queue id]

theorem keys_eq {d : Delivery} {id : String} (h : messageId? d = some id) :
    keys d = [CacheKey.dedup d.queue id, CacheKey.retry d.queue id] := by
  unfold keys
  rw [h]

/-- Whether a call is of a kind that decisions make: nothing is removed, and only dedup records are
written over what is there. -/
def Makes (rule : DecisionRule) : CacheCall → Prop
  | .set _ _ ttl => ttl = some rule.dedupTtl
  | .delete _ => False
  | _ => True

variable (rule : DecisionRule)

theorem asks_incrementRetries (key : String) :
    (incrementRetries key).Asks fun call => call.key = key ∧ rule.Makes call := by
  refine ⟨⟨rfl, trivial⟩, fun r => ?_⟩
  cases r <;> trivial

theorem asks_startRetries (key : String) :
    (rule.startRetries key).Asks fun call => call.key = key ∧ rule.Makes call := by
  refine ⟨⟨rfl, trivial⟩, fun r => ?_⟩
  cases r with
  | returned stored =>
      cases stored
      · exact rule.asks_incrementRetries key
      · trivial
  | failed e => trivial
  | crashed => trivial

theorem asks_afterFailure (queue id : String) :
    (rule.afterFailure queue id).Asks fun call =>
      call.key = CacheKey.retry queue id ∧ rule.Makes call := by
  refine ⟨⟨rfl, trivial⟩, fun r => ?_⟩
  cases r with
  | returned counter =>
      cases counter with
      | none =>
          show Decision.Asks _ (if _ then _ else _)
          split
          · trivial
          · exact rule.asks_startRetries _
      | some text =>
          dsimp only
          split
          · trivial
          · split
            · trivial
            · exact rule.asks_incrementRetries _
  | failed e => trivial
  | crashed => trivial

theorem asks_afterSuccess (queue id : String) :
    (rule.afterSuccess queue id).Asks fun call =>
      call.key = CacheKey.dedup queue id ∧ rule.Makes call := by
  refine ⟨⟨rfl, rfl⟩, fun r => ?_⟩
  cases r <;> trivial

theorem asks_process (queue id : String) (payload : Json.Value) :
    (rule.process queue id payload).Asks fun call =>
      call.key ∈ [CacheKey.dedup queue id, CacheKey.retry queue id] ∧ rule.Makes call := by
  intro r
  cases r with
  | returned processed =>
      cases processed
      · refine (rule.asks_afterFailure queue id).mono fun call h => ⟨?_, h.2⟩
        rw [h.1]
        exact List.mem_cons_of_mem _ List.mem_cons_self
      · refine (rule.asks_afterSuccess queue id).mono fun call h => ⟨?_, h.2⟩
        rw [h.1]
        exact List.mem_cons_self
  | failed e => trivial
  | crashed => trivial

theorem asks_decide (d : Delivery) :
    (rule.decide d).Asks fun call => call.key ∈ keys d ∧ rule.Makes call := by
  unfold decide
  cases hid : messageId? d with
  | none => trivial
  | some id =>
      rw [keys_eq hid]
      cases Json.Value.ofPayload? d.payload with
      | none => trivial
      | some payload =>
          refine ⟨⟨List.mem_cons_self, trivial⟩, fun r => ?_⟩
          cases r with
          | returned known =>
              cases known
              · exact rule.asks_process d.queue id payload
              · trivial
          | failed e => trivial
          | crashed => trivial

end DecisionRule

/-! ## What a decision leaves alone -/

/-- From one bench to a later one nothing was asked about some keys, nor anything changed there. -/
structure Bench.Aside (keys : List String) (b b' : Bench) : Prop where
  now_le : b.now ≤ b'.now
  agree : Cache.Agree keys b'.now b.cache b'.cache
  journal : ∃ calls, b'.journal = b.journal ++ calls ∧ ∀ r ∈ calls, r.call.key ∉ keys

namespace Bench.Aside

variable {keys : List String} {b b' b'' : Bench}

theorem refl (keys : List String) (b : Bench) : b.Aside keys b :=
  ⟨Nat.le_refl _, .refl _ _ _, [], (List.append_nil _).symm, nofun⟩

theorem trans (h : b.Aside keys b') (h' : b'.Aside keys b'') : b.Aside keys b'' := by
  obtain ⟨calls, hj, hc⟩ := h.journal
  obtain ⟨calls', hj', hc'⟩ := h'.journal
  refine ⟨Nat.le_trans h.now_le h'.now_le, (h.agree.wait h'.now_le).trans h'.agree,
    calls ++ calls', ?_, fun r hr => ?_⟩
  · rw [hj', hj, List.append_assoc]
  · exact (List.mem_append.mp hr).elim (hc r) (hc' r)

theorem note (keys : List String) (b : Bench) (x : Handling) : b.Aside keys (b.note x) :=
  ⟨Nat.le_refl _, .refl _ _ _, [], (List.append_nil _).symm, nofun⟩

theorem ask (b : Bench) (d : Duration) {call : CacheCall} (hk : call.key ∉ keys) :
    b.Aside keys ((b.wait d).ask call).2 :=
  ⟨Nat.le_add_right _ _, .aside _ _ _ hk, _, rfl, fun _ hr => List.mem_singleton.mp hr ▸ hk⟩

end Bench.Aside

theorem Decision.run_aside {keys : List String} (a : Attempt) (pauses : Nat → Duration) {p : Decision}
    (hp : p.Asks fun call => call.key ∉ keys) (b : Bench) :
    b.Aside keys (p.run (a.surroundings pauses) b).2 := by
  induction p generalizing b with
  | done v => exact .refl _ _
  | ask call next ih => exact (Bench.Aside.ask b _ hp.1).trans (ih _ (hp.2 _) _)
  | handle payload next ih => exact (Bench.Aside.note _ b _).trans (ih _ (hp _) _)

theorem Decision.run_handlings (a : Attempt) (pauses : Nat → Duration) (p : Decision) (b : Bench) :
    ∃ new, (p.run (a.surroundings pauses) b).2.handlings = b.handlings ++ new ∧
      ∀ x ∈ new, x.delivery = a.delivery := by
  induction p generalizing b with
  | done v => exact ⟨[], (List.append_nil _).symm, nofun⟩
  | ask call next ih => exact ih _ ((b.wait (pauses b.journal.length)).ask call).2
  | handle payload next ih =>
      obtain ⟨new, hnew, hd⟩ := ih (a.handler payload) (b.note ⟨a.delivery, a.handler payload⟩)
      refine ⟨⟨a.delivery, a.handler payload⟩ :: new, ?_, ?_⟩
      · rw [List.append_cons]
        exact hnew
      · exact List.forall_mem_cons.mpr ⟨rfl, hd⟩

theorem Decision.run_later (a : Attempt) (pauses : Nat → Duration) (p : Decision) (b : Bench) :
    b.Aside [] (p.run (a.surroundings pauses) b).2 := by
  refine Decision.run_aside a pauses ?_ b
  induction p with
  | done v => trivial
  | ask call next ih => exact ⟨List.not_mem_nil, fun r => ih r⟩
  | handle payload next ih => exact fun r => ih r

end DurableMessaging
