import DurableMessaging.Consumer.Engine

/-!
# What a decision rests on

A decision comes to an action whatever its cache and its handler reply, errors and crashes included.
What it was told is recorded beside the state of its collaborators, which they cannot see; the action
follows from that record.
-/

namespace DurableMessaging

open Json (Value)

/-! ## Transcripts -/

/-- A call that a decision makes, and how it ends. -/
inductive Exchange where
  | asked (call : CacheCall) (reply : Reply CacheError call.Answer)
  | handled (payload : Value) (reply : Reply HandlerError Bool)

namespace Exchange

def isHandled : Exchange → Bool
  | .handled _ _ => true
  | .asked _ _ => false

def crashed : Exchange → Bool
  | .asked _ .crashed | .handled _ .crashed => true
  | _ => false

/-- Whether a call to the cache ended with an error. -/
def refused : Exchange → Bool
  | .asked _ (.failed _) => true
  | _ => false

/-- Whether a call is one of those that keep a retry counter. -/
def counts : Exchange → Bool
  | .asked (.get _) _ | .asked (.setIfAbsent ..) _ | .asked (.increment _) _ => true
  | _ => false

end Exchange

/-- The calls of a decision, the first one first. -/
abbrev Transcript := List Exchange

variable {σ : Type}

def Surroundings.recorded (around : Surroundings σ) : Surroundings (σ × Transcript) where
  cache call s :=
    let (reply, rest) := around.cache call s.1
    (reply, rest, s.2 ++ [.asked call reply])
  handler payload s :=
    let (reply, rest) := around.handler payload s.1
    (reply, rest, s.2 ++ [.handled payload reply])

/-- Whether a decision ends as `P` says, whatever it is told. -/
def Decision.Ends (P : Transcript → Verdict → Prop) : Decision → Prop
  | .done v => P [] v
  | .ask call next => ∀ r, (next r).Ends fun xs => P (.asked call r :: xs)
  | .handle payload next => ∀ r, (next r).Ends fun xs => P (.handled payload r :: xs)

namespace Decision.Ends

variable {P Q : Transcript → Verdict → Prop} {p : Decision}

theorem mono (h : p.Ends P) (hpq : ∀ xs v, P xs v → Q xs v) : p.Ends Q := by
  induction p generalizing P Q with
  | done v => exact hpq _ _ h
  | ask call next ih => exact fun r => ih r (h r) fun xs => hpq _
  | handle payload next ih => exact fun r => ih r (h r) fun xs => hpq _

/-- Recording changes nothing, and what is recorded of a run is as `P` says. -/
theorem run (h : p.Ends P) (around : Surroundings σ) (s : σ) (xs : Transcript) :
    ∃ ys, p.run around.recorded (s, xs) = ((p.run around s).1, (p.run around s).2, xs ++ ys) ∧
      P ys (p.run around s).1 := by
  induction p generalizing P s xs with
  | done v => exact ⟨[], by rw [List.append_nil]; rfl, h⟩
  | ask call next ih =>
      obtain ⟨ys, hr, hp⟩ := ih _ (h (around.cache call s).1) (around.cache call s).2
        (xs ++ [.asked call (around.cache call s).1])
      refine ⟨_, ?_, hp⟩
      rw [List.append_assoc] at hr
      exact hr
  | handle payload next ih =>
      obtain ⟨ys, hr, hp⟩ := ih _ (h (around.handler payload s).1) (around.handler payload s).2
        (xs ++ [.handled payload (around.handler payload s).1])
      refine ⟨_, ?_, hp⟩
      rw [List.append_assoc] at hr
      exact hr

end Decision.Ends

/-! ## Retry counters -/

namespace DecisionRule

/-- Whether a call created the counter under a key, or added one to it. -/
def Bumps (rule : DecisionRule) (key : String) : Exchange → Prop
  | .asked (.setIfAbsent k value ttl) (.returned true) => k = key ∧ value = "1" ∧ ttl = rule.retryTtl
  | .asked (.increment k) (.returned _) => k = key
  | _ => False

/-- Whether a call found the counter under a key absent, or an integer below the bound. -/
def FindsLow (rule : DecisionRule) (key : String) : Exchange → Prop
  | .asked (.get k) (.returned none) => k = key
  | .asked (.get k) (.returned (some text)) =>
    k = key ∧ ∃ n, Text.counter? text = some n ∧ n < (rule.maxRetries.toNat : Int)
  | _ => False

/-- What keeping the counter under a key comes to. -/
structure Keeps (rule : DecisionRule) (key : String) (xs : Transcript) (v : Verdict) : Prop where
  counts : ∀ x ∈ xs, x.counts = true
  verdict : v = .retry ∨ v = .reject
  retry_iff : v = .retry ↔ ∃ x ∈ xs, rule.Bumps key x
  faulty : (∃ x ∈ xs, x.crashed = true ∨ x.refused = true) → v = .reject

variable {rule : DecisionRule} {key : String} {x : Exchange} {xs : Transcript} {v : Verdict}

theorem Keeps.retry (hc : x.counts = true) (hb : rule.Bumps key x)
    (hx : x.crashed = false ∧ x.refused = false) : rule.Keeps key [x] .retry where
  counts := by simpa using hc
  verdict := .inl rfl
  retry_iff := by simpa using hb
  faulty := by simp [hx]

theorem Keeps.reject (hc : x.counts = true) (hb : ¬rule.Bumps key x) :
    rule.Keeps key [x] .reject where
  counts := by simpa using hc
  verdict := .inr rfl
  retry_iff := by simpa using hb
  faulty := fun _ => rfl

/-- A call before that went well and left the counter alone has no part in the outcome. -/
theorem Keeps.cons (h : rule.Keeps key xs v) (hc : x.counts = true) (hb : ¬rule.Bumps key x)
    (hx : x.crashed = false ∧ x.refused = false) : rule.Keeps key (x :: xs) v where
  counts := List.forall_mem_cons.mpr ⟨hc, h.counts⟩
  verdict := h.verdict
  retry_iff := by simpa [hb] using h.retry_iff
  faulty := by simpa [hx] using h.faulty

theorem ends_incrementRetries (rule : DecisionRule) (key : String) :
    (incrementRetries key).Ends (rule.Keeps key) := by
  intro r
  cases r with
  | returned n => exact .retry rfl rfl ⟨rfl, rfl⟩
  | failed e => exact .reject rfl id
  | crashed => exact .reject rfl id

theorem ends_startRetries (rule : DecisionRule) (key : String) :
    (rule.startRetries key).Ends (rule.Keeps key) := by
  intro r
  cases r with
  | returned stored =>
      cases stored with
      | true => exact .retry rfl ⟨rfl, rfl, rfl⟩ ⟨rfl, rfl⟩
      | false => exact (rule.ends_incrementRetries key).mono fun xs v h => h.cons rfl id ⟨rfl, rfl⟩
  | failed e => exact .reject rfl id
  | crashed => exact .reject rfl id

theorem ends_afterFailure (rule : DecisionRule) (queue messageId : String) :
    (rule.afterFailure queue messageId).Ends fun xs v =>
      rule.Keeps (CacheKey.retry queue messageId) xs v ∧
        (v = .retry → ∃ x ∈ xs, rule.FindsLow (CacheKey.retry queue messageId) x) := by
  intro r
  cases r with
  | returned counter =>
      cases counter with
      | none =>
          show Decision.Ends _ (if _ then _ else _)
          split
          · exact ⟨.reject rfl id, nofun⟩
          · exact (rule.ends_startRetries _).mono fun xs v h =>
              ⟨h.cons rfl id ⟨rfl, rfl⟩, fun _ => ⟨_, List.mem_cons_self, rfl⟩⟩
      | some text =>
          dsimp only
          split
          · exact ⟨.reject rfl id, nofun⟩
          · rename_i count hcount
            split
            · exact ⟨.reject rfl id, nofun⟩
            · rename_i low
              refine (rule.ends_incrementRetries _).mono fun xs v h =>
                ⟨h.cons rfl id ⟨rfl, rfl⟩, fun _ => ⟨_, List.mem_cons_self, rfl, count, hcount, ?_⟩⟩
              exact Int.not_le.mp low
  | failed e => exact ⟨.reject rfl id, nofun⟩
  | crashed => exact ⟨.reject rfl id, nofun⟩

/-! ## Decisions -/

/-- The handler is called once at most, and then for a message with an id and a readable payload that
was not found to be a duplicate. -/
def Handles (d : Delivery) (xs : Transcript) : Prop :=
  (∀ x ∈ xs, x.isHandled = false) ∨ ∃ id payload reply rest,
    d.messageId = some id ∧ Text.isBlankText id = false ∧
      Value.ofPayload? d.payload = some payload ∧
      xs = .asked (.exists (CacheKey.dedup d.queue id)) (.returned false) ::
        .handled payload reply :: rest ∧
      ∀ x ∈ rest, x.isHandled = false

/-- What the action of a decision rests on. -/
structure Grounded (rule : DecisionRule) (d : Delivery) (xs : Transcript) (action : Action) :
    Prop where
  handles : Handles d xs
  accept_iff : action = .accept ↔
    (∃ id, d.messageId = some id ∧
      .asked (.exists (CacheKey.dedup d.queue id)) (.returned true) ∈ xs) ∨
    ((∃ payload, .handled payload (.returned true) ∈ xs) ∧ ∀ x ∈ xs, x.crashed = false)
  retry_iff : action = .retry ↔ ∃ id, d.messageId = some id ∧
    (∃ payload, .handled payload (.returned false) ∈ xs) ∧
    (∃ x ∈ xs, rule.FindsLow (CacheKey.retry d.queue id) x) ∧
    ∃ x ∈ xs, rule.Bumps (CacheKey.retry d.queue id) x
  crashed : (∃ x ∈ xs, x.crashed = true) → action = .reject
  /-- After an error of the cache a message is only accepted if nothing but the record that it has
  been processed could not be written. -/
  refused : (∃ x ∈ xs, x.refused = true) → action = .reject ∨
    (action = .accept ∧ ∃ id payload e, d.messageId = some id ∧
      xs = [.asked (.exists (CacheKey.dedup d.queue id)) (.returned false),
        .handled payload (.returned true),
        .asked (.set (CacheKey.dedup d.queue id) id (some rule.dedupTtl)) (.failed e)])
  unrecorded : ∀ id e,
    .asked (.set (CacheKey.dedup d.queue id) id (some rule.dedupTtl)) (.failed e) ∈ xs →
      action = .accept

section Handled

variable {d : Delivery} {messageId : String} {payload : Value}
  (hid : d.messageId = some messageId) (hblank : Text.isBlankText messageId = false)
  (hp : Value.ofPayload? d.payload = some payload)

include hid hblank hp

theorem handles_once (reply : Reply HandlerError Bool) (h : ∀ x ∈ xs, x.isHandled = false) :
    Handles d (.asked (.exists (CacheKey.dedup d.queue messageId)) (.returned false) ::
      .handled payload reply :: xs) :=
  .inr ⟨messageId, payload, reply, xs, hid, hblank, hp, rfl, h⟩

/-- After a failure of the handler the outcome is that of keeping the counter. -/
theorem Keeps.grounded (h : rule.Keeps (CacheKey.retry d.queue messageId) xs v)
    (low : v = .retry → ∃ x ∈ xs, rule.FindsLow (CacheKey.retry d.queue messageId) x) :
    rule.Grounded d (.asked (.exists (CacheKey.dedup d.queue messageId)) (.returned false) ::
      .handled payload (.returned false) :: xs) v.action := by
  have other : ∀ x : Exchange, x.counts = false → x ∉ xs := by
    intro x hx hmem
    exact Bool.false_ne_true (hx.symm.trans (h.counts x hmem))
  have unhandled : ∀ x ∈ xs, x.isHandled = false := by
    intro x hx
    cases x with
    | asked call reply => rfl
    | handled payload reply => exact absurd hx (other _ rfl)
  have unaccepted : v.action ≠ .accept := by
    rcases h.verdict with rfl | rfl <;> nofun
  have retry : v.action = .retry ↔ v = .retry := by
    rcases h.verdict with rfl | rfl <;> decide
  have faulty : (∃ x ∈ xs, x.crashed = true ∨ x.refused = true) → v.action = .reject := by
    intro hx
    rw [h.faulty hx]
    rfl
  -- the check and the handler's reply were neither errors, nor crashes, nor about the counter
  have later : ∀ {P : Exchange → Prop},
      ¬P (.asked (.exists (CacheKey.dedup d.queue messageId)) (.returned false)) →
      ¬P (.handled payload (.returned false)) →
      ((∃ x ∈ Exchange.asked (.exists (CacheKey.dedup d.queue messageId)) (.returned false) ::
        .handled payload (.returned false) :: xs, P x) ↔ ∃ x ∈ xs, P x) := by
    intro P hcheck hreply
    simp [hcheck, hreply]
  refine ⟨handles_once hid hblank hp _ unhandled, ?_, ?_, ?_, ?_, ?_⟩
  · have unchecked : ∀ key r, .asked (.exists key) r ∉ xs := fun key r => other _ rfl
    have failed : ∀ payload r, .handled payload r ∉ xs := fun payload r => other _ rfl
    simp [unaccepted, unchecked, failed]
  · rw [retry]
    constructor
    · rintro rfl
      have bumped := h.retry_iff.mp rfl
      exact ⟨messageId, hid, ⟨payload, by simp⟩, (later not_false not_false).mpr (low rfl),
        (later not_false not_false).mpr bumped⟩
    · rintro ⟨other, hother, -, -, bumped⟩
      obtain rfl := Option.some.inj (hid.symm.trans hother)
      exact h.retry_iff.mpr ((later not_false not_false).mp bumped)
  · intro hx
    obtain ⟨x, hx, hc⟩ := (later Bool.false_ne_true Bool.false_ne_true).mp hx
    exact faulty ⟨x, hx, .inl hc⟩
  · intro hx
    obtain ⟨x, hx, hr⟩ := (later Bool.false_ne_true Bool.false_ne_true).mp hx
    exact .inl (faulty ⟨x, hx, .inr hr⟩)
  · have unwritten : ∀ key value ttl r, .asked (.set key value ttl) r ∉ xs :=
      fun key value ttl r => other _ rfl
    simp [unwritten]

theorem ends_process (rule : DecisionRule) :
    (rule.process d.queue messageId payload).Ends fun xs v => rule.Grounded d
      (.asked (.exists (CacheKey.dedup d.queue messageId)) (.returned false) :: xs) v.action := by
  intro r
  cases r with
  | returned processed =>
      cases processed with
      | true =>
          intro r
          have once := handles_once hid hblank hp (.returned true) <| List.forall_mem_singleton.mpr
            (rfl : (Exchange.asked (.set (CacheKey.dedup d.queue messageId) messageId
              (some rule.dedupTtl)) r).isHandled = false)
          cases r <;> refine ⟨once, ?_, ?_, ?_, ?_, ?_⟩ <;>
            simp [Verdict.action, hid, Exchange.crashed, Exchange.refused, FindsLow, Bumps]
      | false =>
          exact (rule.ends_afterFailure d.queue messageId).mono fun xs v h =>
            h.1.grounded hid hblank hp h.2
  | failed e =>
      refine ⟨handles_once hid hblank hp _ nofun, ?_, ?_, ?_, ?_, ?_⟩ <;>
        simp [Verdict.action, Exchange.crashed, Exchange.refused, FindsLow, Bumps]
  | crashed =>
      refine ⟨handles_once hid hblank hp _ nofun, ?_, ?_, ?_, ?_, ?_⟩ <;>
        simp [Verdict.action, Exchange.crashed, Exchange.refused, FindsLow, Bumps]

end Handled

theorem ends_decide (rule : DecisionRule) (d : Delivery) :
    (rule.decide d).Ends fun xs v => rule.Grounded d xs v.action := by
  unfold decide
  cases hid : messageId? d with
  | none => constructor <;> simp [Verdict.action, Handles]
  | some messageId =>
      obtain ⟨hsome, hblank⟩ := Option.filter_eq_some_iff.mp hid
      cases hp : Value.ofPayload? d.payload with
      | none => constructor <;> simp [Verdict.action, Handles]
      | some payload =>
          intro r
          have unhandled : ∀ x ∈ [Exchange.asked (.exists (CacheKey.dedup d.queue messageId)) r],
              x.isHandled = false := List.forall_mem_singleton.mpr rfl
          cases r with
          | returned known =>
              cases known with
              | true =>
                  refine ⟨.inl unhandled, ?_, ?_, ?_, ?_, ?_⟩ <;>
                    simp [Verdict.action, hsome, Exchange.crashed, Exchange.refused]
              | false => exact ends_process hsome (by simpa using hblank) hp rule
          | failed e => refine ⟨.inl unhandled, ?_, ?_, ?_, ?_, ?_⟩ <;> simp [Verdict.action]
          | crashed => refine ⟨.inl unhandled, ?_, ?_, ?_, ?_, ?_⟩ <;> simp [Verdict.action]

end DecisionRule

/-- Whatever its cache and its handler reply to each call, errors and crashes included, an engine
comes to an action, and the action is grounded in what was replied. -/
theorem Engine.decides_on_grounds (e : Engine) (around : Surroundings σ) (d : Delivery) (s : σ) :
    ∃ xs, e.decide around.recorded d (s, []) =
        ((e.decide around d s).1, (e.decide around d s).2.1, (e.decide around d s).2.2, xs) ∧
      e.rule.Grounded d xs (e.decide around d s).1 := by
  obtain ⟨xs, hr, grounded⟩ := (e.rule.ends_decide d).run around s []
  refine ⟨xs, ?_, grounded⟩
  simp only [decide, hr, List.nil_append]

/-- The cache fails once the handler has processed the message. -/
example :
    let around : Surroundings Unit :=
      { cache := fun
          | .exists _, s => (.returned false, s)
          | _, s => (.failed (.unavailable "off"), s)
        handler := fun _ s => (.returned true, s) }
    let d : Delivery := ⟨1, "orders", "", "orders", some "m", "1".toUTF8, false⟩
    (Engine.standard.decide around d ()).1 = .accept := by
  cbv

end DurableMessaging
