import DurableMessaging.Consumer.Engine

/-!
# Every delivery is settled once

An engine makes one call to the channel of each delivery, whatever cache, handler and channel it
works with, and its counters tell what it decided. The collaborators are watched: what they were
asked and how they ended is kept beside their state, which they cannot see.
-/

namespace DurableMessaging

/-! ## Watching an engine at work -/

/-- What has been seen of the collaborators of an engine. -/
structure Sightings where
  /-- Calls to the cache that crashed. -/
  cacheCrashes : Nat
  /-- How the handler ended each of its calls, the oldest first. -/
  handled : List (Reply HandlerError Bool)
  /-- The calls to channels, the oldest first. -/
  settled : List (DeliveryTag × Settlement)

namespace Sightings

def none : Sightings := ⟨0, [], []⟩

def seeCache {α : Type} (seen : Sightings) : Reply CacheError α → Sightings
  | .crashed => { seen with cacheCrashes := seen.cacheCrashes + 1 }
  | _ => seen

def seeHandler (seen : Sightings) (reply : Reply HandlerError Bool) : Sightings :=
  { seen with handled := seen.handled ++ [reply] }

def seeChannel (seen : Sightings) (tag : DeliveryTag) (s : Settlement) : Sightings :=
  { seen with settled := seen.settled ++ [(tag, s)] }

/-- How often the handler told that a message is processed. -/
def successes (seen : Sightings) : Nat := seen.handled.count (.returned true)

end Sightings

/-- A delivery to an engine, with the collaborators that it finds. -/
structure Occasion (σ : Type) where
  delivery : Delivery
  around : Surroundings σ
  channel : Engine.Channel σ

variable {σ : Type}

def Surroundings.watched (around : Surroundings σ) : Surroundings (σ × Sightings) where
  cache call s :=
    let (reply, rest) := around.cache call s.1
    (reply, rest, s.2.seeCache reply)
  handler payload s :=
    let (reply, rest) := around.handler payload s.1
    (reply, rest, s.2.seeHandler reply)

def Occasion.watched (o : Occasion σ) : Occasion (σ × Sightings) where
  delivery := o.delivery
  around := o.around.watched
  channel tag s state :=
    let (answer, rest) := o.channel tag s state.1
    (answer, rest, state.2.seeChannel tag s)

/-- Gives an engine one delivery after another. -/
def Engine.deliverAll (e : Engine) : List (Occasion σ) → σ → List Action × Engine × σ
  | [], s => ([], e, s)
  | o :: os, s =>
    let (action, e, s) := e.deliver o.around o.channel o.delivery s
    let (actions, e, s) := e.deliverAll os s
    (action :: actions, e, s)

/-! ## Watching changes nothing -/

theorem Decision.run_watched (around : Surroundings σ) (p : Decision) (s : σ) (seen : Sightings) :
    ∃ seen', p.run around.watched (s, seen) = ((p.run around s).1, (p.run around s).2, seen') := by
  induction p generalizing s seen with
  | done v => exact ⟨seen, rfl⟩
  | ask call next ih => exact ih _ _ _
  | handle payload next ih => exact ih _ _ _

theorem Engine.deliver_watched (e : Engine) (o : Occasion σ) (s : σ) (seen : Sightings) :
    ∃ seen', e.deliver o.watched.around o.watched.channel o.watched.delivery (s, seen) =
      ((e.deliver o.around o.channel o.delivery s).1,
        (e.deliver o.around o.channel o.delivery s).2.1,
        (e.deliver o.around o.channel o.delivery s).2.2, seen') := by
  obtain ⟨seen', h⟩ := (e.rule.decide o.delivery).run_watched o.around s seen
  refine ⟨seen'.seeChannel o.delivery.tag
    ((e.rule.decide o.delivery).run o.around s).1.action.settlement, ?_⟩
  simp only [deliver, decide, Occasion.watched, h]

theorem Engine.deliverAll_watched (e : Engine) (os : List (Occasion σ)) (s : σ) (seen : Sightings) :
    ∃ seen', e.deliverAll (os.map Occasion.watched) (s, seen) =
      ((e.deliverAll os s).1, (e.deliverAll os s).2.1, (e.deliverAll os s).2.2, seen') := by
  induction os generalizing e s seen with
  | nil => exact ⟨seen, rfl⟩
  | cons o os ih =>
      obtain ⟨seen₁, h₁⟩ := e.deliver_watched o s seen
      obtain ⟨seen₂, h₂⟩ := ih (e.deliver o.around o.channel o.delivery s).2.1
        (e.deliver o.around o.channel o.delivery s).2.2 seen₁
      exact ⟨seen₂, by simp only [List.map_cons, deliverAll, h₁, h₂]⟩

/-! ## Handler successes and verdicts -/

/-- On every path without a crash of the cache, a message counts as processed just if the handler
said so once; it has said so `n` times before. -/
def Decision.Accounted : Nat → Decision → Prop
  | n, .done v => n = if v = .processed then 1 else 0
  | n, .ask _ next => ∀ r, r ≠ .crashed → (next r).Accounted n
  | n, .handle _ next => ∀ r, (next r).Accounted (n + if r = .returned true then 1 else 0)

namespace DecisionRule

theorem accounted_incrementRetries (key : String) : (incrementRetries key).Accounted 0 := by
  intro r hr
  cases r with
  | returned _ => rfl
  | failed _ => rfl
  | crashed => exact absurd rfl hr

theorem accounted_startRetries (rule : DecisionRule) (key : String) :
    (rule.startRetries key).Accounted 0 := by
  intro r hr
  cases r with
  | returned stored =>
      cases stored
      · exact accounted_incrementRetries key
      · rfl
  | failed _ => rfl
  | crashed => exact absurd rfl hr

theorem accounted_afterFailure (rule : DecisionRule) (queue messageId : String) :
    (rule.afterFailure queue messageId).Accounted 0 := by
  intro r hr
  cases r with
  | returned counter =>
      cases counter with
      | none =>
          show Decision.Accounted 0 (if _ then _ else _)
          split
          · rfl
          · exact accounted_startRetries rule _
      | some text =>
          dsimp only
          split
          · rfl
          · split
            · rfl
            · exact accounted_incrementRetries _
  | failed _ => rfl
  | crashed => exact absurd rfl hr

theorem accounted_afterSuccess (rule : DecisionRule) (queue messageId : String) :
    (rule.afterSuccess queue messageId).Accounted 1 := by
  intro r hr
  cases r with
  | returned _ => rfl
  | failed _ => rfl
  | crashed => exact absurd rfl hr

theorem accounted_process (rule : DecisionRule) (queue messageId : String) (payload : Json.Value) :
    (rule.process queue messageId payload).Accounted 0 := by
  intro r
  cases r with
  | returned processed =>
      cases processed
      · exact accounted_afterFailure rule queue messageId
      · exact accounted_afterSuccess rule queue messageId
  | failed _ => rfl
  | crashed => rfl

theorem accounted_decide (rule : DecisionRule) (d : Delivery) : (rule.decide d).Accounted 0 := by
  unfold decide
  cases messageId? d with
  | none => rfl
  | some messageId =>
      cases Json.Value.ofPayload? d.payload with
      | none => rfl
      | some payload =>
          intro r hr
          cases r with
          | returned known =>
              cases known
              · exact accounted_process rule _ _ _
              · rfl
          | failed _ => rfl
          | crashed => exact absurd rfl hr

end DecisionRule

/-! ## What is seen during one decision -/

theorem Decision.settled_run (around : Surroundings σ) (p : Decision) (s : σ) (seen : Sightings) :
    (p.run around.watched (s, seen)).2.2.settled = seen.settled := by
  induction p generalizing s seen with
  | done v => rfl
  | ask call next ih =>
      refine (ih _ _ _).trans ?_
      cases (around.cache call s).1 <;> rfl
  | handle payload next ih => exact ih _ _ _

theorem Sightings.cacheCrashes_le_seeCache {α : Type} (seen : Sightings) (r : Reply CacheError α) :
    seen.cacheCrashes ≤ (seen.seeCache r).cacheCrashes := by
  cases r <;> simp [seeCache]

theorem Sightings.seeCache_of_ne {α : Type} (seen : Sightings) {r : Reply CacheError α}
    (hr : r ≠ .crashed) : seen.seeCache r = seen := by
  cases r with
  | returned _ => rfl
  | failed _ => rfl
  | crashed => exact absurd rfl hr

theorem Decision.cacheCrashes_le_run (around : Surroundings σ) (p : Decision) (s : σ)
    (seen : Sightings) :
    seen.cacheCrashes ≤ (p.run around.watched (s, seen)).2.2.cacheCrashes := by
  induction p generalizing s seen with
  | done v => exact Nat.le_refl _
  | ask call next ih => exact Nat.le_trans (seen.cacheCrashes_le_seeCache _) (ih _ _ _)
  | handle payload next ih => exact ih _ _ (seen.seeHandler _)

theorem Sightings.successes_seeHandler (seen : Sightings) (r : Reply HandlerError Bool) :
    (seen.seeHandler r).successes = seen.successes + if r = .returned true then 1 else 0 := by
  simp only [successes, seeHandler, List.count_append, List.count_singleton, beq_iff_eq]

theorem Decision.run_watched_ask (around : Surroundings σ) (call : CacheCall)
    (next : Reply CacheError call.Answer → Decision) (s : σ) (seen : Sightings) :
    (ask call next).run around.watched (s, seen) =
      (next (around.cache call s).1).run around.watched
        ((around.cache call s).2, seen.seeCache (around.cache call s).1) := rfl

theorem Decision.run_watched_handle (around : Surroundings σ) (payload : Json.Value)
    (next : Reply HandlerError Bool → Decision) (s : σ) (seen : Sightings) :
    (handle payload next).run around.watched (s, seen) =
      (next (around.handler payload s).1).run around.watched
        ((around.handler payload s).2, seen.seeHandler (around.handler payload s).1) := rfl

/-- Without a crash of the cache, a message counts as processed just if the handler said so. -/
theorem Decision.Accounted.successes_run {p : Decision} {n : Nat} (hp : p.Accounted n)
    (around : Surroundings σ) (s : σ) (seen : Sightings)
    (calm : (p.run around.watched (s, seen)).2.2.cacheCrashes = seen.cacheCrashes) :
    (p.run around.watched (s, seen)).2.2.successes + n =
      seen.successes + if (p.run around.watched (s, seen)).1 = .processed then 1 else 0 := by
  induction p generalizing n s seen with
  | done v => exact congrArg (seen.successes + ·) hp
  | ask call next ih =>
      rw [run_watched_ask] at calm ⊢
      have hle := (next (around.cache call s).1).cacheCrashes_le_run around (around.cache call s).2
        (seen.seeCache (around.cache call s).1)
      -- A crash now would still be counted at the end.
      have hr : (around.cache call s).1 ≠ .crashed := by
        intro hr
        rw [calm, hr] at hle
        exact Nat.not_succ_le_self _ hle
      rw [seen.seeCache_of_ne hr] at calm ⊢
      exact ih _ (hp _ hr) _ seen calm
  | handle payload next ih =>
      rw [run_watched_handle] at calm ⊢
      have := ih _ (hp (around.handler payload s).1) _ _ calm
      rw [seen.successes_seeHandler] at this
      omega

/-! ## Counters -/

/-- The counters of an engine agree with each other and with what was seen of its handlers. -/
structure Engine.InStep (e : Engine) (seen : Sightings) (deliveries : Nat) : Prop where
  total : e.stats.accepted + e.stats.retried + e.stats.rejected = deliveries
  duplicates_le : e.stats.duplicates ≤ e.stats.accepted
  accepted : seen.cacheCrashes = 0 → e.stats.accepted = e.stats.duplicates + seen.successes

theorem Engine.stats_count (e : Engine) (v : Verdict) :
    ((e.countVerdict v).countAction v.action).stats =
      ⟨e.stats.accepted + (if v.action = .accept then 1 else 0),
        e.stats.retried + (if v.action = .retry then 1 else 0),
        e.stats.rejected + (if v.action = .reject then 1 else 0),
        e.stats.duplicates + (if v = .duplicate then 1 else 0)⟩ := by
  cases v <;> rfl

/-- One delivery makes one call to its channel and keeps the counters in step. -/
theorem Engine.InStep.deliver {e : Engine} {seen : Sightings} {n : Nat} (h : e.InStep seen n)
    (o : Occasion σ) (s : σ) :
    let r := e.deliver o.watched.around o.watched.channel o.watched.delivery (s, seen)
    r.2.1.InStep r.2.2.2 (n + 1) ∧
      r.2.2.2.settled = seen.settled ++ [(o.delivery.tag, r.1.settlement)] := by
  have hs := (e.rule.decide o.delivery).settled_run o.around s seen
  have hc := (e.rule.decide o.delivery).cacheCrashes_le_run o.around s seen
  have ha := (e.rule.accounted_decide o.delivery).successes_run o.around s seen
  simp only [Engine.deliver, Engine.decide, Occasion.watched]
  generalize (e.rule.decide o.delivery).run o.around.watched (s, seen) = r at hs hc ha
  obtain ⟨v, s', seen'⟩ := r
  dsimp only at hs hc ha ⊢
  refine ⟨⟨?_, ?_, ?_⟩, ?_⟩
  · have := h.total
    rw [stats_count]
    cases v <;> simp [Verdict.action] <;> omega
  · have := h.duplicates_le
    rw [stats_count]
    cases v <;> simp [Verdict.action] <;> omega
  · intro calm
    have calm' : seen'.cacheCrashes = 0 := calm
    have := h.accepted (by omega)
    have := ha (by omega)
    show _ = _ + seen'.successes
    rw [stats_count]
    cases v <;> simp [Verdict.action] at this ⊢ <;> omega
  · simp only [Sightings.seeChannel, hs]

theorem Engine.InStep.deliverAll {e : Engine} {seen : Sightings} {n : Nat} (h : e.InStep seen n)
    (os : List (Occasion σ)) (s : σ) :
    let r := e.deliverAll (os.map Occasion.watched) (s, seen)
    r.2.1.InStep r.2.2.2 (n + os.length) ∧
      r.2.2.2.settled =
        seen.settled ++ List.zipWith (fun o a => (o.delivery.tag, a.settlement)) os r.1 := by
  induction os generalizing e seen n s with
  | nil => exact ⟨h, (List.append_nil _).symm⟩
  | cons o os ih =>
      obtain ⟨h₁, hs₁⟩ := h.deliver o s
      obtain ⟨h₂, hs₂⟩ := ih h₁
        (e.deliver o.watched.around o.watched.channel o.watched.delivery (s, seen)).2.2.1
      refine ⟨?_, ?_⟩
      · rw [List.length_cons, Nat.add_comm os.length, ← Nat.add_assoc]
        exact h₂
      · rw [hs₁, List.append_assoc] at hs₂
        exact hs₂

theorem Engine.length_deliverAll (e : Engine) (os : List (Occasion σ)) (s : σ) :
    (e.deliverAll os s).1.length = os.length := by
  induction os generalizing e s with
  | nil => rfl
  | cons o os ih => simp only [deliverAll, List.length_cons, ih]

/-- Every delivery is settled by one call to its channel, under its own tag and as the action says,
whatever the cache, the handler and the channel do; and the counters of a new engine add up. -/
theorem Engine.settles_each_once (rule : DecisionRule) (concurrency : Option Nat) (prefetch : Nat)
    (os : List (Occasion σ)) (s : σ) :
    let r := (Engine.mk rule concurrency prefetch .zero).deliverAll os s
    ∃ seen,
      (Engine.mk rule concurrency prefetch .zero).deliverAll (os.map Occasion.watched) (s, .none) =
        (r.1, r.2.1, r.2.2, seen) ∧
      r.1.length = os.length ∧
      seen.settled = List.zipWith (fun o a => (o.delivery.tag, a.settlement)) os r.1 ∧
      (∀ a : Action, (a.settlement = .ack ↔ a = .accept) ∧ (a.settlement = .requeue ↔ a = .retry) ∧
        (a.settlement = .reject ↔ a = .reject)) ∧
      r.2.1.stats.accepted + r.2.1.stats.retried + r.2.1.stats.rejected = os.length ∧
      r.2.1.stats.duplicates ≤ r.2.1.stats.accepted ∧
      (seen.cacheCrashes = 0 →
        r.2.1.stats.accepted - r.2.1.stats.duplicates = seen.handled.count (.returned true)) := by
  intro r
  obtain ⟨seen, hw⟩ := (Engine.mk rule concurrency prefetch .zero).deliverAll_watched os s .none
  have start : (Engine.mk rule concurrency prefetch .zero).InStep .none 0 :=
    ⟨rfl, Nat.le_refl _, fun _ => rfl⟩
  obtain ⟨h, hs⟩ := start.deliverAll os s
  rw [hw] at h hs
  refine ⟨seen, hw, length_deliverAll _ _ _, hs, ?_, ?_, h.duplicates_le, ?_⟩
  · intro a
    cases a <;> decide
  · simpa using h.total
  · intro calm
    have hacc := h.accepted calm
    exact Nat.sub_eq_of_eq_add (hacc.trans (Nat.add_comm _ _))

end DurableMessaging
