import DurableMessaging.Proofs.Consumer.Crew

/-!
# The deadlines of what an engine stores

An engine gives every entry it stores one of the two times to live of its rule. It adds to a counter
only right after the cache has told that the counter is there. Yet a counter may end between the two
calls, and then the addition puts up a new one that stays for good.
-/

namespace DurableMessaging

/-! ## Careful decisions -/

/-- The key that the reply to a call tells to be there. -/
def CacheCall.tells? : (call : CacheCall) → Reply CacheError call.Answer → Option String
  | .get key, .returned (some _) => some key
  | .setIfAbsent key .., .returned false => some key
  | _, _ => none

/-- The key that the next call of a decision adds to. -/
def Decision.adds? : Decision → Option String
  | .ask (.increment key) _ => some key
  | _ => none

namespace DecisionRule

/-- Whether what a call stores has the time to live that the rule says, and nothing is removed. -/
def Stamps (rule : DecisionRule) : CacheCall → Prop
  | .set _ _ ttl => ttl = some rule.dedupTtl
  | .setIfAbsent _ _ ttl => ttl = rule.retryTtl
  | .delete _ => False
  | _ => True

/-- Whether a decision stores things as the rule says, and adds to a counter only right after a
reply that tells it to be there. -/
def Careful (rule : DecisionRule) : Decision → Prop
  | .done _ => True
  | .ask call next => rule.Stamps call ∧
    ∀ r, rule.Careful (next r) ∧ ∀ key, (next r).adds? = some key → call.tells? r = some key
  | .handle _ next => ∀ r, rule.Careful (next r) ∧ (next r).adds? = none

theorem Careful.asks {rule : DecisionRule} {p : Decision} (h : rule.Careful p) :
    p.Asks rule.Stamps := by
  induction p with
  | done v => trivial
  | ask call next ih => exact ⟨h.1, fun r => ih r (h.2 r).1⟩
  | handle payload next ih => exact fun r => ih r (h r).1

variable (rule : DecisionRule)

theorem careful_incrementRetries (key : String) : rule.Careful (incrementRetries key) := by
  refine ⟨trivial, fun r => ?_⟩
  cases r <;> exact ⟨trivial, nofun⟩

theorem careful_startRetries (key : String) : rule.Careful (rule.startRetries key) := by
  refine ⟨rfl, fun r => ?_⟩
  cases r with
  | returned stored =>
      cases stored with
      | true => exact ⟨trivial, nofun⟩
      | false => exact ⟨rule.careful_incrementRetries key, fun _ h => h⟩
  | failed e => exact ⟨trivial, nofun⟩
  | crashed => exact ⟨trivial, nofun⟩

theorem careful_afterFailure (queue id : String) : rule.Careful (rule.afterFailure queue id) := by
  refine ⟨trivial, fun r => ?_⟩
  cases r with
  | returned counter =>
      cases counter with
      | none =>
          dsimp only
          split
          · exact ⟨trivial, nofun⟩
          · exact ⟨rule.careful_startRetries _, nofun⟩
      | some text =>
          dsimp only
          split
          · exact ⟨trivial, nofun⟩
          · split
            · exact ⟨trivial, nofun⟩
            · exact ⟨rule.careful_incrementRetries _, fun _ h => h⟩
  | failed e => exact ⟨trivial, nofun⟩
  | crashed => exact ⟨trivial, nofun⟩

theorem careful_afterSuccess (queue id : String) : rule.Careful (rule.afterSuccess queue id) := by
  refine ⟨rfl, fun r => ?_⟩
  cases r <;> exact ⟨trivial, nofun⟩

theorem careful_process (queue id : String) (payload : Json.Value) :
    rule.Careful (rule.process queue id payload) := by
  intro r
  cases r with
  | returned processed =>
      cases processed
      · exact ⟨rule.careful_afterFailure queue id, rfl⟩
      · exact ⟨rule.careful_afterSuccess queue id, rfl⟩
  | failed e => exact ⟨trivial, rfl⟩
  | crashed => exact ⟨trivial, rfl⟩

theorem careful_decide (d : Delivery) :
    rule.Careful (rule.decide d) ∧ (rule.decide d).adds? = none := by
  unfold decide
  cases messageId? d with
  | none => exact ⟨trivial, rfl⟩
  | some id =>
      cases Json.Value.ofPayload? d.payload with
      | none => exact ⟨trivial, rfl⟩
      | some payload =>
          refine ⟨⟨trivial, fun r => ?_⟩, rfl⟩
          cases r with
          | returned known =>
              cases known
              · exact ⟨rule.careful_process d.queue id payload, nofun⟩
              · exact ⟨trivial, nofun⟩
          | failed e => exact ⟨trivial, nofun⟩
          | crashed => exact ⟨trivial, nofun⟩

/-- Whether the times to live of a rule are positive and at most so long. -/
structure Within (rule : DecisionRule) (longest : Duration) : Prop where
  dedup : 0 < rule.dedupTtl ∧ rule.dedupTtl ≤ longest
  retry : ∀ ttl, rule.retryTtl = some ttl → 0 < ttl ∧ ttl ≤ longest

end DecisionRule

/-! ## What a call stores -/

/-- The entry that a call has stored. -/
def CallRecord.stored? : CallRecord → Option CacheEntry
  | ⟨time, .set _ value ttl, .ok _⟩ => some (Cache.entry time value ttl)
  | ⟨time, .setIfAbsent _ value ttl, .ok true⟩ => some (Cache.entry time value ttl)
  | _ => none

theorem CallRecord.exists_of_stored {r : CallRecord} {e : CacheEntry} (h : r.stored? = some e) :
    ∃ key value ttl, (r.call = .set key value ttl ∨ r.call = .setIfAbsent key value ttl) ∧
      e = Cache.entry r.time value ttl := by
  unfold stored? at h
  split at h
  · exact ⟨_, _, _, .inl rfl, (Option.some.inj h).symm⟩
  · exact ⟨_, _, _, .inr rfl, (Option.some.inj h).symm⟩
  · cases h

/-- Whether an entry ends later than an instant, but within so long of it. -/
def CacheEntry.EndsWithin (e : CacheEntry) (time : Instant) (longest : Duration) : Prop :=
  ∃ deadline, e.deadline = some deadline ∧ time < deadline ∧ deadline ≤ time + longest

theorem Cache.entry_endsWithin {now : Instant} {ttl longest : Duration}
    (bounds : 0 < ttl ∧ ttl ≤ longest) (soon : now + longest < Instant.limit) (value : String) :
    (Cache.entry now value (some ttl)).EndsWithin now longest := by
  have latest : now + ttl ≤ now + longest := Nat.add_le_add_left bounds.2 now
  have representable : now.deadline ttl = some (now + ttl) :=
    if_pos (Nat.lt_of_le_of_lt latest soon)
  exact ⟨now + ttl, representable, Nat.lt_add_of_pos_right bounds.1, latest⟩

namespace Bench

variable {rule : DecisionRule} {longest : Duration} {b : Bench}

theorem cache_ask_of_unavailable (h : b.cache.available = false) (call : CacheCall) :
    (b.ask call).2.cache = b.cache ∧ ∃ e, (b.ask call).1 = .error e := by
  unfold ask Cache.perform Cache.ensureAvailable
  rw [h]
  exact ⟨rfl, _, rfl⟩

/-- What a reply tells to be there is there, and the call has left it there. -/
theorem isSome_live?_of_tells {call : CacheCall} {key : String}
    (h : call.tells? (.ofExcept (b.ask call).1) = some key) :
    ((b.ask call).2.cache.live? b.now key).isSome = true := by
  have told : call.isGentle = true ∧ (b.cache.live? b.now key).isSome = true := by
    cases ha : b.cache.available with
    | false =>
        obtain ⟨-, e, he⟩ := cache_ask_of_unavailable ha call
        rw [he] at h
        cases call <;> cases h
    | true =>
        rw [b.ask_fst ha call] at h
        cases call with
        | get k | setIfAbsent k value ttl =>
            cases hl : b.cache.live? b.now k with
            | none =>
                rw [CacheCall.key, hl] at h
                cases h
            | some e =>
                rw [CacheCall.key, hl] at h
                cases h
                exact ⟨rfl, congrArg Option.isSome hl⟩
        | _ => cases h
  exact (b.cache.keeps_perform b.now told.1).isSome_live? (Nat.le_refl _) told.2

/-- At the instant of a call, what is there stays there. -/
theorem isSome_live?_ask (within : rule.Within longest) {call : CacheCall}
    (stamps : rule.Stamps call) {key : String} (h : (b.cache.live? b.now key).isSome = true) :
    ((b.ask call).2.cache.live? b.now key).isSome = true := by
  have gentle : call.isGentle = true → ((b.ask call).2.cache.live? b.now key).isSome = true :=
    fun hc => (b.cache.keeps_perform b.now hc).isSome_live? (Nat.le_refl _) h
  cases call with
  | delete k => exact stamps.elim
  | set k value ttl =>
      obtain rfl : ttl = some rule.dedupTtl := stamps
      by_cases hk : k = key
      · subst hk
        cases ha : b.cache.available with
        | false =>
            rw [(cache_ask_of_unavailable ha _).1]
            exact h
        | true =>
            have live : (Cache.entry b.now value (some rule.dedupTtl)).isLive b.now = true :=
              (Cache.isLive_entry ..).mpr (.inl (Nat.lt_add_of_pos_right within.dedup.1))
            rw [b.live?_ask ha (Nat.le_refl _), CacheCall.key, if_pos rfl]
            dsimp only [CacheCall.effect]
            rw [Option.filter_some, if_pos live]
            rfl
      · have other : (CacheCall.set k value (some rule.dedupTtl)).key ≠ key := hk
        exact (congrArg Option.isSome (b.cache.live?_perform_of_ne (Nat.le_refl _) other)).trans h
  | _ => exact gentle rfl

/-- Whether all that was stored ends soon enough, save counters that the rule keeps for good. -/
def Timely (rule : DecisionRule) (longest : Duration) (b : Bench) : Prop :=
  ∀ r ∈ b.journal, ∀ e, r.stored? = some e → e.EndsWithin r.time longest ∨
    (∃ key value, r.call = .setIfAbsent key value none) ∧ rule.retryTtl = none

theorem Timely.ask (h : b.Timely rule longest) (within : rule.Within longest)
    (soon : b.now + longest < Instant.limit) {call : CacheCall} (stamps : rule.Stamps call) :
    (b.ask call).2.Timely rule longest := by
  intro r hr e he
  rcases List.mem_append.mp hr with hr | hr
  · exact h r hr e he
  · obtain rfl := List.mem_singleton.mp hr
    obtain ⟨key, value, ttl, hcall, rfl⟩ := CallRecord.exists_of_stored he
    rcases hcall with rfl | rfl
    · obtain rfl : ttl = some rule.dedupTtl := stamps
      exact .inl (Cache.entry_endsWithin within.dedup soon value)
    · have stamps : ttl = rule.retryTtl := stamps
      cases ttl with
      | none => exact .inr ⟨⟨key, value, rfl⟩, stamps.symm⟩
      | some ttl => exact .inl (Cache.entry_endsWithin (within.retry ttl stamps.symm) soon value)

/-- What is live after a call has been there with the same deadline, or ends soon enough, or is a
counter that stays for good: because the rule says so, or because an increment has put it up. -/
theorem live?_ask_cases (within : rule.Within longest) (soon : b.now + longest < Instant.limit)
    {call : CacheCall} (stamps : rule.Stamps call) {key : String} {e : CacheEntry}
    (h : (b.ask call).2.cache.live? b.now key = some e) :
    (∃ old, b.cache.live? b.now key = some old ∧ old.deadline = e.deadline) ∨
      e.EndsWithin b.now longest ∨
      e.deadline = none ∧ (rule.retryTtl = none ∨
        call = .increment key ∧ b.cache.available = true ∧ b.cache.live? b.now key = none) := by
  cases ha : b.cache.available with
  | false =>
      rw [(cache_ask_of_unavailable ha call).1] at h
      exact .inl ⟨e, h, rfl⟩
  | true =>
      rw [b.live?_ask ha (Nat.le_refl _)] at h
      split at h
      · rename_i hkey
        subst hkey
        obtain ⟨h, -⟩ := Option.filter_eq_some_iff.mp h
        cases call with
        | «exists» k | get k => exact .inl ⟨e, h, rfl⟩
        | delete k => cases h
        | set k value ttl =>
            obtain rfl : ttl = some rule.dedupTtl := stamps
            cases h
            exact .inr (.inl (Cache.entry_endsWithin within.dedup soon value))
        | setIfAbsent k value ttl =>
            dsimp only [CacheCall.key] at h ⊢
            cases hl : b.cache.live? b.now k with
            | some old =>
                rw [hl] at h
                cases h
                exact .inl ⟨e, rfl, rfl⟩
            | none =>
                rw [hl] at h
                cases h
                have stamps : ttl = rule.retryTtl := stamps
                cases ttl with
                | none => exact .inr (.inr ⟨rfl, .inl stamps.symm⟩)
                | some ttl =>
                    have bounds := within.retry ttl stamps.symm
                    exact .inr (.inl (Cache.entry_endsWithin bounds soon value))
        | increment k =>
            dsimp only [CacheCall.key] at h ⊢
            cases hl : b.cache.live? b.now k with
            | some old =>
                rw [hl] at h
                refine .inl ⟨old, rfl, ?_⟩
                dsimp only [CacheCall.effect] at h
                split at h <;> cases h <;> rfl
            | none =>
                rw [hl] at h
                cases h
                exact .inr (.inr ⟨rfl, .inr ⟨rfl, rfl, rfl⟩⟩)
      · exact .inl ⟨e, h, rfl⟩

end Bench

/-! ## Crews -/

namespace Crew

/-- The counters that workers are about to add to are there, and will be for so long. -/
def KeepsCounters (s : Crew) (pause : Duration) : Prop :=
  ∀ worker d p key, s.inHand worker = some (d, p) → p.adds? = some key →
    (s.bench.cache.live? (s.bench.now + pause) key).isSome = true

/-- What workers have in hand is left of careful decisions. -/
theorem careful_run (e : Engine) (now : Instant) (c : Cache) (moves : List CrewMove) :
    (run e now c moves).Holds e.rule fun _ p => e.rule.Careful p :=
  holds_run e ⟨fun d => (e.rule.careful_decide d).1, fun h r => (h.2 r).1, fun h r => (h r).1⟩
    now c moves

namespace KeepsCounters

variable {rule : DecisionRule} {longest : Duration} {s : Crew}

/-- What a worker has in hand is replaced, and what is there stays there. -/
theorem hold (h : s.KeepsCounters 0) (worker : Nat) {x : Option (Delivery × Decision)}
    (bench : Bench) (hx : ∀ d p, x = some (d, p) → ∀ key, p.adds? = some key →
      (bench.cache.live? bench.now key).isSome = true)
    (stays : ∀ key, (s.bench.cache.live? s.bench.now key).isSome = true →
      (bench.cache.live? bench.now key).isSome = true) :
    KeepsCounters { s.hold worker x with bench } 0 := by
  intro w d p key hw adds
  rcases inHand_of_hold hw with hp | hp
  · exact hx d p hp key adds
  · exact stays key (h w d p key hp adds)

theorem proceed (h : s.KeepsCounters 0) (careful : s.Holds rule fun _ p => rule.Careful p)
    (within : rule.Within longest) (worker : Nat) (reply : Reply HandlerError Bool) :
    (s.proceed worker reply).KeepsCounters 0 := by
  unfold Crew.proceed
  split
  · exact h
  · exact h.hold worker s.bench (x := none) nofun fun _ live => live
  · rename_i d call next hw
    obtain ⟨stamps, rest⟩ := careful.rest _ _ _ hw
    refine h.hold worker _ ?_ fun key live => Bench.isSome_live?_ask within stamps live
    rintro _ _ ⟨⟩ key adds
    exact Bench.isSome_live?_of_tells ((rest (.ofExcept (s.bench.ask call).1)).2 key adds)
  · rename_i d payload next hw
    have quiet := (careful.rest _ _ _ hw reply).2
    refine h.hold worker _ ?_ fun key live => live
    rintro _ _ ⟨⟩ key adds
    cases quiet.symm.trans adds

theorem step (h : s.KeepsCounters 0) (careful : s.Holds rule fun _ p => rule.Careful p)
    (within : rule.Within longest) {m : CrewMove}
    (counters : ∀ pause, m = .wait pause → s.KeepsCounters pause) : (s.step m).KeepsCounters 0 := by
  cases m with
  | take worker d =>
      dsimp only [Crew.step]
      unfold Crew.take
      split
      · refine h.hold worker s.bench ?_ fun key live => live
        rintro _ _ ⟨⟩ key adds
        cases (s.engine.rule.careful_decide d).2.symm.trans adds
      · exact h
  | proceed worker reply => exact h.proceed careful within worker reply
  | wait pause => exact counters pause rfl
  | sweep =>
      exact fun w d p key hw adds =>
        (s.bench.cache.keeps_sweep s.bench.now).isSome_live? (Nat.le_refl _) (h w d p key hw adds)

end KeepsCounters

/-- Whatever workers do and however long it takes, what they store ends later than it was stored,
but within the longest time to live, save counters that the rule keeps for good. -/
theorem timely_run (e : Engine) {longest : Duration} (within : e.rule.Within longest)
    (now : Instant) (c : Cache) {moves : List CrewMove}
    (soon : (run e now c moves).bench.now + longest < Instant.limit) :
    (run e now c moves).bench.Timely e.rule longest := by
  refine bench_run (P := fun b => b.now + longest < Instant.limit → b.Timely e.rule longest)
    (fun d => (e.rule.careful_decide d).1.asks) ?_ ?_ ?_ ?_ ?_ moves soon
  · exact fun _ => nofun
  · exact fun b call stamps h soon => (h soon).ask within soon stamps
  · exact fun b x h => h
  · refine fun b d h soon => h (Nat.lt_of_le_of_lt ?_ soon)
    exact Nat.add_le_add_right (Nat.le_add_right b.now d) longest
  · exact fun b h => h

/-! ## Counters that come back -/

/-- A step puts up an entry: until then there was none under the key, or one with another deadline. -/
def PutsUp (s : Crew) (m : CrewMove) (key : String) (e : CacheEntry) : Prop :=
  (s.step m).bench.cache.live? (s.step m).bench.now key = some e ∧
    ∀ old, s.bench.cache.live? (s.step m).bench.now key = some old → old.deadline ≠ e.deadline

/-- A worker adds to a counter that is there no more. -/
def Revives (s : Crew) (m : CrewMove) (key : String) : Prop :=
  ∃ worker reply d next, m = .proceed worker reply ∧
    s.inHand worker = some (d, .ask (.increment key) next) ∧
    s.bench.cache.available = true ∧ s.bench.cache.live? s.bench.now key = none

section Revives

variable {rule : DecisionRule} {longest : Duration} {s : Crew} {m : CrewMove} {key : String}

/-- A step shows in the cache only if it is a call. -/
theorem live?_step (s : Crew) (m : CrewMove) (key : String) :
    (s.step m).bench.cache.live? (s.step m).bench.now key =
        s.bench.cache.live? (s.step m).bench.now key ∨
      ∃ worker reply d call next, m = .proceed worker reply ∧
        s.inHand worker = some (d, .ask call next) ∧ (s.step m).bench = (s.bench.ask call).2 := by
  cases m with
  | take worker d =>
      dsimp only [step]
      cases hw : s.inHand worker with
      | none =>
          rw [take_idle hw]
          exact .inl rfl
      | some x =>
          unfold take
          rw [hw]
          exact .inl rfl
  | proceed worker reply =>
      dsimp only [step]
      rcases hw : s.inHand worker with _ | ⟨d, v | ⟨call, next⟩ | ⟨payload, next⟩⟩
      · unfold proceed
        rw [hw]
        exact .inl rfl
      · rw [proceed_done hw]
        exact .inl rfl
      · exact .inr ⟨worker, reply, d, call, next, rfl, hw, congrArg (·.bench) (proceed_ask hw reply)⟩
      · rw [proceed_handle hw]
        exact .inl rfl
  | wait pause => exact .inl rfl
  | sweep => exact .inl (s.bench.cache.live?_sweep (Nat.le_refl s.bench.now) key)

theorem PutsUp.cases {e : CacheEntry} (h : s.PutsUp m key e)
    (careful : s.Holds rule fun _ p => rule.Careful p) (within : rule.Within longest)
    (soon : s.bench.now + longest < Instant.limit) :
    e.EndsWithin s.bench.now longest ∨
      e.deadline = none ∧ (rule.retryTtl = none ∨ s.Revives m key) := by
  obtain ⟨live, new⟩ := h
  rcases s.live?_step m key with same | ⟨worker, reply, d, call, next, rfl, hw, bench⟩
  · exact absurd rfl (new e (same.symm.trans live))
  · rw [bench] at live new
    have stamps := (careful.rest _ _ _ hw).1
    rcases Bench.live?_ask_cases within soon stamps live with ⟨old, hold, same⟩ | ends | stays
    · exact absurd same (new old hold)
    · exact .inl ends
    · refine .inr (stays.imp_right fun why => why.imp_right ?_)
      rintro ⟨rfl, available, gone⟩
      exact ⟨worker, reply, d, next, rfl, hw, available, gone⟩

theorem Revives.putsUp (h : s.Revives m key) : s.PutsUp m key ⟨"1", none⟩ := by
  obtain ⟨worker, reply, d, next, rfl, hw, available, gone⟩ := h
  have bench : (s.step (.proceed worker reply)).bench = (s.bench.ask (.increment key)).2 :=
    congrArg (·.bench) (proceed_ask hw reply)
  have now : (s.bench.ask (.increment key)).2.now = s.bench.now := rfl
  unfold PutsUp
  rw [bench, now, Bench.live?_ask available (Nat.le_refl _), CacheCall.key, if_pos rfl, gone]
  exact ⟨rfl, nofun⟩

/-- Where counters are to end, all that a step puts up ends soon enough, just if no counter comes
back. -/
theorem putsUp_endsWithin_iff (careful : s.Holds rule fun _ p => rule.Careful p)
    (within : rule.Within longest) (soon : s.bench.now + longest < Instant.limit)
    (retry : rule.retryTtl ≠ none) (m : CrewMove) :
    (∀ key e, s.PutsUp m key e → e.EndsWithin s.bench.now longest) ↔ ∀ key, ¬s.Revives m key := by
  constructor
  · intro ends key back
    obtain ⟨deadline, none, -⟩ := ends key _ back.putsUp
    cases none
  · intro none key e puts
    rcases puts.cases careful within soon with ends | ⟨-, keeps | back⟩
    · exact ends
    · exact absurd keeps retry
    · exact absurd back (none key)

end Revives

theorem keepsCounters_run (e : Engine) {longest : Duration} (within : e.rule.Within longest)
    (now : Instant) (c : Cache) {moves : List CrewMove}
    (counters : ∀ earlier pause, earlier ++ [.wait pause] <+: moves →
      (run e now c earlier).KeepsCounters pause) : (run e now c moves).KeepsCounters 0 := by
  induction moves using List.reverseRecOn with
  | nil => exact nofun
  | append_singleton moves m ih =>
      have there :=
        ih fun earlier pause he => counters earlier pause (he.trans (List.prefix_append _ _))
      rw [run_concat]
      refine there.step (careful_run e now c moves) within fun pause hm => ?_
      subst hm
      exact counters moves pause (List.prefix_refl _)

/-- A counter that comes back has ended in a pause, with a worker about to add to it. -/
theorem Revives.ended {e : Engine} {longest : Duration} (within : e.rule.Within longest)
    {now : Instant} {c : Cache} {moves : List CrewMove} {m : CrewMove} {key : String}
    (h : (run e now c moves).Revives m key) :
    ∃ earlier pause, earlier ++ [.wait pause] <+: moves ∧
      ¬(run e now c earlier).KeepsCounters pause := by
  refine Classical.byContradiction fun none => ?_
  have there : (run e now c moves).KeepsCounters 0 :=
    keepsCounters_run e within now c fun earlier pause before =>
      Classical.byContradiction fun ended => none ⟨earlier, pause, before, ended⟩
  obtain ⟨worker, reply, d, next, -, hw, -, gone⟩ := h
  have live := there worker d _ key hw rfl
  rw [show (run e now c moves).bench.now + 0 = (run e now c moves).bench.now from rfl, gone] at live
  cases live

end Crew

end DurableMessaging
