import DurableMessaging.Proofs.Consumer.Counter
import DurableMessaging.Proofs.Consumer.Crew

/-!
# Counting retries across workers

Several workers fail on one message at a time. A worker that found the counter below its bound will
move it later, so the counter may go past its bound, but only by those who are on their way: one for
each other worker.
-/

namespace DurableMessaging

def Delivery.isFor (d : Delivery) (queue messageId : String) : Bool :=
  d.queue == queue && DecisionRule.messageId? d == some messageId

theorem Delivery.isFor_iff {d : Delivery} {queue id : String} :
    d.isFor queue id = true ↔ d.queue = queue ∧ DecisionRule.messageId? d = some id := by
  simp only [isFor, Bool.and_eq_true, beq_iff_eq]

namespace Crew

/-- How many of the first `n` workers have something of a kind in hand. -/
def holding (s : Crew) (n : Nat) (P : Delivery × Decision → Bool) : Nat :=
  (List.range n).countP fun worker => (s.inHand worker).any P

/-- How often a message was to be tried again. -/
def retried (s : Crew) (queue id : String) : Nat :=
  s.decided.countP fun x => x.1.isFor queue id && x.2 == .retry

def onTheirWay (s : Crew) (n : Nat) (queue id : String) : Nat :=
  s.holding n fun x => x.1.isFor queue id && x.2.moves (CacheKey.retry queue id)

def aboutToRetry (s : Crew) (n : Nat) (queue id : String) : Nat :=
  s.holding n fun x => x.1.isFor queue id && x.2.isRetry

section Holding

variable {s : Crew} {worker n : Nat} {x : Option (Delivery × Decision)}
  {P : Delivery × Decision → Bool}

theorem holding_le (s : Crew) (n : Nat) (P : Delivery × Decision → Bool) : s.holding n P ≤ n :=
  Nat.le_trans List.countP_le_length (Nat.le_of_eq List.length_range)

theorem inHand_hold_cases {w : Nat} {y : Delivery × Decision}
    (h : (s.hold worker x).inHand w = some y) :
    (w = worker ∧ x = some y) ∨ s.inHand w = some y := by
  by_cases hw : w = worker
  · rw [hw, inHand_hold] at h
    exact .inl ⟨hw, h⟩
  · exact .inr ((Function.update_of_ne hw ..).symm.trans h)

theorem holding_hold_of_eq (h : x.any P = (s.inHand worker).any P) :
    (s.hold worker x).holding n P = s.holding n P := by
  refine List.countP_congr fun w _ => ?_
  by_cases hw : w = worker
  · rw [hw, inHand_hold, h]
  · rw [show (s.hold worker x).inHand w = s.inHand w from Function.update_of_ne hw ..]

theorem holding_hold (s : Crew) (x : Option (Delivery × Decision)) (P : Delivery × Decision → Bool)
    (hw : worker < n) :
    (s.hold worker x).holding n P + ((s.inHand worker).any P).toNat =
      s.holding n P + (x.any P).toNat := by
  induction n with
  | zero => cases hw
  | succ n ih =>
      have last (s : Crew) : s.holding (n + 1) P = s.holding n P + ((s.inHand n).any P).toNat := by
        unfold holding
        rw [List.range_succ, List.countP_append, List.countP_singleton]
        cases (s.inHand n).any P <;> rfl
      rw [last, last]
      by_cases hn : worker = n
      · subst hn
        have before : (s.hold worker x).holding worker P = s.holding worker P := by
          refine List.countP_congr fun w hw => ?_
          have hne : w ≠ worker := Nat.ne_of_lt (List.mem_range.mp hw)
          rw [show (s.hold worker x).inHand w = s.inHand w from Function.update_of_ne hne ..]
        rw [before, inHand_hold]
        omega
      · have same : (s.hold worker x).inHand n = s.inHand n := Function.update_of_ne (Ne.symm hn) ..
        have := ih (by omega)
        rw [same]
        omega

end Holding

/-! ## Turns -/

theorem proceed_turn {s : Crew} {worker : Nat} {d : Delivery} {p : Decision}
    (h : s.inHand worker = some (d, p)) (reply : Reply HandlerError Bool) :
    (∃ v, p = .done v ∧ s.proceed worker reply =
      { s.hold worker none with
        engine := s.engine.countVerdict v
        decided := s.decided ++ [(d, v.action)] }) ∨
    s.proceed worker reply =
      { s.hold worker (some (d, (p.turn d reply s.bench).1)) with
        bench := (p.turn d reply s.bench).2 } := by
  cases p with
  | done v => exact .inl ⟨v, rfl, proceed_done h reply⟩
  | ask call next => exact .inr (proceed_ask h reply)
  | handle payload next => exact .inr (proceed_handle h reply)

theorem bench_later (s : Crew) (m : CrewMove) : s.bench.Aside [] (s.step m).bench := by
  cases m with
  | take worker d =>
      dsimp only [step, take]
      split <;> exact .refl _ _
  | proceed worker reply =>
      dsimp only [step]
      cases h : s.inHand worker with
      | none =>
          unfold proceed
          rw [h]
          exact .refl _ _
      | some x =>
          rcases proceed_turn h reply with ⟨v, -, hs⟩ | hs <;> rw [hs]
          · exact .refl _ _
          · exact x.2.turn_later x.1 reply s.bench
  | wait d => exact ⟨Nat.le_add_right _ _, .refl _ _ _, [], (List.append_nil _).symm, nofun⟩
  | sweep => exact ⟨Nat.le_refl _, ⟨rfl, nofun⟩, [], (List.append_nil _).symm, nofun⟩

/-! ## What the counter tells -/

/-- What a worker may have in hand while the counter of a message was moved `k` times: only the first
workers deal with that message, and nobody has another one with the same key. -/
structure Fits (rule : DecisionRule) (queue id : String) (workers k worker : Nat)
    (x : Delivery × Decision) : Prop where
  mine : x.1.isFor queue id = true → worker < workers ∧ rule.Stage queue id k x.2
  other : x.1.isFor queue id = false → CacheKey.retry queue id ∉ DecisionRule.keys x.1

/-- The counter of a message tells how many of its deliveries were to be tried again, those included
whose worker has not yet said so. -/
structure Counts (rule : DecisionRule) (queue id : String) (workers : Nat) (s : Crew) : Prop where
  stands : s.bench.Stands rule (CacheKey.retry queue id)
  fits : ∀ worker x, s.inHand worker = some x →
    Fits rule queue id workers (s.bench.moved (CacheKey.retry queue id)) worker x
  bound : s.bench.moved (CacheKey.retry queue id) + s.onTheirWay workers queue id ≤
    if rule.maxRetries.toNat = 0 then 0 else rule.maxRetries.toNat + workers - 1
  retries : s.retried queue id + s.aboutToRetry workers queue id =
    s.bench.moved (CacheKey.retry queue id)

variable {rule : DecisionRule} {queue id : String} {workers k : Nat} {s : Crew} {worker : Nat}
  {d : Delivery} {p : Decision}

theorem Fits.mono {k' : Nat} {x : Delivery × Decision} (h : Fits rule queue id workers k worker x)
    (hk : k ≤ k') : Fits rule queue id workers k' worker x :=
  ⟨fun hx => ⟨(h.mine hx).1, (h.mine hx).2.mono hk⟩, h.other⟩

namespace Counts

theorem start (e : Engine) {now : Instant} {c : Cache} (available : c.available = true)
    (absent : c.live? now (CacheKey.retry queue id) = none) (workers : Nat) :
    (start e now c).Counts rule queue id workers := by
  have nobody (P : Delivery × Decision → Bool) : (Crew.start e now c).holding workers P = 0 :=
    List.countP_eq_zero.mpr fun _ _ => Bool.false_ne_true
  refine ⟨.start available absent, nofun, ?_, ?_⟩
  · rw [onTheirWay, nobody]
    exact Nat.zero_le _
  · rw [aboutToRetry, nobody]
    rfl

theorem fits_hold (h : s.Counts rule queue id workers) {x : Option (Delivery × Decision)}
    (hk : s.bench.moved (CacheKey.retry queue id) ≤ k)
    (hx : ∀ y, x = some y → Fits rule queue id workers k worker y) (w : Nat)
    (y : Delivery × Decision) (hw : (s.hold worker x).inHand w = some y) :
    Fits rule queue id workers k w y := by
  rcases inHand_hold_cases hw with ⟨rfl, hy⟩ | hw
  · exact hx y hy
  · exact (h.fits w y hw).mono hk

theorem take (h : s.Counts rule queue id workers) (same : s.engine.rule = rule)
    (mine : d.isFor queue id = true → worker < workers)
    (other : d.isFor queue id = false → CacheKey.retry queue id ∉ DecisionRule.keys d) :
    (s.take worker d).Counts rule queue id workers := by
  unfold Crew.take
  split
  · rename_i idle
    rw [same]
    have calm : (rule.decide d).moves (CacheKey.retry queue id) = false ∧
        (rule.decide d).isRetry = false := by
      unfold DecisionRule.decide
      split
      · exact ⟨rfl, rfl⟩
      · split <;> exact ⟨rfl, rfl⟩
    refine ⟨h.stands, h.fits_hold (Nat.le_refl _) ?_, ?_, ?_⟩
    · rintro _ ⟨⟩
      refine ⟨fun hfor => ?_, other⟩
      obtain ⟨hq, hid⟩ := Delivery.isFor_iff.mp hfor
      exact ⟨mine hfor, .check hq hid⟩
    · rw [onTheirWay, holding_hold_of_eq]
      · exact h.bound
      · rw [idle, Option.any_some, calm.1, Bool.and_false]
        rfl
    · rw [aboutToRetry, holding_hold_of_eq]
      · exact h.retries
      · rw [idle, Option.any_some, calm.2, Bool.and_false]
        rfl
  · exact h

/-- What a worker goes on to hold counts in place of what it held. -/
theorem exchange (h : s.Counts rule queue id workers) (held : s.inHand worker = some (d, p))
    (next : Option Decision) (Q : Decision → Bool) :
    (s.hold worker (next.map (d, ·))).holding workers (fun x => x.1.isFor queue id && Q x.2) +
        (d.isFor queue id && Q p).toNat =
      s.holding workers (fun x => x.1.isFor queue id && Q x.2) +
        (d.isFor queue id && next.any Q).toNat := by
  cases hfor : d.isFor queue id with
  | false =>
      rw [holding_hold_of_eq]
      · rfl
      · rw [held, Option.any_some, hfor]
        cases next with
        | none => rfl
        | some p' => exact congrArg (· && Q p') hfor
  | true =>
      have := holding_hold s (next.map (d, ·)) (fun x => x.1.isFor queue id && Q x.2)
        ((h.fits worker _ held).mine hfor).1
      rw [held, Option.any_some, hfor] at this
      rw [this]
      cases next with
      | none => rfl
      | some p' => exact congrArg (fun b => _ + (b && Q p').toNat) hfor

theorem conclude (h : s.Counts rule queue id workers) {v : Verdict}
    (held : s.inHand worker = some (d, .done v)) :
    Counts rule queue id workers
      { s.hold worker none with
        engine := s.engine.countVerdict v
        decided := s.decided ++ [(d, v.action)] } := by
  have moving := h.exchange held none (·.moves (CacheKey.retry queue id))
  have retrying := h.exchange held none (·.isRetry)
  have said : (v.action == .retry) = (Decision.done v).isRetry := by cases v <;> rfl
  have unmoved : (Decision.done v).moves (CacheKey.retry queue id) = false := rfl
  simp only [Option.any_none, unmoved, Bool.and_false, Bool.toNat_false, Nat.add_zero]
    at moving retrying
  refine ⟨h.stands, h.fits_hold (Nat.le_refl _) nofun, ?_, ?_⟩
  · exact Nat.le_trans (Nat.le_of_eq (congrArg (s.bench.moved _ + ·) moving)) h.bound
  · have retries := h.retries
    change List.countP _ (s.decided ++ [_]) + (s.hold worker none).holding workers _ =
      s.bench.moved _
    rw [List.countP_append, List.countP_singleton, said, ← retries, aboutToRetry, ← retrying, retried]
    cases d.isFor queue id && (Decision.done v).isRetry
    · rfl
    · simp only [if_true, Bool.toNat_true, Option.map_none]
      omega

/-- A turn of a decision about the message, or about one that has another key. -/
theorem turn (h : s.Counts rule queue id workers) (sound : s.Sound rule)
    (held : s.inHand worker = some (d, p)) (reply : Reply HandlerError Bool)
    (unexpired : (p.turn d reply s.bench).2.Unexpired rule (CacheKey.retry queue id))
    (fine : ∀ r ∈ (p.turn d reply s.bench).2.journal,
      r.call.key = CacheKey.retry queue id → r.answer.isOk = true) :
    Counts rule queue id workers
      { s.hold worker (some (d, (p.turn d reply s.bench).1)) with
        bench := (p.turn d reply s.bench).2 } := by
  have fits := h.fits worker _ held
  have bound := h.bound
  have retries := h.retries
  have moving := h.exchange held (some (p.turn d reply s.bench).1)
    (·.moves (CacheKey.retry queue id))
  have retrying := h.exchange held (some (p.turn d reply s.bench).1) (·.isRetry)
  simp only [Option.map_some, Option.any_some] at moving retrying
  unfold onTheirWay at bound
  unfold aboutToRetry at retries
  cases hfor : d.isFor queue id with
  | false =>
      have aside : s.bench.Aside [CacheKey.retry queue id] (p.turn d reply s.bench).2 := by
        refine p.turn_aside d reply s.bench ((sound.asks _ _ _ held).mono fun call hcall hk => ?_)
        exact fits.other hfor (List.mem_singleton.mp hk ▸ hcall.1)
      obtain ⟨stands, same⟩ := h.stands.aside aside
      simp only [hfor, Bool.false_and, Bool.toNat_false, Nat.add_zero] at moving retrying
      rw [← moving, ← same] at bound
      rw [← retrying, ← same] at retries
      refine ⟨stands, h.fits_hold (Nat.le_of_eq same.symm) ?_, bound, retries⟩
      rintro _ ⟨⟩
      exact ⟨fun hmine => absurd hmine (Bool.eq_false_iff.mp hfor), fits.other⟩
  | true =>
      obtain ⟨here, stage⟩ : worker < workers ∧
          rule.Stage queue id (s.bench.moved (CacheKey.retry queue id)) p := fits.mine hfor
      obtain ⟨stands, stage', course⟩ := stage.turn h.stands unexpired fine
      obtain ⟨more, said, way⟩ := course.balance
      simp only [hfor, Bool.true_and] at moving retrying
      refine ⟨stands, h.fits_hold more ?_, ?_, ?_⟩
      · rintro _ ⟨⟩
        exact ⟨fun _ => ⟨here, stage'⟩, fun hother => absurd hfor (Bool.eq_false_iff.mp hother)⟩
      · have few := holding_le (s.hold worker (some (d, (p.turn d reply s.bench).1))) workers
          fun x => x.1.isFor queue id && x.2.moves (CacheKey.retry queue id)
        change (p.turn d reply s.bench).2.moved _ + Crew.holding (s.hold worker _) workers _ ≤ _
        rcases way with way | ⟨way, below⟩
        · omega
        · rw [if_neg (by omega)]
          omega
      · change s.retried queue id + Crew.holding (s.hold worker _) workers _ =
          (p.turn d reply s.bench).2.moved _
        omega

theorem step (h : s.Counts rule queue id workers) (sound : s.Sound rule) {m : CrewMove}
    (takes : ∀ worker d, m = .take worker d → if d.isFor queue id then worker < workers
      else CacheKey.retry queue id ∉ DecisionRule.keys d)
    (unexpired : (s.step m).bench.Unexpired rule (CacheKey.retry queue id))
    (fine : ∀ r ∈ (s.step m).bench.journal,
      r.call.key = CacheKey.retry queue id → r.answer.isOk = true) :
    (s.step m).Counts rule queue id workers := by
  cases m with
  | take worker d =>
      have htake := takes worker d rfl
      refine h.take sound.rule_eq (fun hfor => ?_) (fun hfor => ?_)
      · rwa [if_pos hfor] at htake
      · rwa [if_neg (Bool.eq_false_iff.mp hfor)] at htake
  | proceed worker reply =>
      dsimp only [Crew.step] at unexpired fine ⊢
      cases held : s.inHand worker with
      | none =>
          unfold Crew.proceed
          rw [held]
          exact h
      | some x =>
          obtain ⟨d, p⟩ := x
          rcases proceed_turn held reply with ⟨v, rfl, hs⟩ | hs
          · rw [hs]
            exact h.conclude held
          · rw [hs] at unexpired fine ⊢
            exact h.turn sound held reply unexpired fine
  | wait d =>
      have later : s.bench.Aside [CacheKey.retry queue id] (s.bench.wait d) :=
        ⟨Nat.le_add_right _ _, .refl _ _ _, [], (List.append_nil _).symm, nofun⟩
      exact ⟨(h.stands.aside later).1, h.fits, h.bound, h.retries⟩
  | sweep =>
      have swept : s.bench.Aside [CacheKey.retry queue id]
          { s.bench with cache := (s.bench.cache.purge s.bench.now).2 } :=
        ⟨Nat.le_refl _, ⟨rfl, fun key _ later hn => Cache.live?_sweep _ hn key⟩, [],
          (List.append_nil _).symm, nofun⟩
      exact ⟨(h.stands.aside swept).1, h.fits, h.bound, h.retries⟩

end Counts

theorem counts_run (e : Engine) {now : Instant} {c : Cache} (available : c.available = true)
    (absent : c.live? now (CacheKey.retry queue id) = none) {moves : List CrewMove}
    (takes : ∀ worker d, .take worker d ∈ moves → if d.isFor queue id then worker < workers
      else CacheKey.retry queue id ∉ DecisionRule.keys d)
    (unexpired : (run e now c moves).bench.Unexpired e.rule (CacheKey.retry queue id))
    (fine : ∀ r ∈ (run e now c moves).bench.journal,
      r.call.key = CacheKey.retry queue id → r.answer.isOk = true) :
    (run e now c moves).Counts e.rule queue id workers := by
  induction moves using List.reverseRecOn with
  | nil => exact .start e available absent workers
  | append_singleton moves m ih =>
      rw [run_concat] at unexpired fine ⊢
      have later := (run e now c moves).bench_later m
      obtain ⟨calls, hj, -⟩ := later.journal
      refine (ih ?_ (unexpired.earlier later) ?_).step (sound_run e now c moves) ?_ unexpired fine
      · exact fun worker d hm => takes worker d (List.mem_append_left _ hm)
      · exact fun r hr => fine r (hj ▸ List.mem_append_left _ hr)
      · rintro worker d rfl
        exact takes worker d (List.mem_append_right _ (List.mem_singleton_self _))

/-- The retry counter of a message stands at the number of its deliveries that were to be tried again,
also if several workers fail on it at a time and find no counter. It goes past its bound at most by
the number of the other workers, and who reads it from the bound on rejects. -/
theorem counts_every_retry (e : Engine) (now : Instant) (c : Cache) (queue id : String)
    (workers : Nat) (moves : List CrewMove) (available : c.available = true)
    (absent : c.live? now (CacheKey.retry queue id) = none)
    (takes : ∀ worker d, .take worker d ∈ moves → if d.isFor queue id then worker < workers
      else CacheKey.retry queue id ∉ DecisionRule.keys d) :
    let key := CacheKey.retry queue id
    let bound := e.rule.maxRetries.toNat
    let s := run e now c moves
    s.bench.Unexpired e.rule key →
    (∀ r ∈ s.bench.journal, r.call.key = key → r.answer.isOk = true) →
      s.bench.counter? key = some (s.bench.moved key : Int) ∧
      s.retried queue id + s.aboutToRetry workers queue id = s.bench.moved key ∧
      s.bench.moved key ≤ bound + workers - 1 ∧ (bound = 0 → s.bench.moved key = 0) ∧
      ∀ worker d p reply, s.inHand worker = some (d, p) → p.reads key = true →
        bound ≤ s.bench.moved key →
          let read := s.proceed worker reply
          read.bench.cache = s.bench.cache ∧
          ∀ (more : List CrewMove) (reply' : Reply HandlerError Bool),
            (∀ m ∈ more, m.isBy worker = false) →
              let later := more.foldl step read
              (later.proceed worker reply').decided = later.decided ++ [(d, .reject)] := by
  intro key bound s unexpired fine
  have counts : s.Counts e.rule queue id workers := counts_run e available absent takes unexpired fine
  have few : s.bench.moved key + s.onTheirWay workers queue id ≤
      if bound = 0 then 0 else bound + workers - 1 := counts.bound
  refine ⟨counts.stands.counter?_eq unexpired, counts.retries, ?_, fun none => ?_, ?_⟩
  · split at few <;> omega
  · rw [if_pos none] at few
    omega
  · intro worker d p reply held reads full read
    have fits := counts.fits worker _ held
    have asks := (sound_run e now c moves).asks _ _ _ held
    have mine : d.isFor queue id = true := by
      by_contra hother
      cases p with
      | ask call next =>
          cases call with
          | get k =>
              rw [beq_iff_eq.mp reads] at asks
              exact fits.other (Bool.eq_false_iff.mpr hother) asks.1.1
          | _ => cases reads
      | _ => cases reads
    obtain rfl : p = e.rule.afterFailure queue id := (fits.mine mine).2.eq_afterFailure reads
    have rejects := DecisionRule.turn_afterFailure d reply counts.stands unexpired
    rw [if_pos full] at rejects
    have hread : read = _ := proceed_ask held reply
    have holds : read.inHand worker = some (d, .done .reject) := by
      rw [hread]
      exact (inHand_hold ..).trans (congrArg (fun p => some (d, p)) rejects)
    refine ⟨?_, fun more reply' aside => ?_⟩
    · rw [hread]
      dsimp only [Bench.ask]
      rw [Cache.perform_of_available counts.stands.available]
      rfl
    · dsimp only
      rw [proceed_done (inHand_steps holds aside)]
      rfl

/-- Two workers find no counter, so that a message is tried again twice though once was the bound;
whoever reads the counter then rejects it. -/
theorem counts_past_bound :
    let message : Delivery := ⟨1, "orders", "", "", some "abc", "1".toUTF8, false⟩
    let failed (worker : Nat) : CrewMove := .proceed worker (.returned false)
    let moves : List CrewMove :=
      [.take 0 message, .take 1 message, failed 0, failed 0, failed 1, failed 0, failed 1, failed 1,
        failed 0, failed 1, failed 0, failed 1, failed 1, .take 0 message, failed 0, failed 0]
    let s := run (Engine.standard.withMaxRetries 1) 0 .empty moves
    s.bench.counter? "retry_orders_abc" = some 2 ∧ s.retried "orders" "abc" = 2 ∧
      ((s.proceed 0 (.returned false)).proceed 0 (.returned false)).decided =
        (s.proceed 0 (.returned false)).decided ++ [(message, .reject)] := by
  intro message failed moves s
  have takes : ∀ worker d, CrewMove.take worker d ∈ moves → if d.isFor "orders" "abc" then worker < 2
      else CacheKey.retry "orders" "abc" ∉ DecisionRule.keys d := by
    intro worker d h
    have mine : message.isFor "orders" "abc" = true := by decide +kernel
    simp only [moves, failed, List.mem_cons, CrewMove.take.injEq, reduceCtorEq, List.not_mem_nil,
      or_false, false_or] at h
    rcases h with ⟨rfl, rfl⟩ | ⟨rfl, rfl⟩ | ⟨rfl, rfl⟩ <;> rw [if_pos mine] <;> decide
  obtain ⟨counter, retried, -, -, rejects⟩ := counts_every_retry (Engine.standard.withMaxRetries 1) 0
    .empty "orders" "abc" 2 moves rfl rfl takes (by decide +kernel) (by decide +kernel)
  have two : s.bench.moved (CacheKey.retry "orders" "abc") = 2 := by decide +kernel
  have idle : s.aboutToRetry 2 "orders" "abc" = 0 := by decide +kernel
  have reads : (s.inHand 0).any (fun x => x.1 == message && x.2.reads "retry_orders_abc") = true := by
    decide +kernel
  refine ⟨counter.trans (congrArg (fun k : Nat => some (k : Int)) two), ?_, ?_⟩
  · exact (Nat.add_zero _).symm.trans ((idle ▸ retried).trans two)
  · cases held : s.inHand 0 with
    | none =>
        rw [held] at reads
        cases reads
    | some x =>
        rw [held, Option.any_some, Bool.and_eq_true, beq_iff_eq] at reads
        rw [← reads.1]
        exact (rejects 0 x.1 x.2 (.returned false) held reads.2 (by decide +kernel)).2 []
          (.returned false) nofun

end Crew

end DurableMessaging
