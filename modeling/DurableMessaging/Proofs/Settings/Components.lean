import DurableMessaging.Proofs.Broker.Declaring
import DurableMessaging.Proofs.Consumer.Deadlines
import DurableMessaging.Proofs.Store.Settling
import DurableMessaging.Resend.Pass
import DurableMessaging.Sender.Basic

/-!
# What checked settings are good for

Settings that a text gives and that pass their checks build parts that work: a consumer starts on
any broker that can declare its target, what its workers store ends within a year, and rows are
resent in pages of the size that was asked for and settled as a sender settles them. But a retry
counter may end just before a worker adds to it, and the one that comes in its place never ends.
-/

namespace DurableMessaging

/-! ## Checks -/

theorem ite_error_eq_ok {ε α : Type} {p : Prop} [Decidable p] {e : ε} {x : Except ε α} {a : α} :
    (if p then .error e else x) = .ok a ↔ ¬p ∧ x = .ok a := by
  by_cases hp : p
  · rw [if_pos hp]
    exact ⟨nofun, fun h => absurd hp h.1⟩
  · rw [if_neg hp]
    exact ⟨fun h => ⟨hp, h⟩, fun h => h.2⟩

theorem bind_eq_ok_iff {ε α β : Type} {x : Except ε α} {f : α → Except ε β} {b : β} :
    x >>= f = .ok b ↔ ∃ a, x = .ok a ∧ f a = .ok b := by
  cases x with
  | error e => exact ⟨nofun, nofun⟩
  | ok a => exact ⟨fun h => ⟨a, rfl, h⟩, fun ⟨_, ha, h⟩ => Except.ok.inj ha ▸ h⟩

theorem toNat_pos {n : UInt64} (h : n ≠ 0) : 0 < n.toNat :=
  Nat.pos_of_ne_zero fun hn => h (UInt64.toNat_inj.mp hn)

theorem ResendSettings.check_eq_ok_iff {s : ResendSettings} :
    s.check = .ok () ↔ s.intervalMillis ≠ 0 ∧ s.batchSize ≠ 0 := by
  unfold check
  rw [ite_error_eq_ok, ite_error_eq_ok, eq_self, and_true]

/-- What the checks of consumer settings ask for. -/
structure ConsumerSettings.Admissible (s : ConsumerSettings) : Prop where
  concurrency : s.concurrency ≠ some 0
  prefetch : s.prefetch ≠ 0
  dedup : s.dedupTtlSeconds ≠ 0 ∧ s.dedupTtlSeconds.toNat ≤ maxTtlSeconds
  retry : ∀ n, s.retryTtlSeconds = some n → n ≠ 0 ∧ n.toNat ≤ maxTtlSeconds

theorem ConsumerSettings.check_eq_ok_iff {s : ConsumerSettings} :
    s.check = .ok () ↔ s.Admissible := by
  have retry : ¬(s.retryTtlSeconds.any fun n => n = 0 ∨ maxTtlSeconds < n.toNat) = true ↔
      ∀ n, s.retryTtlSeconds = some n → n ≠ 0 ∧ n.toNat ≤ maxTtlSeconds := by
    cases s.retryTtlSeconds <;> simp
  unfold check
  simp only [ite_error_eq_ok, retry, and_true, Nat.not_lt]
  exact ⟨fun ⟨hc, hp, hd, hl, hr⟩ => ⟨hc, hp, ⟨hd, hl⟩, hr⟩,
    fun ⟨hc, hp, ⟨hd, hl⟩, hr⟩ => ⟨hc, hp, hd, hl, hr⟩⟩

theorem Settings.check_eq_ok_iff {s : Settings} :
    s.check = .ok () ↔ s.resend.check = .ok () ∧ s.consumer.check = .ok () := by
  unfold check
  rw [bind_eq_ok_iff]
  exact ⟨fun ⟨_, hr, hc⟩ => ⟨hr, hc⟩, fun ⟨hr, hc⟩ => ⟨(), hr, hc⟩⟩

theorem Settings.load_eq_ok_iff {text : String} {s : Settings} :
    load text = .ok s ↔ read? text = some s ∧ s.check = .ok () := by
  unfold load
  cases read? text with
  | none => exact ⟨nofun, nofun⟩
  | some found =>
      dsimp only
      rw [bind_eq_ok_iff]
      constructor
      · rintro ⟨_, checked, ⟨⟩⟩
        exact ⟨rfl, checked⟩
      · rintro ⟨⟨⟩, checked⟩
        exact ⟨(), checked, rfl⟩

theorem Settings.load_of_admissible {text : String} {s : Settings} (read : read? text = some s)
    (resend : s.resend.intervalMillis ≠ 0 ∧ s.resend.batchSize ≠ 0)
    (consumer : s.consumer.Admissible) : load text = .ok s :=
  load_eq_ok_iff.mpr ⟨read, check_eq_ok_iff.mpr
    ⟨ResendSettings.check_eq_ok_iff.mpr resend, ConsumerSettings.check_eq_ok_iff.mpr consumer⟩⟩

/-! ## Consumers -/

/-- A consumer can be started on a queue that is there, with workers that may hold something. -/
theorem Broker.exists_startConsumer_iff {κ : Type} {b : Broker κ} {spec : ConsumerSpec} :
    (∃ started, b.startConsumer spec = .ok started) ↔ b.available = true ∧ spec.concurrency ≠ 0 ∧
      spec.prefetch ≠ 0 ∧ b.queues.contains spec.queue = true := by
  unfold startConsumer ensureAvailable
  cases b.available with
  | false => exact ⟨nofun, nofun⟩
  | true =>
      by_cases hc : spec.concurrency = 0
      · rw [if_pos hc]
        exact ⟨nofun, fun h => absurd hc h.2.1⟩
      · by_cases hp : spec.prefetch = 0
        · rw [if_neg hc, if_pos hp]
          exact ⟨nofun, fun h => absurd hp h.2.2.1⟩
        · rw [if_neg hc, if_neg hp]
          cases b.queues.contains spec.queue with
          | false => exact ⟨nofun, nofun⟩
          | true => exact ⟨fun _ => ⟨rfl, hc, hp, rfl⟩, fun _ => ⟨_, rfl⟩⟩

/-- An engine starts its workers on any target whose exchange is not of another type. -/
theorem Engine.consume_inMemory {ρ : Type} {e : Engine} {target : ConsumeTarget} {concurrency : Nat}
    {d : Deployment ρ} (available : d.broker.available = true)
    (fits : ∀ known, d.broker.exchanges.get? target.exchange = some known →
      known = target.exchangeType)
    (hc : concurrency ≠ 0) (hp : e.prefetch ≠ 0) :
    ∃ workers d', e.consume .inMemory target concurrency d = (.returned workers, d') ∧
      workers.length = concurrency ∧
      d'.broker.workers = d.broker.workers ++ workers.map (⟨·, target.queue, e.prefetch⟩) := by
  have free : d.broker.exchanges.get? target.exchange = none ∨
      d.broker.exchanges.get? target.exchange = some target.exchangeType := by
    cases hx : d.broker.exchanges.get? target.exchange with
    | none => exact .inl rfl
    | some known => exact .inr (congrArg some (fits known hx))
  obtain ⟨b, hb⟩ := (Broker.exists_declare_iff (t := target.topology)).mpr ⟨available, free⟩
  have same := Broker.declare_same hb
  have reachable : b.available = true := by
    rw [same]
    exact available
  have queue : b.queues.contains target.queue = true := by
    unfold Registry.contains
    rw [(Broker.queue_of_declare hb rfl).2]
    rfl
  have started : ∃ started, b.startConsumer ⟨target.queue, concurrency, e.prefetch⟩ = .ok started :=
    Broker.exists_startConsumer_iff.mpr ⟨reachable, hc, hp, queue⟩
  obtain ⟨⟨workers, b'⟩, hs⟩ := started
  obtain ⟨-, -, ids, after⟩ := Broker.startConsumer_eq_ok hs
  refine ⟨workers, { d with broker := b' }, ?_, ?_, ?_⟩
  · unfold consume Gateway.inMemory
    dsimp only
    rw [hb]
    dsimp only
    rw [hs]
  · rw [ids, List.length_range']
  · dsimp only
    rw [after, same]

namespace ConsumerSettings.Admissible

variable {s : ConsumerSettings}

/-- The longest time to live that the checks let pass. -/
theorem within (h : s.Admissible) :
    (Engine.ofSettings s).rule.Within (.ofSeconds maxTtlSeconds) := by
  have bounds : ∀ n : UInt64, n ≠ 0 ∧ n.toNat ≤ maxTtlSeconds →
      0 < Duration.ofSeconds n.toNat ∧ Duration.ofSeconds n.toNat ≤ .ofSeconds maxTtlSeconds := by
    rintro n ⟨positive, short⟩
    exact ⟨Nat.mul_pos (toNat_pos positive) (by decide), Nat.mul_le_mul_right _ short⟩
  refine ⟨bounds _ h.dedup, fun ttl httl => ?_⟩
  obtain ⟨n, hn, rfl⟩ := Option.map_eq_some_iff.mp httl
  exact bounds n (h.retry n hn)

theorem prefetch_eq (h : s.Admissible) : (Engine.ofSettings s).prefetch = s.prefetch.toNat :=
  Nat.max_eq_left (toNat_pos h.prefetch)

theorem concurrency_ne_zero (h : s.Admissible) {processors : Nat} (hp : 0 < processors) :
    (Engine.ofSettings s).concurrency.getD processors ≠ 0 := by
  show (s.concurrency.map (·.toNat)).getD processors ≠ 0
  cases hc : s.concurrency with
  | none => exact Nat.ne_of_gt hp
  | some n =>
      have positive : n ≠ 0 := fun hn => h.concurrency (hc.trans (congrArg some hn))
      exact Nat.ne_of_gt (toNat_pos positive)

end ConsumerSettings.Admissible

/-! ## Rows -/

theorem Deployment.policy?_addSettler {ρ : Type} (d : Deployment ρ) (policy : AckPolicy) :
    (d.addSettler policy).2.policy? (d.addSettler policy).1 = some policy := by
  unfold policy? addSettler
  rw [List.getElem?_concat_length]
  rfl

/-! ## Settings -/

namespace Settings

/-- Settings from a text, once checked, build parts that work. Workers start, as many as asked for,
on every target that the broker can declare. As long as a year from the present can be represented,
what workers store ends later, but within a year, save retry counters that are to stay for good.
Where counters are to end, too, all that comes up in the cache ends so, unless a worker adds to a
counter that has ended since it was found: what comes up then stays for good. A resender has pages of
just the size asked for, and settles rows as a sender with the same settings does. -/
theorem load_builds_working_parts {text : String} {s : Settings} (h : load text = .ok s) :
    (∀ {ρ : Type} (target : ConsumeTarget) (processors : Nat) (d : Deployment ρ), 0 < processors →
      d.broker.available = true →
      (∀ known, d.broker.exchanges.get? target.exchange = some known →
        known = target.exchangeType) →
      let e := Engine.ofSettings s.consumer
      ∃ workers d', e.consume .inMemory target (e.concurrency.getD processors) d =
          (.returned workers, d') ∧
        workers.length = (s.consumer.concurrency.map (·.toNat)).getD processors ∧
        d'.broker.workers =
          d.broker.workers ++ workers.map (⟨·, target.queue, s.consumer.prefetch.toNat⟩)) ∧
    (∀ now c moves,
      let e := Engine.ofSettings s.consumer
      let year := Duration.ofSeconds maxTtlSeconds
      let crew := Crew.run e now c moves
      crew.bench.now + year < Instant.limit →
      crew.bench.Timely e.rule year ∧
        (s.consumer.retryTtlSeconds ≠ none → ∀ m,
          (∀ key x, crew.PutsUp m key x → x.EndsWithin crew.bench.now year) ↔
            ∀ key, ¬crew.Revives m key) ∧
        ∀ m key, crew.Revives m key → crew.PutsUp m key ⟨"1", none⟩ ∧
          ∃ earlier pause, earlier ++ [.wait pause] <+: moves ∧
            ¬(Crew.run e now c earlier).KeepsCounters pause) ∧
    ∀ {ρ : Type} (d d' : Deployment ρ),
      let (resender, resending) := Resender.ofSettings s d
      let (sender, sending) := Sender.ofSettings s.sender d'
      resender.batchSize = s.resend.batchSize.toNat ∧
        resending.policy? resender.settler = some s.sender.ackPolicy ∧
        sending.policy? sender.settler = some s.sender.ackPolicy := by
  obtain ⟨resend, consumer⟩ := check_eq_ok_iff.mp (load_eq_ok_iff.mp h).2
  have admissible := ConsumerSettings.check_eq_ok_iff.mp consumer
  have batch := (ResendSettings.check_eq_ok_iff.mp resend).2
  refine ⟨fun target processors d hp available fits => ?_, fun now c moves => ?_, fun d d' => ?_⟩
  · have prefetch := admissible.prefetch_eq
    have holds : (Engine.ofSettings s.consumer).prefetch ≠ 0 := by
      rw [prefetch]
      exact Nat.ne_of_gt (toNat_pos admissible.prefetch)
    rw [← prefetch]
    exact Engine.consume_inMemory available fits (admissible.concurrency_ne_zero hp) holds
  · intro e year crew soon
    have careful := Crew.careful_run e now c moves
    refine ⟨Crew.timely_run e admissible.within now c soon, fun ends m => ?_, fun m key back => ?_⟩
    · have retry : e.rule.retryTtl ≠ none := fun none => ends (Option.map_eq_none_iff.mp none)
      exact Crew.putsUp_endsWithin_iff careful admissible.within soon retry m
    · exact ⟨back.putsUp, back.ended admissible.within⟩
  · exact ⟨Nat.max_eq_left (toNat_pos batch), d.policy?_addSettler _, d'.policy?_addSettler _⟩

/-- Records are kept for the longest time and counters for the shortest. The clock stands at the last
instant from which a year can be represented. -/
theorem load_builds_two_workers :
    let text := "\x7b\"producer\": \x7b\"ack_policy\": \"mark_sent\"\x7d, " ++
      "\"scanner\": \x7b\"batch_size\": 7\x7d, \"consumer\": \x7b\"concurrency\": 2, " ++
      "\"dedup_ttl_secs\": 31536000, \"retry_counter_ttl_secs\": 1\x7d\x7d"
    let s : Settings := ⟨⟨.markSent, .usual⟩, ⟨1000, 7, 0⟩, ⟨some 2, 1, 3, 31536000, some 1⟩⟩
    let e := Engine.ofSettings s.consumer
    let year := Duration.ofSeconds maxTtlSeconds
    let now := Instant.limit - 1 - year
    let orders : ConsumeTarget := .of "crm" "order.*" "orders"
    let message : Delivery := ⟨1, "orders", "crm", "order.new", some "1", "1".toUTF8, false⟩
    let failing : CrewMove := .proceed 0 (.returned false)
    let crew := Crew.run e 0 .empty [.wait now, .take 0 message, failing, failing, failing]
    let d : Deployment Unit := .start 0 1 ()
    let (resender, resending) := Resender.ofSettings s d
    load text = .ok s ∧
      (∃ workers d', e.consume .inMemory orders (e.concurrency.getD 8) d = (.returned workers, d') ∧
        workers.length = 2) ∧
      crew.bench.Timely e.rule year ∧
      (∀ key x, crew.PutsUp failing key x → x.EndsWithin crew.bench.now year) ∧
      ((crew.step failing).bench.cache.live? now "retry_orders_1").map (·.deadline) =
        some (some (now + Duration.second)) ∧
      resender.batchSize = 7 ∧ resending.policy? resender.settler = some .markSent := by
  intro text s e year now orders message failing crew d
  have loaded : load text = .ok s := load_of_admissible (by decide +kernel) (by decide)
    ⟨by decide, by decide, by decide, by
      rintro _ ⟨⟩
      decide⟩
  obtain ⟨consume, deadlines, rows⟩ := load_builds_working_parts loaded
  obtain ⟨workers, d', started, two, -⟩ := consume orders 8 d (by decide) rfl nofun
  obtain ⟨timely, puts, back⟩ := deadlines 0 .empty
    [.wait now, .take 0 message, failing, failing, failing] (by decide +kernel)
  have ends : ∀ key x, crew.PutsUp failing key x → x.EndsWithin crew.bench.now year := by
    refine (puts nofun failing).mpr fun key revives => ?_
    obtain ⟨-, earlier, pause, before, ended⟩ := back failing key revives
    rcases earlier with _ | ⟨first, earlier⟩
    · exact ended nofun
    · -- Nobody waits again.
      have later := (List.cons_prefix_cons.mp before).2
      have waits := later.subset (List.mem_append_right _ List.mem_cons_self)
      simp [failing] at waits
  exact ⟨loaded, ⟨workers, d', started, two⟩, timely, ends, by decide +kernel, (rows d d).1,
    (rows d d).2.1⟩

/-- A counter of a second ends just before a worker adds to it. What comes up has no deadline, and is
there a year later. -/
theorem revives_counter_for_good :
    let text := "\x7b\"consumer\": \x7b\"retry_counter_ttl_secs\": 1\x7d\x7d"
    let s : Settings := ⟨.standard, .standard, ⟨none, 1, 3, 60, some 1⟩⟩
    let year := Duration.ofSeconds maxTtlSeconds
    let message : Delivery := ⟨1, "orders", "crm", "order.new", some "1", "1".toUTF8, false⟩
    let failing : CrewMove := .proceed 0 (.returned false)
    let crew := Crew.run (.ofSettings s.consumer) 0 .empty
      [.take 0 message, failing, failing, failing, failing, failing,
        .take 0 message, failing, failing, failing, .wait Duration.second]
    load text = .ok s ∧ crew.bench.now + year < Instant.limit ∧
      (¬∀ key x, crew.PutsUp failing key x → x.EndsWithin crew.bench.now year) ∧
      (crew.step failing).bench.cache.live? (crew.bench.now + year) "retry_orders_1" =
        some ⟨"1", none⟩ := by
  intro text s year message failing crew
  have loaded : load text = .ok s := load_of_admissible (by decide +kernel) (by decide)
    ⟨by decide, by decide, by decide, by
      rintro _ ⟨⟩
      decide⟩
  refine ⟨loaded, by decide +kernel, fun ends => ?_, by decide +kernel⟩
  have after : (crew.step failing).bench.cache.live? (crew.step failing).bench.now
      "retry_orders_1" = some ⟨"1", none⟩ := by decide +kernel
  have before : crew.bench.cache.live? (crew.step failing).bench.now "retry_orders_1" = none := by
    decide +kernel
  obtain ⟨deadline, none, -⟩ := ends _ _ ⟨after, fun old hold => nomatch before.symm.trans hold⟩
  cases none

end Settings

end DurableMessaging
