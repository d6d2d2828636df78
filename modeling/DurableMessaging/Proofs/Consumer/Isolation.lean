import DurableMessaging.Proofs.Consumer.Bench

/-!
# Messages that do not meet

A decision sees of a cache what is under the two keys of its delivery, and changes nothing else. So
messages without a common key do not notice each other.

Different messages should have no key in common, but keys are made by putting names together without
their lengths, and two of them can come out the same. Then what is kept for one message is taken for
a record that the other has been processed, and a message that nobody has processed is lost. It is
shown which names keep messages apart.
-/

namespace DurableMessaging

section Agreement

variable {keys : List String} {b : Bench} {c : Cache}

theorem Bench.ask_agree (h : Cache.Agree keys b.now b.cache c) {call : CacheCall}
    (hk : call.key ∈ keys) :
    ∃ c', ask call { b with cache := c } = ((b.ask call).1, { (b.ask call).2 with cache := c' }) ∧
      Cache.Agree keys b.now (b.ask call).2.cache c' := by
  obtain ⟨answer, after⟩ := h.perform hk
  refine ⟨(c.perform b.now call).2, ?_, after⟩
  dsimp only [ask]
  rw [answer]

/-- A decision that asks about some keys takes the same course at two benches whose caches agree on
these, and they still agree afterwards. -/
theorem Decision.run_agree (a : Attempt) (pauses : Nat → Duration) {p : Decision}
    (hp : p.Asks fun call => call.key ∈ keys) (h : Cache.Agree keys b.now b.cache c) :
    ∃ c', p.run (a.surroundings pauses) { b with cache := c } =
        ((p.run (a.surroundings pauses) b).1,
          { (p.run (a.surroundings pauses) b).2 with cache := c' }) ∧
      Cache.Agree keys (p.run (a.surroundings pauses) b).2.now
        (p.run (a.surroundings pauses) b).2.cache c' := by
  induction p generalizing b c with
  | done v => exact ⟨c, rfl, h⟩
  | ask call next ih =>
      have waited : Cache.Agree keys (b.wait (pauses b.journal.length)).now
          (b.wait (pauses b.journal.length)).cache c := h.wait (Nat.le_add_right _ _)
      obtain ⟨c₁, hask, after⟩ := Bench.ask_agree waited hp.1
      obtain ⟨c', hrun, agree⟩ := ih _ (hp.2 _)
        (b := ((b.wait (pauses b.journal.length)).ask call).2) after
      refine ⟨c', Eq.trans ?_ hrun, agree⟩
      rw [run_ask]
      exact congrArg (fun r => (next (.ofExcept r.1)).run (a.surroundings pauses) r.2) hask
  | handle payload next ih => exact ih _ (hp _) (b := b.note ⟨a.delivery, a.handler payload⟩) h

end Agreement

namespace Engine

/-- Deciding about one attempt first changes neither what is done with another nor what its handler
is asked. -/
def Unnoticed (e : Engine) (pauses : Nat → Duration) (b : Bench) (first second : Attempt) : Prop :=
  let (_, e', b') := e.decide (first.surroundings pauses) first.delivery b
  let together := e'.decide (second.surroundings pauses) second.delivery b'
  let alone := e.decide (second.surroundings pauses) second.delivery { b' with cache := b.cache }
  together.1 = alone.1 ∧ together.2.2.handlings = alone.2.2.handlings

/-- A message can be lost where a queue is named like the retry counters of another. It failed on the
one queue, and on the other, where it has never been processed, it is accepted as a duplicate and its
handler is not asked. -/
theorem noticed_under_common_key :
    ¬ ∀ (e : Engine) (pauses : Nat → Duration) (b : Bench) (first second : Attempt)
      (id id' : String),
      DecisionRule.messageId? first.delivery = some id →
      DecisionRule.messageId? second.delivery = some id' →
      (first.delivery.queue, id) ≠ (second.delivery.queue, id') →
      e.Unnoticed pauses b first second := by
  intro h
  let message (queue : String) : Delivery := ⟨1, queue, "", "", some "abc", "1".toUTF8, false⟩
  have unnoticed := h .standard (fun _ => 0) (.start 0 .empty)
    ⟨message "orders", fun _ => .returned false⟩ ⟨message "retry_orders", fun _ => .returned true⟩
    "abc" "abc" (by decide +kernel) (by decide +kernel) (by decide)
  exact absurd unnoticed.2 (by decide +kernel)

/-- Nothing else makes messages notice each other: those that have no key in common do not, and nothing
is changed under the keys of the second when the first is decided about. -/
theorem unnoticed_without_common_key (e : Engine) (pauses : Nat → Duration) (b : Bench)
    (first second : Attempt)
    (apart : ∀ key ∈ DecisionRule.keys first.delivery, key ∉ DecisionRule.keys second.delivery) :
    e.Unnoticed pauses b first second ∧
      let (_, _, b') := e.decide (first.surroundings pauses) first.delivery b
      ∀ key ∈ DecisionRule.keys second.delivery, ∀ later, b'.now ≤ later →
        b'.cache.live? later key = b.cache.live? later key := by
  have aside : b.Aside (DecisionRule.keys second.delivery)
      (e.decide (first.surroundings pauses) first.delivery b).2.2 :=
    Decision.run_aside first pauses
      ((e.rule.asks_decide first.delivery).mono fun call h => apart call.key h.1) b
  refine ⟨?_, aside.agree.live⟩
  have same := e.rule_decide (first.surroundings pauses) first.delivery b
  unfold Unnoticed
  generalize e.decide (first.surroundings pauses) first.delivery b = r at aside same
  obtain ⟨action, e', b'⟩ := r
  have agree : Cache.Agree (DecisionRule.keys second.delivery) b'.now b'.cache b.cache :=
    aside.agree.symm
  obtain ⟨c', hrun, -⟩ := Decision.run_agree second pauses
    ((e.rule.asks_decide second.delivery).mono fun call h => h.1) agree
  dsimp only [decide] at same ⊢
  rw [same, hrun]
  exact ⟨rfl, rfl⟩

/-- An underscore in a name does no harm by itself. -/
theorem unnoticed_across_queues :
    let message (queue id : String) : Delivery := ⟨1, queue, "", "", some id, "1".toUTF8, false⟩
    let first : Attempt := ⟨message "orders_eu" "7", fun _ => .returned false⟩
    let second : Attempt := ⟨message "orders" "7_eu", fun _ => .returned true⟩
    (∀ key ∈ DecisionRule.keys first.delivery, key ∉ DecisionRule.keys second.delivery) ∧
      Engine.standard.Unnoticed (fun _ => 0) (.start 0 .empty) first second := by
  intro message first second
  have apart : ∀ key ∈ DecisionRule.keys first.delivery,
      key ∉ DecisionRule.keys second.delivery := by decide +kernel
  exact ⟨apart, (unnoticed_without_common_key .standard _ _ first second apart).1⟩

end Engine

/-! ## Names that keep messages apart -/

namespace CacheKey

theorem toList_dedup (queue id : String) :
    (dedup queue id).toList = queue.toList ++ '_' :: id.toList := by
  simp only [dedup, String.toList_append]
  rw [List.append_assoc]
  rfl

theorem retry_eq_dedup (queue id : String) : retry queue id = dedup "retry" (dedup queue id) := by
  simp only [retry, dedup, String.append_assoc]
  rfl

theorem takeWhile_dedup {queue : String} (h : '_' ∉ queue.toList) (id : String) :
    (dedup queue id).toList.takeWhile (· != '_') = queue.toList := by
  have stays : ∀ c ∈ queue.toList, (c != '_') = true := by
    intro c hc
    rw [bne_iff_ne]
    rintro rfl
    exact h hc
  rw [toList_dedup, List.takeWhile_append_of_pos stays]
  exact List.append_nil _

theorem dedup_inj {queue queue' id id' : String} (h : '_' ∉ queue.toList) (h' : '_' ∉ queue'.toList)
    (heq : dedup queue id = dedup queue' id') : queue = queue' ∧ id = id' := by
  have hq : queue = queue' := by
    rw [← String.toList_inj, ← takeWhile_dedup h id, heq, takeWhile_dedup h']
  subst hq
  exact ⟨rfl, (String.append_right_inj _).mp heq⟩

end CacheKey

/-- Different messages have no key in common while no underscore is in the name of their queues, and
none of these is named `retry`. -/
theorem DecisionRule.keys_apart {d d' : Delivery} (plain : '_' ∉ d.queue.toList)
    (plain' : '_' ∉ d'.queue.toList) (named : d.queue ≠ "retry") (named' : d'.queue ≠ "retry")
    (hne : (d.queue, messageId? d) ≠ (d'.queue, messageId? d')) : ∀ key ∈ keys d, key ∉ keys d' := by
  have word : '_' ∉ "retry".toList := by decide
  unfold keys
  cases hid : messageId? d with
  | none => exact nofun
  | some id =>
      cases hid' : messageId? d' with
      | none => exact nofun
      | some id' =>
          rw [hid, hid'] at hne
          have differ : CacheKey.dedup d.queue id ≠ CacheKey.dedup d'.queue id' := by
            intro heq
            obtain ⟨hq, rfl⟩ := CacheKey.dedup_inj plain plain' heq
            exact hne (hq ▸ rfl)
          simp only [List.mem_cons, List.not_mem_nil, or_false, forall_eq_or_imp, forall_eq, not_or,
            CacheKey.retry_eq_dedup]
          refine ⟨⟨differ, fun heq => ?_⟩, fun heq => ?_, fun heq => ?_⟩
          · exact named (CacheKey.dedup_inj plain word heq).1
          · exact named' (CacheKey.dedup_inj word plain' heq).1.symm
          · exact differ (CacheKey.dedup_inj word word heq).2

end DurableMessaging
