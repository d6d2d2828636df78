import DurableMessaging.Proofs.Broker.Conservation
import Mathlib.Data.List.Induction
import Mathlib.Data.List.Nodup

/-!
# Delivery tags

The broker numbers its deliveries over all of its queues. A tag is outstanding on one queue until its
delivery is settled or taken back from its worker; from then on it names nothing.
-/

namespace DurableMessaging

variable {κ : Type}

theorem Queue.mem_unacked_apply {q : Queue} {change : QueueChange} {o : Outstanding}
    (h : o ∈ (q.apply change).unacked) :
    (o ∈ q.unacked ∧ (∀ tag s, change = .settle tag s → o.tag ≠ tag) ∧
      ∀ worker, change = .recover worker → o.worker ≠ worker) ∨
    (change = .take o.worker o.tag ∧ (q.take? o.worker o.tag).isSome = true) := by
  cases change with
  | none => exact .inl ⟨h, by rintro _ _ ⟨⟩, by rintro _ ⟨⟩⟩
  | push c => exact .inl ⟨h, by rintro _ _ ⟨⟩, by rintro _ ⟨⟩⟩
  | take worker tag =>
      simp only [apply, take?] at h
      cases hr : q.ready with
      | nil =>
          rw [hr] at h
          exact .inl ⟨h, by rintro _ _ ⟨⟩, by rintro _ ⟨⟩⟩
      | cons c ready =>
          rw [hr] at h
          rcases List.mem_append.mp h with h | h
          · exact .inl ⟨(List.mem_filter.mp h).1, by rintro _ _ ⟨⟩, by rintro _ ⟨⟩⟩
          · cases List.mem_singleton.mp h
            refine .inr ⟨rfl, ?_⟩
            unfold take?
            rw [hr]
            rfl
  | settle tag s =>
      simp only [apply, settle?] at h
      cases hf : q.unacked.find? (·.tag == tag) with
      | none =>
          rw [hf] at h
          refine .inl ⟨h, ?_, by rintro _ ⟨⟩⟩
          rintro _ _ ⟨⟩ rfl
          exact absurd (beq_self_eq_true _) (List.find?_eq_none.mp hf o h)
      | some x =>
          rw [hf] at h
          have left : o ∈ q.unacked.filter (·.tag != tag) := by cases s <;> exact h
          obtain ⟨hmem, hne⟩ := List.mem_filter.mp left
          refine .inl ⟨hmem, ?_, by rintro _ ⟨⟩⟩
          rintro _ _ ⟨⟩
          exact bne_iff_ne.mp hne
  | recover worker =>
      obtain ⟨hmem, hne⟩ := List.mem_filter.mp h
      refine .inl ⟨hmem, by rintro _ _ ⟨⟩, ?_⟩
      rintro _ ⟨⟩
      exact bne_iff_ne.mp hne

namespace Broker

/-- Whether a delivery under a tag is outstanding on a queue. -/
def Awaits (b : Broker κ) (queue : String) (tag : DeliveryTag) : Prop :=
  ∃ o ∈ (b.queue queue).unacked, o.tag = tag

instance (b : Broker κ) (queue : String) (tag : DeliveryTag) : Decidable (b.Awaits queue tag) :=
  inferInstanceAs (Decidable (∃ o ∈ (b.queue queue).unacked, o.tag = tag))

theorem change_eq_take {b : Broker κ} {name : String} {step : BrokerStep κ} {worker : WorkerId}
    {tag : DeliveryTag} (h : b.change name step = .take worker tag) :
    step = .take worker ∧ tag = b.nextTag ∧
      ∃ w, b.worker? worker = some w ∧ w.queue = name ∧ b.admits w = true := by
  cases step with
  | take worker' =>
      dsimp only [change] at h
      cases hw : b.worker? worker' with
      | none =>
          rw [hw] at h
          cases h
      | some w =>
          rw [hw] at h
          dsimp only at h
          split at h
          · rename_i hn
            cases h
            exact ⟨rfl, rfl, w, hw, hn.1.symm, hn.2⟩
          · cases h
  | _ =>
      dsimp only [change] at h
      repeat' split at h
      all_goals cases h

theorem handed?_eq_some {b : Broker κ} {step : BrokerStep κ} {d : Delivery}
    (h : b.handed? step = some d) : d.tag = b.nextTag := by
  cases step with
  | take worker =>
      obtain ⟨⟨d', b'⟩, ht, rfl⟩ := Option.map_eq_some_iff.mp h
      obtain ⟨w, c, q, -, rfl, -⟩ := take?_eq_some ht
      rfl
  | _ => cases h

theorem settled?_eq_some {b : Broker κ} {step : BrokerStep κ} {r : SettlementRecord}
    (h : b.settled? step = some r) :
    step = .settle r.queue r.tag r.settlement ∧ b.Awaits r.queue r.tag := by
  cases step with
  | settle queue tag s =>
      obtain ⟨⟨c, q⟩, hs, rfl⟩ := Option.map_eq_some_iff.mp h
      refine ⟨rfl, ?_⟩
      unfold Queue.settle? at hs
      cases hf : (b.queue queue).unacked.find? (·.tag == tag) with
      | none =>
          rw [hf] at hs
          cases hs
      | some o =>
          exact ⟨o, List.mem_of_find?_eq_some hf,
            eq_of_beq (List.find?_some (p := fun o : Outstanding => o.tag == tag) hf)⟩
  | _ => cases h

/-- A tag is outstanding after a step only if it was so before and was not settled, or if it is new. -/
theorem awaits_perform {b : Broker κ} {step : BrokerStep κ} {queue : String} {tag : DeliveryTag}
    (h : (b.perform step).Awaits queue tag) :
    (b.Awaits queue tag ∧ ∀ s, step ≠ .settle queue tag s) ∨
      ∃ d, b.handed? step = some d ∧ d.tag = tag ∧ d.queue = queue := by
  obtain ⟨o, ho, rfl⟩ := h
  have new := ho
  rw [queue_perform] at new
  rcases Queue.mem_unacked_apply new with ⟨hmem, unsettled, -⟩ | ⟨htake, hr⟩
  · refine .inl ⟨⟨o, hmem, rfl⟩, ?_⟩
    rintro s rfl
    exact unsettled o.tag s (if_pos rfl) rfl
  · obtain ⟨rfl, htag, w, hw, rfl, admitted⟩ := change_eq_take htake
    rw [htag] at hr
    obtain ⟨r, hr⟩ := Option.isSome_iff_exists.mp hr
    refine .inr ⟨(b.handOver w r.1 r.2).1, ?_, htag.symm, rfl⟩
    dsimp only [handed?]
    rw [take?_eq hw, if_pos admitted, hr]
    rfl

/-- A tag that is not outstanding on a queue settles nothing there. -/
theorem settle_unknown {b : Broker κ} {queue : String} {tag : DeliveryTag}
    (declared : b.queues.contains queue = true) (h : ¬b.Awaits queue tag) (s : Settlement) :
    b.settle queue tag s = .error (.unknownDeliveryTag tag) ∧
      b.perform (.settle queue tag s) = b := by
  obtain ⟨q, hq⟩ := Option.isSome_iff_exists.mp declared
  have same : b.queue queue = q := congrArg (·.getD Queue.empty) hq
  have refused : b.settle queue tag s = .error (.unknownDeliveryTag tag) := by
    unfold settle Queue.settle?
    rw [hq]
    dsimp only
    rw [List.find?_eq_none.mpr]
    intro o ho htag
    exact h ⟨o, same ▸ ho, eq_of_beq htag⟩
  refine ⟨refused, ?_⟩
  dsimp only [perform]
  rw [refused]
  rfl

end Broker

/-! ## All deliveries of a run -/

/-- A broker with every delivery that it has made, the oldest first. -/
structure Dispatch (κ : Type) where
  broker : Broker κ
  delivered : List Delivery

namespace Dispatch

def start : Dispatch κ := ⟨.empty, []⟩

def step (x : Dispatch κ) (s : BrokerStep κ) : Dispatch κ :=
  ⟨x.broker.perform s, x.delivered ++ (x.broker.handed? s).toList⟩

def run (steps : List (BrokerStep κ)) : Dispatch κ := steps.foldl step start

def tags (x : Dispatch κ) : List DeliveryTag := x.delivered.map (·.tag)

/-- The tags of all settlements. -/
def ended (x : Dispatch κ) : List DeliveryTag := x.broker.settlements.map (·.tag)

theorem run_concat (steps : List (BrokerStep κ)) (s : BrokerStep κ) :
    run (steps ++ [s]) = (run steps).step s :=
  List.foldl_append

theorem broker_run (steps : List (BrokerStep κ)) :
    (run steps).broker = steps.foldl .perform .empty := by
  induction steps using List.reverseRecOn with
  | nil => rfl
  | append_singleton steps s ih =>
      rw [run_concat, List.foldl_append, ← ih]
      rfl

/-- How the tags that are about come from the deliveries. -/
structure Sound (x : Dispatch κ) : Prop where
  nextTag : x.broker.nextTag = UInt64.ofNat (x.delivered.length + 1)
  numbered : x.tags = (List.range x.delivered.length).map fun k => UInt64.ofNat (k + 1)
  outstanding : ∀ queue tag, x.broker.Awaits queue tag →
    ∃ d ∈ x.delivered, d.tag = tag ∧ d.queue = queue
  settled : ∀ r ∈ x.broker.settlements, ∃ d ∈ x.delivered, d.tag = r.tag ∧ d.queue = r.queue

variable {x : Dispatch κ} {s : BrokerStep κ}

theorem sound_start : (start : Dispatch κ).Sound where
  nextTag := rfl
  numbered := rfl
  outstanding := by
    rintro queue tag ⟨o, ho, -⟩
    cases ho
  settled := nofun

theorem length_step (x : Dispatch κ) (s : BrokerStep κ) :
    (x.step s).delivered.length = x.delivered.length + (x.broker.handed? s).toList.length :=
  List.length_append

namespace Sound

theorem step (h : x.Sound) (s : BrokerStep κ) : (x.step s).Sound := by
  obtain ⟨hTag, hLog⟩ := x.broker.logs_perform s
  refine ⟨?_, ?_, fun queue tag ht => ?_, fun r hr => ?_⟩
  · show (x.broker.perform s).nextTag = _
    rw [hTag, h.nextTag, length_step, ← UInt64.ofNat_add, Nat.add_right_comm]
  · show (x.delivered ++ (x.broker.handed? s).toList).map (·.tag) = _
    rw [List.map_append, length_step]
    cases hd : x.broker.handed? s with
    | none => exact (List.append_nil _).trans h.numbered
    | some d =>
        rw [Option.toList_some, List.length_singleton, List.range_succ, List.map_append,
          ← h.numbered, List.map_singleton, List.map_singleton, Broker.handed?_eq_some hd, h.nextTag]
        rfl
  · rcases Broker.awaits_perform ht with ⟨before, -⟩ | ⟨d, hd, new⟩
    · obtain ⟨d, hd, old⟩ := h.outstanding queue tag before
      exact ⟨d, List.mem_append_left _ hd, old⟩
    · exact ⟨d, List.mem_append_right _ (Option.mem_toList.mpr hd), new⟩
  · change r ∈ (x.broker.perform s).settlements at hr
    rw [hLog] at hr
    rcases List.mem_append.mp hr with hr | hr
    · obtain ⟨d, hd, old⟩ := h.settled r hr
      exact ⟨d, List.mem_append_left _ hd, old⟩
    · obtain ⟨-, awaited⟩ := Broker.settled?_eq_some (Option.mem_toList.mp hr)
      obtain ⟨d, hd, old⟩ := h.outstanding _ _ awaited
      exact ⟨d, List.mem_append_left _ hd, old⟩

theorem fresh (h : x.Sound) (bound : x.delivered.length < UInt64.size) :
    x.broker.nextTag ∉ x.tags := by
  intro hm
  rw [h.numbered, h.nextTag] at hm
  obtain ⟨k, hk, heq⟩ := List.mem_map.mp hm
  exact Audit.ofNat_succ_ne (List.mem_range.mp hk) bound heq

theorem nodup (h : x.Sound) (bound : x.delivered.length < UInt64.size) : x.tags.Nodup := by
  rw [h.numbered, List.nodup_iff_pairwise_ne, List.pairwise_map]
  refine List.pairwise_lt_range.imp_of_mem fun _ hn hlt => ?_
  exact Audit.ofNat_succ_ne hlt (Nat.lt_trans (List.mem_range.mp hn) bound)

/-- As long as its tag is not given out again, a delivery is outstanding on its own queue only. -/
theorem queue_eq (h : x.Sound) (bound : x.delivered.length < UInt64.size) {queue queue' : String}
    {tag : DeliveryTag} (ht : x.broker.Awaits queue tag) (ht' : x.broker.Awaits queue' tag) :
    queue = queue' := by
  obtain ⟨d, hd, htag, rfl⟩ := h.outstanding _ _ ht
  obtain ⟨d', hd', htag', rfl⟩ := h.outstanding _ _ ht'
  rw [List.inj_on_of_nodup_map (h.nodup bound) hd hd' (htag.trans htag'.symm)]

/-- A tag that was given out and is not outstanding stays so. -/
theorem stale_step (h : x.Sound) (bound : x.delivered.length < UInt64.size) {tag : DeliveryTag}
    (issued : tag ∈ x.tags) (stale : ∀ queue, ¬x.broker.Awaits queue tag) (queue : String) :
    ¬(x.step s).broker.Awaits queue tag := by
  intro ht
  rcases Broker.awaits_perform ht with ⟨before, -⟩ | ⟨d, hd, htag, -⟩
  · exact stale queue before
  · rw [← htag, Broker.handed?_eq_some hd] at issued
    exact h.fresh bound issued

end Sound

theorem sound_run (steps : List (BrokerStep κ)) : (run steps).Sound := by
  induction steps using List.reverseRecOn with
  | nil => exact sound_start
  | append_singleton steps s ih =>
      rw [run_concat]
      exact ih.step s

/-- No delivery ends twice, and none that has ended is outstanding. -/
structure EndsOnce (x : Dispatch κ) : Prop where
  apart : ∀ tag ∈ x.ended, ∀ queue, ¬x.broker.Awaits queue tag
  once : x.ended.Nodup

theorem EndsOnce.step (h : x.EndsOnce) (sound : x.Sound)
    (bound : x.delivered.length < UInt64.size) : (x.step s).EndsOnce := by
  obtain ⟨-, hLog⟩ := x.broker.logs_perform s
  have issued : ∀ tag ∈ x.ended, tag ∈ x.tags := by
    intro tag ht
    obtain ⟨r, hr, rfl⟩ := List.mem_map.mp ht
    obtain ⟨d, hd, htag, -⟩ := sound.settled r hr
    exact List.mem_map.mpr ⟨d, hd, htag⟩
  have old (tag) (ht : tag ∈ x.ended) (queue) : ¬(x.step s).broker.Awaits queue tag :=
    sound.stale_step bound (issued tag ht) (h.apart tag ht) queue
  have ended : (x.step s).ended = x.ended ++ (x.broker.settled? s).toList.map (·.tag) := by
    show (x.broker.perform s).settlements.map (·.tag) = _
    rw [hLog, List.map_append]
    rfl
  cases hr : x.broker.settled? s with
  | none =>
      rw [hr, Option.toList_none, List.map_nil, List.append_nil] at ended
      exact ⟨ended ▸ old, ended ▸ h.once⟩
  | some r =>
      obtain ⟨rfl, awaited⟩ := Broker.settled?_eq_some hr
      rw [hr, Option.toList_some, List.map_singleton] at ended
      refine ⟨fun tag ht queue hq => ?_, ?_⟩
      · rw [ended] at ht
        rcases List.mem_append.mp ht with ht | ht
        · exact old tag ht queue hq
        · cases List.mem_singleton.mp ht
          rcases Broker.awaits_perform hq with ⟨before, unsettled⟩ | ⟨d, hd, -⟩
          · cases sound.queue_eq bound awaited before
            exact unsettled _ rfl
          · cases hd
      · rw [ended, List.nodup_append]
        refine ⟨h.once, List.pairwise_singleton _ _, ?_⟩
        rintro tag ht _ hr rfl
        cases List.mem_singleton.mp hr
        exact h.apart r.tag ht r.queue awaited

theorem endsOnce_run {steps : List (BrokerStep κ)}
    (bound : (run steps).delivered.length < UInt64.size) : (run steps).EndsOnce := by
  induction steps using List.reverseRecOn with
  | nil => exact ⟨nofun, List.nodup_nil⟩
  | append_singleton steps s ih =>
      rw [run_concat] at bound ⊢
      have before : (run steps).delivered.length < UInt64.size := by
        rw [length_step] at bound
        omega
      exact (ih before).step (sound_run steps) before

/-- A tag that was given out and is not outstanding names nothing ever after. -/
theorem stale_foldl {tag : DeliveryTag} (sound : x.Sound) (issued : tag ∈ x.tags)
    (stale : ∀ queue, ¬x.broker.Awaits queue tag) {steps : List (BrokerStep κ)}
    (bound : (steps.foldl step x).delivered.length < UInt64.size) (queue : String) :
    ¬(steps.foldl step x).broker.Awaits queue tag := by
  suffices h : (steps.foldl step x).Sound ∧ tag ∈ (steps.foldl step x).tags ∧
      ∀ queue, ¬(steps.foldl step x).broker.Awaits queue tag from h.2.2 queue
  clear queue
  induction steps using List.reverseRecOn with
  | nil => exact ⟨sound, issued, stale⟩
  | append_singleton steps s ih =>
      rw [List.foldl_append, List.foldl_cons, List.foldl_nil] at bound ⊢
      have before : (steps.foldl step x).delivered.length < UInt64.size := by
        rw [length_step] at bound
        omega
      obtain ⟨sound, issued, stale⟩ := ih before
      refine ⟨sound.step s, ?_, sound.stale_step before issued stale⟩
      show tag ∈ ((steps.foldl Dispatch.step x).delivered ++ _).map (·.tag)
      rw [List.map_append]
      exact List.mem_append_left _ issued

end Dispatch

end DurableMessaging
