import DurableMessaging.Proofs.Broker.Tags

/-!
# Workers and what they hold

A delivery is outstanding with a running worker of its queue, which holds no more of them than it
asked for. A worker that ends gives back what it held, and its id is not used again.
-/

namespace DurableMessaging

variable {κ : Type}

namespace Queue

variable {q : Queue} {worker : WorkerId}

theorem heldBy_eq (q : Queue) (worker : WorkerId) :
    q.heldBy worker = q.unacked.countP (·.worker == worker) := List.countP_eq_length_filter.symm

theorem heldBy_eq_zero (h : ∀ o ∈ q.unacked, o.worker ≠ worker) : q.heldBy worker = 0 := by
  rw [heldBy_eq, List.countP_eq_zero]
  exact fun o ho hw => h o ho (eq_of_beq hw)

theorem heldBy_le {q' : Queue} (h : q'.unacked.Sublist q.unacked) (worker : WorkerId) :
    q'.heldBy worker ≤ q.heldBy worker := by
  rw [heldBy_eq, heldBy_eq]
  exact h.countP_le

theorem heldBy_take (q : Queue) (taker : WorkerId) (tag : DeliveryTag) (worker : WorkerId) :
    (q.apply (.take taker tag)).heldBy worker ≤
      q.heldBy worker + if taker = worker then 1 else 0 := by
  rw [heldBy_eq, heldBy_eq]
  simp only [apply, take?]
  cases q.ready with
  | nil => exact Nat.le_add_right _ _
  | cons c ready =>
      simp only [Option.map_some, Option.getD_some, List.countP_append, List.countP_singleton,
        beq_iff_eq]
      exact Nat.add_le_add_right List.filter_sublist.countP_le _

/-- Only its own takes give a worker more to hold. -/
theorem heldBy_apply_le {change : QueueChange} (h : ∀ tag, change ≠ .take worker tag) :
    (q.apply change).heldBy worker ≤ q.heldBy worker := by
  cases change with
  | none => exact Nat.le_refl _
  | push c => exact Nat.le_refl _
  | take taker tag =>
      have bound := q.heldBy_take taker tag worker
      have other : taker ≠ worker := by
        rintro rfl
        exact h tag rfl
      rwa [if_neg other] at bound
  | settle tag s =>
      simp only [apply, settle?]
      cases q.unacked.find? (·.tag == tag) with
      | none => exact Nat.le_refl _
      | some o => cases s <;> exact heldBy_le List.filter_sublist worker
  | recover other => exact heldBy_le List.filter_sublist worker

end Queue

namespace Broker

/-- Which workers run after a step, and which id the next one gets. -/
theorem workers_perform (b : Broker κ) (s : BrokerStep κ) :
    ((b.perform s).workers = b.workers ∧ (b.perform s).nextWorker = b.nextWorker ∧
      ∀ id, s = .endWorker id → b.worker? id = none) ∨
    (∃ spec, s = .startConsumer spec ∧
      (b.perform s).workers = b.workers ++
        (List.range' b.nextWorker spec.concurrency).map (⟨·, spec.queue, spec.prefetch⟩) ∧
      (b.perform s).nextWorker = b.nextWorker + spec.concurrency) ∨
    ∃ w, s = .endWorker w.id ∧ b.worker? w.id = some w ∧
      (b.perform s).workers = b.workers.filter (·.id != w.id) ∧
      (b.perform s).nextWorker = b.nextWorker := by
  cases s with
  | startConsumer spec =>
      dsimp only [perform]
      cases h : b.startConsumer spec with
      | error e => exact .inl ⟨rfl, rfl, nofun⟩
      | ok r =>
          obtain ⟨-, -, hids, hr⟩ := startConsumer_eq_ok h
          refine .inr (.inl ⟨spec, rfl, ?_⟩)
          show r.2.workers = _ ∧ r.2.nextWorker = _
          rw [hr, hids]
          exact ⟨rfl, rfl⟩
  | endWorker id =>
      cases hw : b.worker? id with
      | none =>
          refine .inl ⟨?_, ?_, ?_⟩
          · dsimp only [perform, endWorker, recover]
            rw [hw]
            exact List.filter_eq_self.mpr fun w hm => bne_iff_ne.mpr fun he =>
              List.find?_eq_none.mp hw w hm (beq_iff_eq.mpr he)
          · dsimp only [perform, endWorker, recover]
            rw [hw]
          · rintro _ ⟨⟩
            exact hw
      | some w =>
          obtain rfl := worker?_id hw
          refine .inr (.inr ⟨w, rfl, hw, ?_⟩)
          dsimp only [perform, endWorker, recover]
          rw [hw]
          exact ⟨rfl, rfl⟩
  | declare t =>
      refine .inl ?_
      dsimp only [perform]
      cases h : b.declare t with
      | error e => exact ⟨rfl, rfl, nofun⟩
      | ok b' =>
          dsimp only [Except.toOption, Option.getD_some]
          rw [declare_same h]
          exact ⟨rfl, rfl, nofun⟩
  | publish m callback =>
      refine .inl ?_
      dsimp only [perform]
      cases h : b.publish m callback with
      | error e => exact ⟨rfl, rfl, nofun⟩
      | ok p =>
          obtain ⟨t, -, -, rfl⟩ := publish_eq_ok h
          refine ⟨?_, ?_, nofun⟩ <;>
            dsimp only [Except.toOption, Option.map_some, Option.getD_some, taken] <;>
            cases b.confirmMode <;> rfl
  | enqueue queue messageId payload =>
      refine .inl ?_
      dsimp only [perform, enqueue]
      split <;> exact ⟨rfl, rfl, nofun⟩
  | take worker =>
      refine .inl ?_
      dsimp only [perform]
      cases h : b.take? worker with
      | none => exact ⟨rfl, rfl, nofun⟩
      | some r =>
          obtain ⟨d, b'⟩ := r
          obtain ⟨w, c, q, -, -, rfl⟩ := take?_eq_some h
          exact ⟨rfl, rfl, nofun⟩
  | settle queue tag s =>
      refine .inl ?_
      dsimp only [perform]
      rw [settle_eq]
      cases (b.queue queue).settle? tag s <;> exact ⟨rfl, rfl, nofun⟩
  | recover worker =>
      refine .inl ?_
      dsimp only [perform, recover]
      cases b.worker? worker <;> exact ⟨rfl, rfl, nofun⟩
  | _ => exact .inl ⟨rfl, rfl, nofun⟩

/-- Who runs, and who holds what. -/
structure Staffed (b : Broker κ) : Prop where
  distinct : (b.workers.map (·.id)).Nodup
  known : ∀ w ∈ b.workers, w.id < b.nextWorker
  owned : ∀ queue, ∀ o ∈ (b.queue queue).unacked, ∃ w ∈ b.workers, w.id = o.worker ∧ w.queue = queue
  limited : ∀ w ∈ b.workers, (b.queue w.queue).heldBy w.id ≤ w.prefetch

theorem staffed_empty : (empty : Broker κ).Staffed where
  distinct := List.nodup_nil
  known := nofun
  owned := nofun
  limited := nofun

namespace Staffed

variable {b : Broker κ}

theorem unique (h : b.Staffed) {w w' : Worker} (hw : w ∈ b.workers) (hw' : w' ∈ b.workers)
    (hid : w.id = w'.id) : w = w' :=
  List.inj_on_of_nodup_map h.distinct hw hw' hid

theorem worker?_eq (h : b.Staffed) {w : Worker} (hw : w ∈ b.workers) : b.worker? w.id = some w := by
  cases hf : b.worker? w.id with
  | none => exact absurd (beq_self_eq_true w.id) (List.find?_eq_none.mp hf w hw)
  | some w' => rw [h.unique (List.mem_of_find?_eq_some hf) hw (worker?_id hf)]

/-- Nobody but a worker of the queue holds anything of it. -/
theorem heldBy_eq_zero (h : b.Staffed) {queue : String} {id : WorkerId}
    (none : ∀ w ∈ b.workers, w.id = id → w.queue ≠ queue) : (b.queue queue).heldBy id = 0 := by
  refine Queue.heldBy_eq_zero ?_
  rintro o ho rfl
  obtain ⟨w, hw, hid, hq⟩ := h.owned queue o ho
  exact none w hw hid hq

/-- What an outstanding delivery after a step was before it. -/
theorem owner (h : b.Staffed) {s : BrokerStep κ} {queue : String} {o : Outstanding}
    (ho : o ∈ ((b.perform s).queue queue).unacked) :
    ∃ w ∈ b.workers, w.id = o.worker ∧ w.queue = queue ∧ s ≠ .endWorker o.worker := by
  rw [queue_perform] at ho
  rcases Queue.mem_unacked_apply ho with ⟨before, -, kept⟩ | ⟨htake, -⟩
  · obtain ⟨w, hw, hid, hq⟩ := h.owned queue o before
    refine ⟨w, hw, hid, hq, ?_⟩
    rintro rfl
    refine kept o.worker ?_ rfl
    simp only [change, ← hid, h.worker?_eq hw, hq, if_true]
  · obtain ⟨rfl, -, w, hw, hq, -⟩ := change_eq_take htake
    exact ⟨w, List.mem_of_find?_eq_some hw, worker?_id hw, hq, nofun⟩

theorem limited_perform (h : b.Staffed) (s : BrokerStep κ) {w : Worker} (hw : w ∈ b.workers) :
    ((b.perform s).queue w.queue).heldBy w.id ≤ w.prefetch := by
  rw [queue_perform]
  by_cases htake : ∃ tag, b.change w.queue s = .take w.id tag
  · obtain ⟨tag, htake⟩ := htake
    obtain ⟨-, -, w', hw', -, admitted⟩ := change_eq_take htake
    rw [h.worker?_eq hw] at hw'
    cases hw'
    have room : (b.queue w.queue).heldBy w.id < w.prefetch :=
      of_decide_eq_true (Bool.and_eq_true_iff.mp admitted).2
    have bound := (b.queue w.queue).heldBy_take w.id tag w.id
    rw [htake]
    rw [if_pos rfl] at bound
    omega
  · exact Nat.le_trans (Queue.heldBy_apply_le fun tag ht => htake ⟨tag, ht⟩) (h.limited w hw)

theorem perform (h : b.Staffed) (s : BrokerStep κ) : (b.perform s).Staffed := by
  rcases b.workers_perform s with ⟨hw, hn, gone⟩ | ⟨spec, rfl, hw, hn⟩ | ⟨w₀, rfl, hw₀, hw, hn⟩
  · refine ⟨hw ▸ h.distinct, hw ▸ hn ▸ h.known, fun queue o ho => ?_, fun w hm => ?_⟩
    · obtain ⟨w, hm, hid, hq, -⟩ := h.owner ho
      exact ⟨w, hw ▸ hm, hid, hq⟩
    · exact h.limited_perform s (hw ▸ hm)
  · have new {w : Worker} (hm : w ∈ (List.range' b.nextWorker spec.concurrency).map
        (⟨·, spec.queue, spec.prefetch⟩)) :
        b.nextWorker ≤ w.id ∧ w.id < b.nextWorker + spec.concurrency := by
      obtain ⟨id, hid, rfl⟩ := List.mem_map.mp hm
      exact List.mem_range'_1.mp hid
    refine ⟨?_, fun w hm => ?_, fun queue o ho => ?_, fun w hm => ?_⟩
    · rw [hw, List.map_append, List.nodup_append]
      refine ⟨h.distinct, ?_, ?_⟩
      · rw [List.map_map]
        exact (List.map_id' _).symm ▸ List.nodup_range'
      · rintro id hid _ hid' rfl
        obtain ⟨w, hm, rfl⟩ := List.mem_map.mp hid
        obtain ⟨w', hm', heq⟩ := List.mem_map.mp hid'
        exact Nat.not_lt.mpr (heq ▸ (new hm').1) (h.known w hm)
    · rw [hw] at hm
      rw [hn]
      exact (List.mem_append.mp hm).elim (fun hm => Nat.lt_add_right _ (h.known w hm))
        fun hm => (new hm).2
    · obtain ⟨w, hm, hid, hq, -⟩ := h.owner ho
      exact ⟨w, hw ▸ List.mem_append_left _ hm, hid, hq⟩
    · rw [hw] at hm
      rcases List.mem_append.mp hm with hm | hm
      · exact h.limited_perform _ hm
      · have nothing : (b.queue w.queue).heldBy w.id = 0 :=
          h.heldBy_eq_zero fun w' hw' hid _ =>
            Nat.not_lt.mpr (hid ▸ (new hm).1) (h.known w' hw')
        rw [queue_perform]
        show (b.queue w.queue).heldBy w.id ≤ w.prefetch
        rw [nothing]
        exact Nat.zero_le _
  · refine ⟨?_, fun w hm => ?_, fun queue o ho => ?_, fun w hm => ?_⟩
    · rw [hw]
      exact h.distinct.sublist (List.filter_sublist.map _)
    · rw [hw] at hm
      rw [hn]
      exact h.known w (List.mem_filter.mp hm).1
    · obtain ⟨w, hm, hid, hq, running⟩ := h.owner ho
      refine ⟨w, hw ▸ List.mem_filter.mpr ⟨hm, bne_iff_ne.mpr ?_⟩, hid, hq⟩
      rintro he
      exact running (by rw [← hid, he])
    · rw [hw] at hm
      exact h.limited_perform _ (List.mem_filter.mp hm).1

end Staffed

theorem staffed_run (steps : List (BrokerStep κ)) :
    (steps.foldl Broker.perform (empty : Broker κ)).Staffed := by
  induction steps using List.reverseRecOn with
  | nil => exact staffed_empty
  | append_singleton steps s ih =>
      rw [List.foldl_append]
      exact ih.perform s

/-- An id that was given to a worker and names no running one is never given out again. -/
theorem gone_foldl {b : Broker κ} {id : WorkerId} (given : id < b.nextWorker)
    (gone : ∀ w ∈ b.workers, w.id ≠ id) (steps : List (BrokerStep κ)) :
    ∀ w ∈ (steps.foldl Broker.perform b).workers, w.id ≠ id := by
  suffices h : id < (steps.foldl Broker.perform b).nextWorker ∧
      ∀ w ∈ (steps.foldl Broker.perform b).workers, w.id ≠ id from h.2
  induction steps using List.reverseRecOn with
  | nil => exact ⟨given, gone⟩
  | append_singleton steps s ih =>
      rw [List.foldl_append, List.foldl_cons, List.foldl_nil]
      generalize steps.foldl Broker.perform b = b' at ih ⊢
      obtain ⟨given, gone⟩ := ih
      rcases b'.workers_perform s with ⟨hw, hn, -⟩ | ⟨spec, -, hw, hn⟩ | ⟨w₀, -, -, hw, hn⟩ <;>
        rw [hw, hn]
      · exact ⟨given, gone⟩
      · refine ⟨Nat.lt_add_right _ given, fun w hm => ?_⟩
        rcases List.mem_append.mp hm with hm | hm
        · exact gone w hm
        · obtain ⟨id', hid, rfl⟩ := List.mem_map.mp hm
          exact Nat.ne_of_gt (Nat.lt_of_lt_of_le given (List.mem_range'_1.mp hid).1)
      · exact ⟨given, fun w hm => gone w (List.mem_filter.mp hm).1⟩

theorem endWorker_gone {b : Broker κ} (h : b.Staffed) {w : Worker} (hw : w ∈ b.workers) :
    w.id < (b.perform (.endWorker w.id)).nextWorker ∧
      ∀ w' ∈ (b.perform (.endWorker w.id)).workers, w'.id ≠ w.id := by
  rcases b.workers_perform (.endWorker w.id) with ⟨-, -, gone⟩ | ⟨spec, hs, -⟩ |
    ⟨w₀, hs, -, hworkers, hnext⟩
  · cases (gone w.id rfl).symm.trans (h.worker?_eq hw)
  · cases hs
  · rw [hworkers, hnext]
    refine ⟨h.known w hw, fun w' hw' => ?_⟩
    rw [(BrokerStep.endWorker.inj hs)]
    exact bne_iff_ne.mp (List.mem_filter.mp hw').2

/-- At most one delivery is outstanding under a tag. -/
theorem nodup_unacked (steps : List (BrokerStep κ)) (name : String) :
    (((steps.foldl Broker.perform (empty : Broker κ)).queue name).unacked.map (·.tag)).Nodup := by
  have sound := Audit.sound_run name steps
  rw [← Audit.broker_run name steps, sound.queue, Ledger.queue, List.map_map]
  exact sound.ledger.tags

/-- What it means that a worker's deliveries, and nothing else, are taken back. -/
structure TakesBack (b : Broker κ) (w : Worker) (b' : Broker κ) : Prop where
  others : ∀ queue, queue ≠ w.queue → b'.queue queue = b.queue queue
  unacked : (b'.queue w.queue).unacked = (b.queue w.queue).unacked.filter (·.worker != w.id)
  ready : ∃ back, (b'.queue w.queue).ready = back ++ (b.queue w.queue).ready ∧
    back.Perm (((b.queue w.queue).unacked.filter (·.worker == w.id)).map (·.copy.asRedelivered))
  deadLetters : (b'.queue w.queue).deadLetters = (b.queue w.queue).deadLetters
  settlements : b'.settlements = b.settlements

theorem takesBack_recover {b : Broker κ} {w : Worker} (hw : b.worker? w.id = some w) :
    b.TakesBack w (b.recover w.id) := by
  have changed (n : String) : (b.recover w.id).queue n =
      (b.queue n).apply (if n = w.queue then .recover w.id else .none) := by
    rw [queue_recover, change, hw]
  have own := changed w.queue
  rw [if_pos rfl] at own
  refine ⟨fun n hn => ?_, ?_, ⟨_, ?_, .refl _⟩, ?_, ?_⟩
  · rw [changed, if_neg hn]
    rfl
  · rw [own]
    rfl
  · rw [own]
    rfl
  · rw [own]
    rfl
  · unfold recover
    rw [hw]

end Broker

/-- However publishers and workers alternate, as long as there are fewer deliveries than tags: no two
deliveries have the same tag, and none is settled twice. A tag that is not outstanding on a queue,
because it was never given out, was settled or taken back, or is outstanding on another, settles
nothing there. Each running worker holds at most what it asked for, and only of its queue; what is
taken back is its own, and once it has ended it holds nothing. -/
theorem Dispatch.settles_outstanding_tags_only (steps : List (BrokerStep κ))
    (few : (run steps).delivered.length < UInt64.size) :
    let x := run steps
    let b := x.broker
    b = steps.foldl .perform .empty ∧ x.tags.Nodup ∧ x.ended.Nodup ∧
      (∀ queue tag s, b.queues.contains queue = true → ¬b.Awaits queue tag →
        b.settle queue tag s = .error (.unknownDeliveryTag tag) ∧
          b.perform (.settle queue tag s) = b) ∧
      (∀ queue tag, b.Awaits queue tag →
        tag ∈ x.tags ∧ tag ∉ x.ended ∧ ∀ other, b.Awaits other tag → other = queue) ∧
      (∀ earlier later tag, steps = earlier ++ later → tag ∈ (run earlier).tags →
        (∀ queue, ¬(run earlier).broker.Awaits queue tag) → ∀ queue, ¬b.Awaits queue tag) ∧
      (∀ w ∈ b.workers, b.TakesBack w (b.recover w.id) ∧
        ∀ o ∈ (b.queue w.queue).unacked, o.worker = w.id →
          ∀ queue, ¬(b.recover w.id).Awaits queue o.tag) ∧
      (∀ w ∈ b.workers, (b.queue w.queue).heldBy w.id ≤ w.prefetch ∧
        ∀ queue, queue ≠ w.queue → (b.queue queue).heldBy w.id = 0) ∧
      ∀ earlier w later, steps = earlier ++ .endWorker w.id :: later →
        w ∈ (run earlier).broker.workers →
          ∀ queue, (b.queue queue).heldBy w.id = 0 := by
  intro x b
  have sound : x.Sound := sound_run steps
  have ends : x.EndsOnce := endsOnce_run few
  have hb : b = steps.foldl .perform .empty := broker_run steps
  have staffed : b.Staffed := hb ▸ Broker.staffed_run steps
  refine ⟨hb, sound.nodup few, ends.once, fun queue tag s => Broker.settle_unknown (s := s),
    fun queue tag awaited => ⟨?_, ?_, ?_⟩, ?_, fun w hw => ⟨?_, ?_⟩, fun w hw => ⟨?_, ?_⟩, ?_⟩
  · obtain ⟨d, hd, htag, -⟩ := sound.outstanding queue tag awaited
    exact List.mem_map.mpr ⟨d, hd, htag⟩
  · exact fun hended => ends.apart tag hended queue awaited
  · exact fun other ho => sound.queue_eq few ho awaited
  · rintro earlier later tag rfl issued stale queue
    have split : x = later.foldl step (run earlier) := List.foldl_append
    dsimp only [b]
    rw [split]
    refine stale_foldl (sound_run earlier) issued stale ?_ queue
    rw [← split]
    exact few
  · exact Broker.takesBack_recover (staffed.worker?_eq hw)
  · rintro o ho howner queue ⟨o', ho', htag⟩
    have recovered := Broker.takesBack_recover (staffed.worker?_eq hw)
    by_cases hq : queue = w.queue
    · -- no other delivery of the queue has its tag, and this one is with nobody
      rw [hq, recovered.unacked] at ho'
      obtain ⟨hmem, hne⟩ := List.mem_filter.mp ho'
      have distinct := Broker.nodup_unacked steps w.queue
      rw [← hb] at distinct
      rw [List.inj_on_of_nodup_map distinct hmem ho htag] at hne
      exact bne_iff_ne.mp hne howner
    · rw [recovered.others queue hq] at ho'
      exact hq (sound.queue_eq few ⟨o', ho', htag⟩ ⟨o, ho, rfl⟩)
  · exact staffed.limited w hw
  · intro queue hne
    refine staffed.heldBy_eq_zero fun w' hw' hid hq => hne ?_
    rw [← hq, staffed.unique hw' hw hid]
  · rintro earlier w later rfl hw queue
    have earlierStaffed : (run earlier).broker.Staffed :=
      broker_run earlier ▸ Broker.staffed_run earlier
    obtain ⟨given, gone⟩ := Broker.endWorker_gone earlierStaffed hw
    have ended := Broker.gone_foldl given gone later
    rw [broker_run, ← List.foldl_cons (f := Broker.perform), ← List.foldl_append, ← hb] at ended
    exact staffed.heldBy_eq_zero fun w' hw' hid _ => ended w' hw' hid

/-- What was taken back is handed out again under a new tag, and the old one settles nothing. -/
theorem Dispatch.old_tag_settles_nothing :
    let steps : List (BrokerStep Unit) :=
      [.declare ⟨"orders", .topic, some "orders.q", "#"⟩, .enqueue "orders.q" (some "1") "1".toUTF8,
        .startConsumer ⟨"orders.q", 1, 1⟩, .take 0, .recover 0, .take 0]
    let b := (run steps).broker
    b.settle "orders.q" 1 .ack = .error (.unknownDeliveryTag 1) ∧ b.Awaits "orders.q" 2 ∧
      (b.perform (.settle "orders.q" 1 .ack)).Awaits "orders.q" 2 := by
  intro steps b
  obtain ⟨-, -, -, unknown, -⟩ := settles_outstanding_tags_only steps (by decide +kernel)
  obtain ⟨refused, same⟩ := unknown "orders.q" 1 .ack (by decide +kernel) (by decide +kernel)
  have awaited : b.Awaits "orders.q" 2 := by decide +kernel
  exact ⟨refused, awaited, same.symm ▸ awaited⟩

end DurableMessaging
