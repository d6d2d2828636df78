import DurableMessaging.Proofs.Broker.Ledger

/-!
# The broker keeps every copy

A run of the broker is audited for one queue: beside the broker go the ledger of the queue and the
deliveries of all queues. The ledger stays that of the queue, so what holds of it holds of the
broker.
-/

namespace DurableMessaging

variable {κ : Type}

/-- The delivery that a step makes. -/
def Broker.handed? (b : Broker κ) : BrokerStep κ → Option Delivery
  | .take worker => (b.take? worker).map (·.1)
  | _ => none

/-- The settlement that a step makes. -/
def Broker.settled? (b : Broker κ) : BrokerStep κ → Option SettlementRecord
  | .settle queue tag s =>
    ((b.queue queue).settle? tag s).map fun r => ⟨tag, queue, r.1.messageId, s⟩
  | _ => none

/-- A broker with what is remembered about one of its queues. -/
structure Audit (κ : Type) where
  broker : Broker κ
  ledger : Ledger
  /-- Every delivery of the broker, the oldest first. -/
  delivered : List Delivery

namespace Audit

def start : Audit κ := ⟨.empty, .empty, []⟩

def step (name : String) (a : Audit κ) (s : BrokerStep κ) : Audit κ where
  broker := a.broker.perform s
  ledger := a.ledger.apply (a.broker.change name s)
  delivered := a.delivered ++ (a.broker.handed? s).toList

def run (name : String) (steps : List (BrokerStep κ)) : Audit κ := steps.foldl (step name) start

theorem broker_run (name : String) (steps : List (BrokerStep κ)) :
    (run name steps).broker = steps.foldl .perform .empty := by
  suffices h : ∀ a : Audit κ, (steps.foldl (step name) a).broker = steps.foldl .perform a.broker from
    h start
  induction steps with
  | nil => exact fun _ => rfl
  | cons s steps ih => exact fun a => ih (a.step name s)

end Audit

namespace Broker

/-! ## Deliveries and settlements of one step -/

theorem change_fresh {b : Broker κ} {name : String} {step : BrokerStep κ} {c : Copy}
    (h : b.change name step = .push c) : c.redelivered = false := by
  cases step <;> dsimp only [change] at h <;> (repeat' split at h) <;> cases h <;> rfl

theorem settle_eq (b : Broker κ) (queue : String) (tag : DeliveryTag) (s : Settlement) :
    (b.settle queue tag s).toOption =
      ((b.queue queue).settle? tag s).map fun r =>
        { b with
          queues := b.queues.insert queue r.2
          settlements := b.settlements ++ [⟨tag, queue, r.1.messageId, s⟩] } := by
  unfold settle Broker.queue
  cases b.queues.get? queue with
  | none => rfl
  | some q =>
      dsimp only [Option.getD_some]
      cases q.settle? tag s <;> rfl

/-- A delivery takes the next tag, and a settlement is logged. -/
theorem logs_perform (b : Broker κ) (step : BrokerStep κ) :
    (b.perform step).nextTag = b.nextTag + UInt64.ofNat (b.handed? step).toList.length ∧
      (b.perform step).settlements = b.settlements ++ (b.settled? step).toList := by
  have same : b.nextTag = b.nextTag + UInt64.ofNat 0 ∧ b.settlements = b.settlements ++ [] :=
    ⟨(UInt64.add_zero _).symm, (List.append_nil _).symm⟩
  cases step with
  | declare t =>
      dsimp only [perform]
      cases h : b.declare t with
      | error e => exact same
      | ok b' =>
          dsimp only [Except.toOption, Option.getD_some]
          rw [declare_same h]
          exact same
  | publish m callback =>
      dsimp only [perform]
      cases h : b.publish m callback with
      | error e => exact same
      | ok p =>
          obtain ⟨t, -, -, rfl⟩ := publish_eq_ok h
          show (b.taken m t callback).broker.nextTag = _ ∧
            (b.taken m t callback).broker.settlements = _
          unfold taken
          cases b.confirmMode <;> exact same
  | enqueue queue messageId payload =>
      dsimp only [perform, enqueue]
      split <;> exact same
  | startConsumer spec =>
      dsimp only [perform]
      cases h : b.startConsumer spec with
      | error e => exact same
      | ok r =>
          obtain ⟨-, -, -, hr⟩ := startConsumer_eq_ok h
          show r.2.nextTag = _ ∧ r.2.settlements = _
          rw [hr]
          exact same
  | take worker =>
      dsimp only [perform, handed?]
      cases hw : b.worker? worker with
      | none =>
          rw [take?_of_no_worker hw]
          exact same
      | some w =>
          rw [take?_eq hw]
          split
          · cases (b.queue w.queue).take? worker b.nextTag with
            | none => exact same
            | some r => exact ⟨rfl, same.2⟩
          · exact same
  | settle queue tag s =>
      dsimp only [perform, settled?]
      rw [settle_eq]
      cases (b.queue queue).settle? tag s with
      | none => exact same
      | some r => exact ⟨same.1, rfl⟩
  | recover worker =>
      dsimp only [perform, recover]
      cases b.worker? worker <;> exact same
  | endWorker worker =>
      dsimp only [perform, endWorker, recover]
      cases b.worker? worker <;> exact same
  | _ => exact same

theorem handed?_filter {b : Broker κ} {name : String} {l : Ledger} (hq : b.queue name = l.queue)
    (step : BrokerStep κ) :
    (b.handed? step).filter (·.queue == name) =
      (l.ticket? (b.change name step)).map (·.delivery name) := by
  cases step with
  | take worker =>
      dsimp only [handed?, change]
      cases hw : b.worker? worker with
      | none =>
          rw [take?_of_no_worker hw]
          rfl
      | some w =>
          rw [take?_eq hw]
          dsimp only
          by_cases hn : name = w.queue
          · subst hn
            by_cases ha : b.admits w = true
            · rw [if_pos ha, if_pos ⟨rfl, ha⟩, hq]
              cases hr : l.ready with
              | nil => simp [Ledger.queue, Queue.take?, Ledger.ticket?, hr]
              | cons x ready =>
                  simp [Ledger.queue, Queue.take?, Ledger.ticket?, hr, handOver, Ticket.delivery,
                    Option.filter]
            · rw [if_neg ha, if_neg fun h => ha h.2]
              rfl
          · have hne : (w.queue == name) = false := by simpa using Ne.symm hn
            rw [if_neg fun h : name = w.queue ∧ _ => hn h.1]
            split
            · cases (b.queue w.queue).take? worker b.nextTag with
              | none => rfl
              | some r => simp [handOver, Option.filter, hne, Ledger.ticket?]
            · rfl
  | _ =>
      dsimp only [handed?, change]
      repeat' split
      all_goals rfl

theorem tag_of_ticket? {b : Broker κ} {name : String} {l : Ledger} {step : BrokerStep κ}
    {t : Ticket} (h : l.ticket? (b.change name step) = some t) : t.tag = b.nextTag := by
  cases step with
  | take worker =>
      dsimp only [change] at h
      repeat' split at h
      · cases h
      · obtain ⟨x, -, rfl⟩ := Option.map_eq_some_iff.mp h
        rfl
      · cases h
  | _ =>
      dsimp only [change] at h
      repeat' split at h
      all_goals cases h

theorem settled?_filter {b : Broker κ} {name : String} {l : Ledger} (hq : b.queue name = l.queue)
    (step : BrokerStep κ) :
    ((b.settled? step).filter fun r => r.queue == name && r.settlement == .ack).map (·.messageId) =
      (l.acked? (b.change name step)).map (·.copy.messageId) := by
  cases step with
  | settle queue tag s =>
      dsimp only [settled?, change]
      by_cases hn : name = queue
      · subst hn
        have hf : l.queue.unacked.find? (·.tag == tag) =
            (l.unacked.find? (·.tag == tag)).map (·.outstanding) := List.find?_map
        rw [if_pos rfl, hq]
        simp only [Queue.settle?, hf]
        cases hu : l.unacked.find? (·.tag == tag) <;> cases s <;>
          simp [Ledger.acked?, hu, Option.filter, Ticket.outstanding]
      · have hne : (queue == name) = false := by simpa using Ne.symm hn
        rw [if_neg hn]
        cases (b.queue queue).settle? tag s <;> simp [Option.filter, hne, Ledger.acked?]
  | _ =>
      dsimp only [settled?, change]
      repeat' split
      all_goals rfl

end Broker

namespace Audit

/-! ## The audit at all times -/

/-- What holds of an audit at all times. -/
structure Sound (name : String) (a : Audit κ) : Prop where
  ledger : a.ledger.Sound
  queue : a.broker.queue name = a.ledger.queue
  nextTag : a.broker.nextTag = UInt64.ofNat (a.delivered.length + 1)
  tags : ∀ t ∈ a.ledger.unacked, ∃ k < a.delivered.length, t.tag = UInt64.ofNat (k + 1)
  displaced : a.delivered.length ≤ UInt64.size → a.ledger.displaced = []
  delivered : a.delivered.filter (·.queue == name) = a.ledger.handedOut.map (·.delivery name)
  acked : (a.broker.settlements.filter fun r => r.queue == name && r.settlement == .ack).map
    (·.messageId) = a.ledger.acked.map (·.copy.messageId)

theorem ofNat_succ_ne {k n : Nat} (hk : k < n) (hn : n < UInt64.size) :
    UInt64.ofNat (k + 1) ≠ UInt64.ofNat (n + 1) := by
  intro h
  have := congrArg UInt64.toNat h
  simp only [UInt64.toNat_ofNat', UInt64.size] at this hn
  omega

theorem sound_start (name : String) : (start : Audit κ).Sound name where
  ledger := Ledger.sound_empty
  queue := rfl
  nextTag := rfl
  tags := nofun
  displaced := fun _ => rfl
  delivered := rfl
  acked := rfl

theorem filter_append_toList {α : Type} (p : α → Bool) (xs : List α) (x : Option α) :
    (xs ++ x.toList).filter p = xs.filter p ++ (x.filter p).toList := by
  cases x with
  | none => simp
  | some x => by_cases hx : p x = true <;> simp [Option.filter, hx]

theorem Sound.step {name : String} {a : Audit κ} (h : a.Sound name) (s : BrokerStep κ) :
    (a.step name s).Sound name := by
  obtain ⟨hTag, hLog⟩ := a.broker.logs_perform s
  have hHanded := Broker.handed?_filter h.queue s
  have one : ∀ t, a.ledger.ticket? (a.broker.change name s) = some t →
      (a.broker.handed? s).toList.length = 1 := by
    intro t ht
    rw [ht, Option.map_some] at hHanded
    obtain ⟨hd, -⟩ := Option.filter_eq_some_iff.mp hHanded
    rw [hd]
    rfl
  have length : (a.step name s).delivered.length =
      a.delivered.length + (a.broker.handed? s).toList.length := List.length_append
  refine ⟨h.ledger.apply fun c => Broker.change_fresh, ?_, ?_, ?_, ?_, ?_, ?_⟩
  · show (a.broker.perform s).queue name = (a.ledger.apply (a.broker.change name s)).queue
    rw [Broker.queue_perform, h.queue, Ledger.queue_apply]
  · show (a.broker.perform s).nextTag = _
    rw [hTag, h.nextTag, length, ← UInt64.ofNat_add, Nat.add_right_comm]
  · intro t ht
    rcases Ledger.mem_unacked_apply ht with ht | ht
    · obtain ⟨k, hk, hkt⟩ := h.tags t ht
      exact ⟨k, by omega, hkt⟩
    · have := one t ht
      exact ⟨a.delivered.length, by omega, (Broker.tag_of_ticket? ht).trans h.nextTag⟩
  · intro bound
    refine Eq.trans (Ledger.displaced_apply ?_) (h.displaced (by omega))
    intro t ht u hu
    obtain ⟨k, hk, hku⟩ := h.tags u hu
    have := one t ht
    rw [hku, Broker.tag_of_ticket? ht, h.nextTag]
    exact ofNat_succ_ne hk (by omega)
  · show (a.delivered ++ (a.broker.handed? s).toList).filter _ =
      (a.ledger.apply (a.broker.change name s)).handedOut.map _
    rw [filter_append_toList, hHanded, h.delivered, Ledger.handedOut_apply, List.map_append]
    cases a.ledger.ticket? (a.broker.change name s) <;> rfl
  · have hSettled := Broker.settled?_filter h.queue s
    show ((a.broker.perform s).settlements.filter _).map _ =
      (a.ledger.apply (a.broker.change name s)).acked.map _
    rw [hLog, filter_append_toList, List.map_append, h.acked, Ledger.acked_apply, List.map_append]
    refine congrArg _ ?_
    rw [← Option.toList_map, ← Option.toList_map, hSettled]

theorem sound_run (name : String) (steps : List (BrokerStep κ)) : (run name steps).Sound name := by
  suffices h : ∀ a : Audit κ, a.Sound name → (steps.foldl (Audit.step name) a).Sound name from
    h start (sound_start name)
  induction steps with
  | nil => exact fun _ h => h
  | cons s steps ih => exact fun a h => ih _ (h.step s)

end Audit

/-- At the end of any run of the broker, each copy ever put on a queue is in one place: ready,
unacknowledged under one tag, a dead letter or acknowledged. It is displaced only if there were more
deliveries than tags. No copy changes but for its mark, which a delivery bears just if its copy was
handed out before, and a worker's step on another queue changes nothing. -/
theorem Broker.conserves_copies (name : String) (steps : List (BrokerStep κ)) :
    let a := Audit.run name steps
    let l := a.ledger
    a.broker = steps.foldl .perform .empty ∧
      a.broker.queue name = l.queue ∧
      (l.everywhere.map (·.number)).Perm (List.range l.arrivals.length) ∧
      (a.delivered.length ≤ UInt64.size → l.displaced = []) ∧
      (l.unacked.map (·.tag)).Nodup ∧
      (a.broker.settlements.filter fun r => r.queue == name && r.settlement == .ack).map
        (·.messageId) = l.acked.map (·.copy.messageId) ∧
      (∀ x ∈ l.everywhere, ∃ c, l.arrivals[x.number]? = some c ∧ c.SameMessage x.copy) ∧
      a.delivered.filter (·.queue == name) = l.handedOut.map (·.delivery name) ∧
      (∀ earlier t later, l.handedOut = earlier ++ t :: later →
        (∃ c, l.arrivals[t.held.number]? = some c ∧ c.SameMessage t.held.copy) ∧
          (t.held.copy.redelivered = true ↔ t.held.number ∈ earlier.map (·.held.number))) ∧
      (∀ step : BrokerStep κ, step.ofWorker = true → a.broker.queueOf? step ≠ some name →
        (a.broker.perform step).queues.get? name = a.broker.queues.get? name) := by
  intro a l
  have h : a.Sound name := Audit.sound_run name steps
  refine ⟨Audit.broker_run name steps, h.queue, h.ledger.places, h.displaced, h.ledger.tags, h.acked,
    h.ledger.unchanged, h.delivered, ?_, fun step => get?_perform_of_ne⟩
  intro earlier t later he
  have ht : t ∈ l.handedOut := by
    rw [he]
    exact List.mem_append_right _ List.mem_cons_self
  exact ⟨h.ledger.handedOut t ht, h.ledger.history earlier t later he⟩

end DurableMessaging
