import DurableMessaging.Proofs.Pipeline.Dedup
import DurableMessaging.Proofs.Pipeline.Placement
import Mathlib.Data.List.Infix

/-!
# From a commit to the handler

A committed row is pending until a copy of its message is on every queue that its message led to
when it was committed, and the handler succeeds once at most for a message on a queue.
-/

namespace DurableMessaging

namespace Pipeline

/-- No publish of a row is taken before the row is committed. -/
theorem not_accepted_before {first : RowId} {p p' : Pipeline} (hs : p.Sound first)
    (hs' : p'.Sound first) (hp : ∃ h, p'.history = p.history ++ h) {row : Row}
    (hrow : row ∈ p'.history.committed) (hb : row ∉ p.history.committed)
    (callback : ConfirmCallback) : .accepted row.message callback ∉ p.history := by
  intro hm
  obtain ⟨earlier, later, he⟩ := List.append_of_mem hm
  obtain ⟨r, settler, hr, hmsg, -⟩ := hs.books.inOrder earlier _ callback later he
  have hrc : r ∈ p.history.committed := by
    rw [History.mem_committed, he]
    exact List.mem_append_left _ hr
  have hrc' : r ∈ p'.history.committed := by
    obtain ⟨h, hh⟩ := hp
    rw [hh, History.committed_append]
    exact List.mem_append_left _ hrc
  have hid : row.id = r.id := Option.some.inj (congrArg (·.correlation) hmsg)
  have same : row = r :=
    hs'.books.eq_of_id_eq (List.mem_append_left _ (List.mem_append_right _ hrow))
      (List.mem_append_left _ (List.mem_append_right _ hrc')) hid
  exact hb (same ▸ hrc)

/-- A committed row that is not pending has been published with an ack. -/
theorem confirmed_of_not_pending {first : RowId} {p : Pipeline} (hs : p.Sound first) {row : Row}
    (hrow : row ∈ p.history.committed)
    (hp : ∀ r, p.deployment.store.table.get? row.id = some r → r.isPending = false) :
    p.history.Confirmed row := by
  rcases hs.books.kept row hrow with hm | hc
  · have hpending := hp row (Table.get?_eq_some_iff.mpr ⟨hm, rfl⟩)
    have := hs.books.pending row (List.mem_append_right _ hrow)
    rw [Row.isPending, this] at hpending
    cases hpending
  · exact hc

/-- While ids last, a committed row that is not pending any more was published to every queue that
its message led to before it was committed, and each copy of it that was placed there is ready,
outstanding, a dead letter or acknowledged. While no dedup record expires, the handler tells at most
once that a message of a queue is processed. -/
theorem places_rows_and_processes_once (now : Instant) (first : RowId) (e : Engine)
    (moves : List PipelineMove) (few : (run now first e moves).history.allocations < UInt64.size)
    (lasting : ∀ earlier, earlier <+: moves → (run now first e earlier).Lasting) :
    let p := run now first e moves
    (∀ earlier row queue, earlier <+: moves →
      (run now first e earlier).deployment.broker.Leads queue row.message →
      row ∉ (run now first e earlier).history.committed → row ∈ p.history.committed →
      (∀ r, p.deployment.store.table.get? row.id = some r → r.isPending = false) →
      p.deployment.broker.Placed queue row.message ∧
        0 < (p.deployment.broker.queue queue).copies row.messageId +
          p.deployment.broker.acked queue row.messageId ∧
        (p.deployment.broker.queue queue).copies row.messageId +
          p.deployment.broker.acked queue row.messageId =
            p.deployment.broker.placed queue row.messageId) ∧
      ∀ queue messageId, p.handlings.countP (·.succeededFor queue messageId) ≤ 1 := by
  intro p
  refine ⟨?_, (frugal_run lasting).once⟩
  rintro earlier row queue ⟨later, rfl⟩ hleads hbefore hrow hpending
  have hp : p = later.foldl step (run now first e earlier) := run_append _ _ _ _ _
  have hs : p.Sound first := sound_run few
  have hs₁ : (run now first e earlier).Sound first := by
    refine sound_run (Nat.lt_of_le_of_lt (allocations_le_foldl later _) ?_)
    rw [← hp]
    exact few
  have hnone := not_accepted_before hs₁ hs (hp ▸ history_foldl later _) hrow hbefore
  obtain ⟨settler, haccepted, -⟩ := confirmed_of_not_pending hs hrow hpending
  have hplaced : p.deployment.broker.Placed queue row.message := by
    have := leads_foldl queue row.message later (p := run now first e earlier)
      ⟨hleads, fun ⟨callback, hc⟩ => absurd hc (hnone callback)⟩
    rw [← hp] at this
    exact this.2 ⟨_, haccepted⟩
  have hbalanced := (stocked_run now first e (earlier ++ later)).balanced.balanced queue row.messageId
  exact ⟨hplaced, Nat.lt_of_lt_of_eq hplaced.pos hbalanced.symm, hbalanced⟩

/-- The message of a row whose first confirm was lost is published again, and not processed again. -/
theorem absorbs_duplicate_of_lost_confirm :
    let target := ConsumeTarget.of "orders" "order.placed" "billing"
    let ok := PipelineMove.proceed (.returned true)
    let moves : List PipelineMove :=
      [.declare target.topology, .outbox (.addSettler .delete), .outbox (.setConfirmMode .hold),
        .outbox (.trySend ⟨0, .topic⟩ ⟨"orders", "order.placed", "1", none, none, none⟩),
        .consume target, .take, ok, ok, ok, ok,
        .outbox .loseHeld, .outbox (.setConfirmMode .ack), .outbox (.startPass ⟨0, 10, 0⟩),
        .outbox (.stepPass 0), .outbox (.stepPass 0), .take, ok, ok]
    let p := run 0 41 .standard moves
    p.history.allocations < UInt64.size ∧
      (∀ earlier, earlier <+: moves → (run 0 41 .standard earlier).Lasting) ∧
      p.deployment.broker.settlements.map (·.settlement) = [.ack, .ack] ∧
      p.handlings.map (·.reply) = [.returned true] ∧
      p.history.committed.map (·.id) = [41] ∧
      (∀ row ∈ p.history.committed, p.deployment.broker.Placed "billing" row.message) ∧
      ∀ messageId, p.handlings.countP (·.succeededFor "billing" messageId) ≤ 1 := by
  intro target ok moves p
  have few : p.history.allocations < UInt64.size := by decide +kernel
  have lasting : ∀ earlier, earlier <+: moves → (run 0 41 .standard earlier).Lasting := by
    have all : ∀ earlier ∈ moves.inits, (run 0 41 .standard earlier).Lasting := by decide +kernel
    exact fun earlier he => all earlier ((List.mem_inits _ _).mpr he)
  obtain ⟨placed, once⟩ := places_rows_and_processes_once 0 41 .standard moves few lasting
  refine ⟨few, lasting, by decide +kernel, by decide +kernel, by decide +kernel, ?_, once "billing"⟩
  intro row hrow
  -- The route was there before anything was sent.
  have route : ∀ row ∈ p.history.committed,
      let earlier := run 0 41 .standard [.declare target.topology]
      earlier.deployment.broker.exchanges.get? row.message.exchange = some .topic ∧
        "billing" ∈ earlier.deployment.broker.targets row.message.exchange .topic
          row.message.routingKey ∧
        row ∉ earlier.history.committed ∧ p.deployment.store.table.get? row.id = none := by
    decide +kernel
  obtain ⟨hexchange, htargets, hnew, hgone⟩ := route row hrow
  refine (placed [.declare target.topology] row "billing" (List.prefix_append _ _)
    ⟨.topic, hexchange, htargets⟩ hnew hrow fun r hr => ?_).1
  cases hgone.symm.trans hr

end Pipeline

end DurableMessaging
