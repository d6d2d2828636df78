import DurableMessaging.Proofs.Outbox.Steady
import DurableMessaging.Proofs.Pipeline.Run

/-!
# A message is processed once

A handler that succeeds leaves a dedup record, and while that lasts the message counts as a duplicate.
Between the look for a record and the writing of one a delivery passes through four phases.
-/

namespace DurableMessaging

/-! ## Decisions that only keep count -/

/-- Whether a decision calls no handler and leaves every record in its place. -/
def Decision.Quiet : Decision → Prop
  | .done _ => True
  | .ask call next => call.isGentle = true ∧ ∀ r, (next r).Quiet
  | .handle _ _ => False

namespace DecisionRule

theorem quiet_incrementRetries (key : String) : (incrementRetries key).Quiet := by
  refine ⟨rfl, fun r => ?_⟩
  cases r <;> trivial

theorem quiet_startRetries (rule : DecisionRule) (key : String) :
    (rule.startRetries key).Quiet := by
  refine ⟨rfl, fun r => ?_⟩
  cases r with
  | returned stored =>
      cases stored
      · exact quiet_incrementRetries key
      · trivial
  | failed e => trivial
  | crashed => trivial

theorem quiet_afterFailure (rule : DecisionRule) (queue messageId : String) :
    (rule.afterFailure queue messageId).Quiet := by
  refine ⟨rfl, fun r => ?_⟩
  cases r with
  | returned counter =>
      cases counter with
      | none =>
          show Decision.Quiet (if _ then _ else _)
          split
          · trivial
          · exact quiet_startRetries rule _
      | some text =>
          dsimp only
          split
          · trivial
          · split
            · trivial
            · exact quiet_incrementRetries _
  | failed e => trivial
  | crashed => trivial

end DecisionRule

theorem Handling.succeededFor_iff {x : Handling} {queue messageId : String} :
    x.succeededFor queue messageId = true ↔
      x.delivery.queue = queue ∧ x.delivery.messageId = some messageId ∧
        x.reply = .returned true := by
  simp only [succeededFor, Bool.and_eq_true, beq_iff_eq, and_assoc]

/-! ## Phases -/

/-- How far a decision about a delivery has come. -/
inductive Phase (rule : DecisionRule) (handlings : List Handling) (d : Delivery) : Decision → Prop
  | start : Phase rule handlings d (rule.decide d)
  /-- No record was found, and rightly so. -/
  | fresh {messageId : String} {payload : Json.Value} (hid : d.messageId = some messageId)
      (none : ∀ x ∈ handlings, x.succeededFor d.queue messageId = false) :
      Phase rule handlings d (rule.process d.queue messageId payload)
  /-- The handler succeeded, and the record has yet to be written. -/
  | owed (messageId : String) : Phase rule handlings d (rule.afterSuccess d.queue messageId)
  | quiet {q : Decision} (hq : q.Quiet) : Phase rule handlings d q

namespace Pipeline

/-- What is remembered of the handler's successes. -/
structure Frugal (rule : DecisionRule) (p : Pipeline) : Prop where
  available : p.deployment.cache.available = true
  engines : ∀ e, p.deployment.engines[0]? = some e → e.rule = rule
  backed : p.deployment.cache.Backs p.records
  remembered : ∀ x ∈ p.handlings, ∀ queue messageId, x.succeededFor queue messageId = true →
    (∃ r ∈ p.records, r.1 = CacheKey.dedup queue messageId) ∨
      ∃ d, p.inHand = some (d, rule.afterSuccess queue messageId)
  once : ∀ queue messageId, p.handlings.countP (·.succeededFor queue messageId) ≤ 1
  phase : ∀ d q, p.inHand = some (d, q) → Phase rule p.handlings d q

theorem steady_cache (c : Cache) (es : List Engine) :
    Outbox.Steady fun (d : Deployment Unit) _ => d.cache = c ∧ d.engines = es where
  quiet hp hd _ := ⟨hd.cache.trans hp.1, hd.engines.trans hp.2⟩
  declare hp _ := hp
  accept hp _ _ := hp

namespace Frugal

variable {rule : DecisionRule} {p : Pipeline}

theorem start (now : Instant) (first : RowId) (e : Engine) :
    (Pipeline.start now first e).Frugal e.rule where
  available := rfl
  engines := by
    intro e' he
    cases he
    rfl
  backed := nofun
  remembered := nofun
  once := fun _ _ => Nat.zero_le _
  phase := nofun

theorem keep (h : p.Frugal rule) {d : Deployment Unit} (hc : d.cache = p.deployment.cache)
    (he : d.engines = p.deployment.engines) : (p.withDeployment d).Frugal rule where
  available := (congrArg (·.available) hc).trans h.available
  engines := fun e he' => h.engines e (he ▸ he')
  backed := hc.symm ▸ h.backed
  remembered := h.remembered
  once := h.once
  phase := h.phase

theorem consume (h : p.Frugal rule) (target : ConsumeTarget) : (p.consume target).Frugal rule := by
  rcases p.consume_cases target with hp | ⟨b, worker, -, hp | ⟨spec, ids, b', -, hp⟩⟩ <;> rw [hp]
  · exact h
  · exact h.keep rfl rfl
  · exact ⟨h.available, h.engines, h.backed, h.remembered, h.once, h.phase⟩

theorem take (h : p.Frugal rule) : p.take.Frugal rule := by
  rcases p.take_cases with hp | ⟨w, e, delivery, b, hi, he, -, hp⟩ <;> rw [hp]
  · exact h
  · refine ⟨h.available, h.engines, h.backed, fun x hx queue messageId hs => ?_, h.once, ?_⟩
    · rcases h.remembered x hx queue messageId hs with hr | ⟨d, hd⟩
      · exact .inl hr
      · rw [hi] at hd
        cases hd
    · intro d q hq
      cases hq
      rw [h.engines e he]
      exact .start

/-- Every success is recorded unless the decision in hand is about to record it. -/
theorem recorded (h : p.Frugal rule) {d : Delivery} {q : Decision} (hi : p.inHand = some (d, q))
    (hq : ∀ queue messageId, q ≠ rule.afterSuccess queue messageId) {x : Handling}
    (hx : x ∈ p.handlings) {queue messageId : String} (hs : x.succeededFor queue messageId = true) :
    ∃ r ∈ p.records, r.1 = CacheKey.dedup queue messageId := by
  rcases h.remembered x hx queue messageId hs with hr | ⟨d', hd⟩
  · exact hr
  · cases hi.symm.trans hd
    exact absurd rfl (hq queue messageId)

theorem conclude (h : p.Frugal rule) {d : Delivery} {v : Verdict}
    (hi : p.inHand = some (d, .done v)) :
    Frugal rule { p.withDeployment (p.deployment.conclude d v) with inHand := none } := by
  have same : (p.deployment.settle d.queue d.tag v.action.settlement).2.cache = p.deployment.cache ∧
      (p.deployment.settle d.queue d.tag v.action.settlement).2.engines = p.deployment.engines := by
    unfold Deployment.settle
    split <;> exact ⟨rfl, rfl⟩
  refine ⟨?_, ?_, ?_, ?_, h.once, nofun⟩
  · exact (congrArg (·.available) same.1).trans h.available
  · intro e he
    have he' : (p.deployment.engines.modify 0 fun e =>
        (e.countVerdict v).countAction v.action)[0]? = some e := same.2 ▸ he
    rw [List.getElem?_modify_eq] at he'
    obtain ⟨e₀, he₀, rfl⟩ := Option.map_eq_some_iff.mp he'
    rw [← h.engines e₀ he₀]
    cases v <;> rfl
  · exact same.1.symm ▸ h.backed
  · intro x hx queue messageId hs
    refine .inl (h.recorded hi (fun queue messageId heq => ?_) hx hs)
    unfold DecisionRule.afterSuccess at heq
    cases heq

theorem ask (h : p.Frugal rule) (lasting : p.Lasting) {d : Delivery} {call : CacheCall}
    {next : Reply CacheError call.Answer → Decision} (hi : p.inHand = some (d, .ask call next))
    (gentle : call.isGentle = true) (reply : Reply HandlerError Bool)
    (hp : Phase rule p.handlings d (next (.ofExcept (p.deployment.callCache call).1))) :
    (p.proceed reply).Frugal rule := by
  have quiet : call.record? p.deployment.now = none := by
    cases call <;> first | rfl | cases gentle
  rw [proceed_ask hi, quiet]
  refine ⟨?_, h.engines, ?_, ?_, h.once, ?_⟩
  · exact (Cache.available_perform _ _ _).trans h.available
  · rw [Option.toList_none, List.append_nil]
    exact h.backed.keep lasting (Cache.keeps_perform _ _ gentle)
  · intro x hx queue messageId hs
    refine .inl ?_
    rw [Option.toList_none, List.append_nil]
    refine h.recorded hi (fun queue messageId heq => ?_) hx hs
    unfold DecisionRule.afterSuccess at heq
    cases heq
    cases gentle
  · intro d' q hq
    cases hq
    exact hp

/-- The look for a record. If none is found there is none, as every record lasts. -/
theorem look (h : p.Frugal rule) (lasting : p.Lasting) {d : Delivery}
    (hi : p.inHand = some (d, rule.decide d)) (reply : Reply HandlerError Bool) :
    (p.proceed reply).Frugal rule := by
  unfold DecisionRule.decide at hi
  cases hid : DecisionRule.messageId? d with
  | none =>
      rw [hid] at hi
      rw [proceed_done hi]
      exact h.conclude hi
  | some messageId =>
      cases hpayload : Json.Value.ofPayload? d.payload with
      | none =>
          rw [hid, hpayload] at hi
          rw [proceed_done hi]
          exact h.conclude hi
      | some payload =>
          rw [hid, hpayload] at hi
          refine h.ask lasting hi rfl reply ?_
          unfold Deployment.callCache
          rw [Cache.perform_of_available h.available]
          dsimp only [Cache.answer, Reply.ofExcept]
          cases hl : (p.deployment.cache.live? p.deployment.now
              (CacheKey.dedup d.queue messageId)).isSome with
          | true => exact .quiet trivial
          | false =>
              refine .fresh (Option.filter_eq_some_iff.mp hid).1 fun x hx => ?_
              cases hs : x.succeededFor d.queue messageId with
              | false => rfl
              | true =>
                  obtain ⟨r, hr, hkey⟩ := h.recorded hi nofun hx hs
                  have := h.backed.live lasting hr
                  rw [hkey, hl] at this
                  cases this

/-- The call of the handler, which has not succeeded for the message so far. -/
theorem handle (h : p.Frugal rule) {d : Delivery} {messageId : String} {payload : Json.Value}
    (hi : p.inHand = some (d, rule.process d.queue messageId payload))
    (hid : d.messageId = some messageId)
    (none : ∀ x ∈ p.handlings, x.succeededFor d.queue messageId = false)
    (reply : Reply HandlerError Bool) : (p.proceed reply).Frugal rule := by
  have new : ∀ {queue id}, Handling.succeededFor ⟨d, reply⟩ queue id = true →
      queue = d.queue ∧ id = messageId ∧ reply = .returned true := by
    intro queue id hs
    obtain ⟨hqueue, hid', hreply⟩ := Handling.succeededFor_iff.mp hs
    exact ⟨hqueue.symm, Option.some.inj (hid'.symm.trans hid), hreply⟩
  rw [proceed_handle hi]
  refine ⟨h.available, h.engines, h.backed, ?_, ?_, ?_⟩
  · intro x hx queue id hs
    rcases List.mem_append.mp hx with hx | hx
    · exact .inl (h.recorded hi nofun hx hs)
    · cases List.mem_singleton.mp hx
      obtain ⟨rfl, rfl, rfl⟩ := new hs
      exact .inr ⟨d, rfl⟩
  · intro queue id
    rw [List.countP_append, List.countP_singleton]
    split
    · rename_i hs
      obtain ⟨rfl, rfl, -⟩ := new hs
      have zero : p.handlings.countP (·.succeededFor d.queue id) = 0 :=
        List.countP_eq_zero.mpr fun x hx => by simp [none x hx]
      exact Nat.succ_le_succ (Nat.le_of_eq zero)
    · exact h.once queue id
  · intro d' q hq
    cases hq
    cases reply with
    | returned processed =>
        cases processed
        · exact .quiet (rule.quiet_afterFailure _ _)
        · exact .owed messageId
    | failed e => exact .quiet trivial
    | crashed => exact .quiet trivial

theorem record (h : p.Frugal rule) {d : Delivery} {messageId : String}
    (hi : p.inHand = some (d, rule.afterSuccess d.queue messageId))
    (reply : Reply HandlerError Bool) (lasting : (p.proceed reply).Lasting) :
    (p.proceed reply).Frugal rule := by
  rw [proceed_ask hi] at lasting ⊢
  refine ⟨?_, h.engines, h.backed.set h.available lasting, ?_, h.once, ?_⟩
  · exact (Cache.available_perform _ _ _).trans h.available
  · intro x hx queue id hs
    refine .inl ?_
    rcases h.remembered x hx queue id hs with ⟨r, hr, hkey⟩ | ⟨d', hd⟩
    · exact ⟨r, List.mem_append_left _ hr, hkey⟩
    · refine ⟨_, List.mem_append_right _ List.mem_cons_self, ?_⟩
      have heq := hi.symm.trans hd
      unfold DecisionRule.afterSuccess at heq
      simp only [Option.some.injEq, Prod.mk.injEq, Decision.ask.injEq, CacheCall.set.injEq] at heq
      exact heq.2.1.1
  · intro d' q hq
    cases hq
    refine .quiet ?_
    rw [Deployment.callCache, Cache.perform_of_available h.available]
    trivial

theorem proceed (h : p.Frugal rule) (reply : Reply HandlerError Bool) (before : p.Lasting)
    (after : (p.proceed reply).Lasting) : (p.proceed reply).Frugal rule := by
  cases hi : p.inHand with
  | none =>
      rw [proceed_idle hi]
      exact h
  | some x =>
      obtain ⟨d, q⟩ := x
      cases h.phase d q hi with
      | start => exact h.look before hi reply
      | fresh hid none => exact h.handle hi hid none reply
      | owed messageId => exact h.record hi reply after
      | quiet hq =>
          cases q with
          | done v =>
              rw [proceed_done hi]
              exact h.conclude hi
          | ask call next => exact h.ask before hi hq.1 reply (.quiet (hq.2 _))
          | handle payload next => exact hq.elim

theorem step (h : p.Frugal rule) (m : PipelineMove) (before : p.Lasting)
    (after : (p.step m).Lasting) : (p.step m).Frugal rule := by
  cases m with
  | outbox o =>
      obtain ⟨hc, he⟩ := (steady_cache p.deployment.cache p.deployment.engines).step
        (o := p.chronicle.outbox) (h := p.history) ⟨rfl, rfl⟩ o
      exact
        { available := (congrArg (·.available) hc).trans h.available
          engines := fun e he' => h.engines e (he ▸ he')
          backed := hc.symm ▸ h.backed
          remembered := h.remembered
          once := h.once
          phase := h.phase }
  | declare t =>
      dsimp only [Pipeline.step]
      rcases declare_cases t p.deployment with hd | ⟨b, -, hd⟩ <;> rw [hd]
      · exact h
      · exact h.keep rfl rfl
  | consume target => exact h.consume target
  | take => exact h.take
  | proceed reply => exact h.proceed reply before after
  | sweepCache =>
      exact ⟨h.available, h.engines, h.backed.keep before (Cache.keeps_sweep _ _), h.remembered,
        h.once, h.phase⟩

end Frugal

/-- While no dedup record expires, the handler's successes are remembered. -/
theorem frugal_run {now : Instant} {first : RowId} {e : Engine} {moves : List PipelineMove}
    (lasting : ∀ earlier, earlier <+: moves → (run now first e earlier).Lasting) :
    (run now first e moves).Frugal e.rule := by
  suffices h : ∀ p : Pipeline, p.Frugal e.rule →
      (∀ earlier, earlier <+: moves → (earlier.foldl Pipeline.step p).Lasting) →
      (moves.foldl Pipeline.step p).Frugal e.rule from h _ (.start now first e) lasting
  clear lasting
  induction moves with
  | nil => exact fun _ h _ => h
  | cons m moves ih =>
      intro p h lasting
      have before := lasting [] (List.nil_prefix)
      have after := lasting [m] (List.prefix_append [m] moves)
      refine ih (p.step m) (h.step m before after) fun earlier he => ?_
      exact lasting (m :: earlier) (List.cons_prefix_cons.mpr ⟨rfl, he⟩)

end Pipeline

end DurableMessaging
