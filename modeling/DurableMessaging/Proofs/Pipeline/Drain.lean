import DurableMessaging.Proofs.Consumer.Patience
import DurableMessaging.Proofs.Pipeline.Shift

/-!
# Draining a queue

A worker alone at a queue takes its messages one after another. One that is retried goes back to the
front, so it is taken again before any other, and each time fewer retries are left for it. So every
message is settled for good in its turn, as if nothing were put back at all, and then the queue is
empty.
-/

namespace DurableMessaging

/-- The message id of a copy, unless it is blank. -/
def Copy.id? (c : Copy) : Option String := c.messageId.filter fun id => !Text.isBlankText id

/-! ## Fates -/

/-- What becomes of a copy: it is requeued some times and then accepted or rejected. -/
structure Fate where
  copy : Copy
  requeues : Nat
  accepted : Bool
  deriving DecidableEq

namespace Fate

def settlements (f : Fate) : List (Option String × Settlement) :=
  (List.replicate f.requeues Settlement.requeue ++
    [if f.accepted then Settlement.ack else Settlement.reject]).map (f.copy.messageId, ·)

def deadLetters (f : Fate) : List Copy :=
  if f.accepted then [] else [if f.requeues = 0 then f.copy else f.copy.asRedelivered]

/-- The fate of a copy that is requeued and then meets a fate. -/
def requeued (c : Copy) (f : Fate) : Fate := ⟨c, f.requeues + 1, f.accepted⟩

theorem settlements_requeued {c : Copy} {f : Fate} (h : f.copy = c.asRedelivered) :
    (requeued c f).settlements = [(c.messageId, .requeue)] ++ f.settlements := by
  have same : f.copy.messageId = c.messageId := by rw [h]; rfl
  unfold settlements requeued
  rw [same, List.replicate_succ]
  rfl

theorem deadLetters_requeued {c : Copy} {f : Fate} (h : f.copy = c.asRedelivered) :
    (requeued c f).deadLetters = f.deadLetters := by
  have last : (if f.requeues = 0 then f.copy else f.copy.asRedelivered) = c.asRedelivered := by
    rw [h]
    exact ite_self _
  unfold deadLetters
  rw [last]
  rfl

end Fate

theorem Verdict.eq_retry {v : Verdict} (h : v.action = .retry) : v = .retry := by
  cases v with
  | retry => rfl
  | _ => cases h

namespace Shift

/-! ## Sequential processing -/

/-- A copy is decided about again and again until it is accepted or rejected. -/
inductive Processes (s : Shift) (rule : DecisionRule) (queue : String) :
    Copy → Desk → Fate → Desk → Prop
  | accepted {c : Copy} {x : Desk} : (s.decision rule queue c x).1.action = .accept →
      Processes s rule queue c x ⟨c, 0, true⟩ (s.decision rule queue c x).2
  | rejected {c : Copy} {x : Desk} : (s.decision rule queue c x).1.action = .reject →
      Processes s rule queue c x ⟨c, 0, false⟩ (s.decision rule queue c x).2
  | retried {c : Copy} {x y : Desk} {f : Fate} : (s.decision rule queue c x).1.action = .retry →
      Processes s rule queue c.asRedelivered (s.decision rule queue c x).2 f y →
      Processes s rule queue c x (.requeued c f) y

/-- Copies are processed one after another. -/
inductive ProcessesAll (s : Shift) (rule : DecisionRule) (queue : String) :
    List Copy → Desk → List Fate → Desk → Prop
  | nil {x : Desk} : ProcessesAll s rule queue [] x [] x
  | cons {c : Copy} {cs : List Copy} {x y z : Desk} {f : Fate} {fs : List Fate} :
      Processes s rule queue c x f y → ProcessesAll s rule queue cs y fs z →
      ProcessesAll s rule queue (c :: cs) x (f :: fs) z

variable {s : Shift} {rule : DecisionRule} {queue : String} {w : Worker} {c : Copy}
  {ready dead : List Copy} {d d' d'' : Deployment Logbook}

theorem Processes.copy_eq {x y : Desk} {f : Fate} (h : s.Processes rule queue c x f y) :
    f.copy = c := by
  cases h <;> rfl

theorem ProcessesAll.copies_eq {x y : Desk} {fates : List Fate}
    (h : s.ProcessesAll rule queue ready x fates y) : fates.map (·.copy) = ready := by
  induction h with
  | nil => rfl
  | cons first _ ih => rw [List.map_cons, first.copy_eq, ih]

/-! ## Settlements -/

/-- A worker serves a queue on which nothing is under way. -/
structure Serves (s : Shift) (rule : DecisionRule) (w : Worker) (q : Queue)
    (d : Deployment Logbook) : Prop where
  engine : ∃ e, d.engines[s.engine]? = some e ∧ e.rule = rule
  worker : d.broker.worker? s.worker = some w
  room : 1 ≤ w.prefetch
  available : d.broker.available = true
  queue : d.broker.queues.get? w.queue = some q
  regular : d.bench.Regular w.queue

/-- A run in which deliveries of a queue were settled one after another. -/
structure Settles (s : Shift) (queue : String) (settled : List (Option String × Settlement))
    (d d' : Deployment Logbook) : Prop where
  turns : s.turns settled.length d = some d'
  log : ∃ records, d'.broker.settlements = d.broker.settlements ++ records ∧
    records.map (fun r => (r.queue, r.messageId, r.settlement)) = settled.map (queue, ·)

theorem Settles.refl (s : Shift) (queue : String) (d : Deployment Logbook) :
    s.Settles queue [] d d :=
  ⟨rfl, [], (List.append_nil _).symm, rfl⟩

theorem Settles.trans {settled settled' : List (Option String × Settlement)}
    (h : s.Settles queue settled d d') (h' : s.Settles queue settled' d' d'') :
    s.Settles queue (settled ++ settled') d d'' := by
  obtain ⟨records, hlog, hrecords⟩ := h.log
  obtain ⟨records', hlog', hrecords'⟩ := h'.log
  refine ⟨?_, records ++ records', ?_, ?_⟩
  · rw [List.length_append, turns_add, h.turns]
    exact h'.turns
  · rw [hlog', hlog, List.append_assoc]
  · rw [List.map_append, List.map_append, hrecords, hrecords']

/-- No retry counter of a queue expires before the end of the next delivery. -/
def Lasting (s : Shift) (queue : String) (d : Deployment Logbook) : Prop :=
  ∀ n d₁ d₂, s.turns n d = some d₁ → s.turn? d₁ = some d₂ → d₁.bench.LastsUntil queue d₂.now

theorem Lasting.later (h : s.Lasting queue d) {settled : List (Option String × Settlement)}
    (settles : s.Settles queue settled d d') : s.Lasting queue d' := by
  intro n d₁ d₂ h₁ h₂
  refine h (settled.length + n) d₁ d₂ ?_ h₂
  rw [turns_add, settles.turns]
  exact h₁

/-- One delivery settles the front copy; if it is retried, fewer retries are left for it. -/
theorem Serves.turn (h : s.Serves rule w ⟨c :: ready, [], dead⟩ d)
    (ttl : rule.retryTtl ≠ some 0) (lasting : s.Lasting w.queue d) :
    let v := (s.decision rule w.queue c d.desk).1
    ∃ d', d'.desk = (s.decision rule w.queue c d.desk).2 ∧
      s.Settles w.queue [(c.messageId, v.action.settlement)] d d' ∧
      s.Serves rule w (.afterFront c ready dead v.action.settlement) d' ∧
      (v.action = .retry → rule.left w.queue c.id? d'.bench < rule.left w.queue c.id? d.bench) := by
  obtain ⟨e, he, rfl⟩ := h.engine
  obtain ⟨d', taken, hdesk, hbroker, hengines⟩ :=
    turn?_of_front he h.worker h.room h.available h.queue
  have hbench : d'.bench = (s.decision e.rule w.queue c d.desk).2.bench :=
    congrArg Desk.bench hdesk
  have lasts : d.bench.LastsUntil w.queue d'.bench.now := lasting 0 d d' rfl taken
  rw [hbench] at lasts
  have bound := DecisionRule.left_decide
    (s.attempt d.bench (c.delivered d.broker.nextTag w.queue)) s.pauses ttl h.regular
  obtain ⟨regular, fewer⟩ := bound lasts
  refine ⟨d', hdesk, ⟨?_, ?_⟩, ⟨?_, ?_, h.room, ?_, ?_, ?_⟩, fun retry => ?_⟩
  · show (s.turn? d).bind _ = _
    rw [taken]
    rfl
  · rw [hbroker]
    exact ⟨_, rfl, rfl⟩
  · rw [hengines]
    refine ⟨_, List.getElem?_set_self (List.getElem?_eq_some_iff.mp he).1, ?_⟩
    exact (Engine.rule_countAction ..).trans (e.rule_countVerdict _)
  · rw [hbroker]
    exact h.worker
  · rw [hbroker]
    exact h.available
  · rw [hbroker]
    exact (Registry.get?_insert ..).trans (if_pos rfl)
  · rw [hbench]
    exact regular
  · rw [hbench]
    exact fewer (Verdict.eq_retry retry)

/-! ## Until the queue is empty -/

/-- The front copy meets its fate before any other copy is taken. -/
theorem Serves.front (h : s.Serves rule w ⟨c :: ready, [], dead⟩ d)
    (ttl : rule.retryTtl ≠ some 0) (lasting : s.Lasting w.queue d) :
    ∃ f d', s.Processes rule w.queue c d.desk f d'.desk ∧
      f.requeues ≤ rule.left w.queue c.id? d.bench ∧ s.Settles w.queue f.settlements d d' ∧
      s.Serves rule w ⟨ready, [], dead ++ f.deadLetters⟩ d' := by
  induction hm : rule.left w.queue c.id? d.bench using Nat.strongRecOn generalizing c d with
  | ind m ih =>
      obtain ⟨d', hdesk, settles, serves, fewer⟩ := h.turn ttl lasting
      cases hv : (s.decision rule w.queue c d.desk).1.action with
      | accept =>
          rw [hv] at settles serves
          refine ⟨⟨c, 0, true⟩, d', hdesk ▸ .accepted hv, Nat.zero_le _, settles, ?_⟩
          rw [show Fate.deadLetters ⟨c, 0, true⟩ = [] from rfl, List.append_nil]
          exact serves
      | reject =>
          rw [hv] at settles serves
          exact ⟨⟨c, 0, false⟩, d', hdesk ▸ .rejected hv, Nat.zero_le _, settles, serves⟩
      | retry =>
          -- the copy is at the front again, with fewer retries left
          rw [hv] at settles serves
          have less := hm ▸ fewer hv
          obtain ⟨f, d'', processes, hf, settles', serves'⟩ :=
            ih _ less serves (lasting.later settles) rfl
          refine ⟨.requeued c f, d'', .retried hv (hdesk ▸ processes), ?_, ?_, ?_⟩
          · exact Nat.le_trans (Nat.succ_le_succ hf) less
          · rw [Fate.settlements_requeued processes.copy_eq]
            exact settles.trans settles'
          · rw [Fate.deadLetters_requeued processes.copy_eq]
            exact serves'

theorem Serves.all (h : s.Serves rule w ⟨ready, [], dead⟩ d)
    (ttl : rule.retryTtl ≠ some 0) (lasting : s.Lasting w.queue d) :
    ∃ fates d', s.ProcessesAll rule w.queue ready d.desk fates d'.desk ∧
      (∀ f ∈ fates, f.requeues ≤ rule.maxRetries.toNat) ∧
      s.Settles w.queue (fates.flatMap (·.settlements)) d d' ∧
      s.Serves rule w ⟨[], [], dead ++ fates.flatMap (·.deadLetters)⟩ d' := by
  induction ready generalizing d dead with
  | nil => exact ⟨[], d, .nil, nofun, .refl s _ d, by rwa [List.flatMap_nil, List.append_nil]⟩
  | cons c ready ih =>
      obtain ⟨f, d', first, hf, settles, serves⟩ := h.front ttl lasting
      obtain ⟨fates, d'', others, hfates, settles', serves'⟩ := ih serves (lasting.later settles)
      refine ⟨f :: fates, d'', .cons first others, ?_, settles.trans settles', ?_⟩
      · exact List.forall_mem_cons.mpr ⟨Nat.le_trans hf (rule.left_le h.regular _), hfates⟩
      · rw [List.flatMap_cons, ← List.append_assoc]
        exact serves'

theorem Serves.turn?_eq_none (h : s.Serves rule w ⟨[], [], dead⟩ d) : s.turn? d = none := by
  unfold turn? Deployment.turn?
  rw [Broker.take?_empty h.worker h.queue]

/-- A worker alone at a queue empties it, as long as no retry counter expires meanwhile. Each message
is requeued, at most as often as there are retries, and then accepted or rejected, in the order of
arrival and as if the messages were processed one after another; the rejected ones are the new dead
letters. -/
theorem empties_queue (s : Shift) (d : Deployment Logbook) (e : Engine) (w : Worker) (q : Queue)
    (he : d.engines[s.engine]? = some e) (hw : d.broker.worker? s.worker = some w)
    (room : 1 ≤ w.prefetch) (hq : d.broker.queues.get? w.queue = some q) (settled : q.unacked = [])
    (reachable : d.broker.available = true) (cached : d.cache.available = true)
    (fresh : ∀ id, d.cache.live? d.now (CacheKey.retry w.queue id) = none)
    (ttl : e.rule.retryTtl ≠ some 0) (lasting : s.Lasting w.queue d) :
    ∃ (fates : List Fate) (records : List SettlementRecord) (d' : Deployment Logbook),
      s.ProcessesAll e.rule w.queue q.ready d.desk fates d'.desk ∧
      fates.map (·.copy) = q.ready ∧
      (∀ f ∈ fates, f.requeues ≤ e.rule.maxRetries.toNat) ∧
      s.turns records.length d = some d' ∧ s.turn? d' = none ∧
      d'.broker.queues.get? w.queue =
        some ⟨[], [], q.deadLetters ++ fates.flatMap (·.deadLetters)⟩ ∧
      d'.broker.settlements = d.broker.settlements ++ records ∧
      records.map (fun r => (r.queue, r.messageId, r.settlement)) =
        (fates.flatMap (·.settlements)).map (w.queue, ·) := by
  obtain ⟨ready, unacked, dead⟩ := q
  obtain rfl : unacked = [] := settled
  have regular : d.bench.Regular w.queue := by
    refine ⟨cached, fun id x found => ?_⟩
    rw [show d.bench.cache.live? d.bench.now _ = none from fresh id] at found
    cases found
  have serves : s.Serves e.rule w ⟨ready, [], dead⟩ d :=
    ⟨⟨e, he, rfl⟩, hw, room, reachable, hq, regular⟩
  obtain ⟨fates, d', processes, hfates, settles, serves'⟩ := serves.all ttl lasting
  obtain ⟨records, hlog, hrecords⟩ := settles.log
  refine ⟨fates, records, d', processes, processes.copies_eq, hfates, ?_, serves'.turn?_eq_none,
    serves'.queue, hlog, hrecords⟩
  have lengths := congrArg List.length hrecords
  rw [List.length_map, List.length_map] at lengths
  rw [lengths]
  exact settles.turns

theorem turns_eq_none {s : Shift} {d : Deployment Logbook} {n m : Nat} (h : s.turns n d = none)
    (hm : n ≤ m) : s.turns m d = none := by
  obtain ⟨k, rfl⟩ := Nat.exists_eq_add_of_le hm
  rw [turns_add, h]
  rfl

/-- It is enough that nothing at all expires in a run that is known to end. -/
theorem lasting_of_ends {s : Shift} {queue : String} {d : Deployment Logbook} {n : Nat}
    (ends : s.turns n d = none)
    (lives : ∀ k < n, ∀ d₁ ∈ s.turns k d, ∀ d₂ ∈ s.turn? d₁,
      ∀ x ∈ d₁.cache.entries.entries, x.2.isLive d₂.now = true) : s.Lasting queue d := by
  intro k d₁ d₂ h₁ h₂ id e found _
  have before : k < n := by
    by_contra after
    rw [turns_eq_none ends (Nat.not_lt.mp after)] at h₁
    cases h₁
  obtain ⟨l, l', entries, -⟩ :=
    List.lookup_eq_some_iff.mp (Option.filter_eq_some_iff.mp found).1
  refine lives k before d₁ h₁ d₂ h₂ (CacheKey.retry queue id, e) ?_
  rw [show d₁.cache.entries.entries = _ from entries]
  exact List.mem_append_right _ List.mem_cons_self

/-- Two messages of one id, one without an id and one whose handler crashes; only the last one is
processed. -/
theorem empties_queue_of_five :
    let copy (id : String) : Copy := ⟨"", "orders", some id, "1".toUTF8, false⟩
    let copies := [copy "a", copy " ", copy "a", copy "c", copy "b"]
    let handlers (n : Nat) (_ : Json.Value) : Reply HandlerError Bool :=
      if n < 3 then .returned false else if n = 3 then .crashed else .returned true
    let s : Shift := ⟨0, 0, handlers, fun _ => Duration.second⟩
    let d : Deployment Logbook := { Deployment.start 0 1 ⟨[], []⟩ with
      engines := [Engine.standard.withMaxRetries 1]
      broker := { Broker.empty with
        queues := Registry.empty.insert "orders" ⟨copies, [], []⟩
        workers := [⟨0, "orders", 2⟩] } }
    (∃ (fates : List Fate) (records : List SettlementRecord) (d' : Deployment Logbook),
      s.ProcessesAll (Engine.standard.withMaxRetries 1).rule "orders" copies d.desk fates d'.desk ∧
      fates.map (·.copy) = copies ∧ (∀ f ∈ fates, f.requeues ≤ 1) ∧
      s.turns records.length d = some d' ∧ s.turn? d' = none ∧
      d'.broker.queues.get? "orders" = some ⟨[], [], fates.flatMap (·.deadLetters)⟩ ∧
      records.map (fun r => (r.queue, r.messageId, r.settlement)) =
        (fates.flatMap (·.settlements)).map ("orders", ·)) ∧
    (s.turns 6 d).map (fun d => d.broker.settlements.map fun r => (r.messageId, r.settlement)) =
      some [(some "a", .requeue), (some "a", .reject), (some " ", .reject), (some "a", .reject),
        (some "c", .reject), (some "b", .ack)] := by
  intro copy copies handlers s d
  have lasting : s.Lasting "orders" d :=
    lasting_of_ends (n := 7) (Option.isNone_iff_eq_none.mp (by decide +kernel)) (by decide +kernel)
  obtain ⟨fates, records, d', processes, hcopies, hfates, hturns, hend, hqueue, -, hlog⟩ :=
    empties_queue s d (Engine.standard.withMaxRetries 1) ⟨0, "orders", 2⟩ ⟨copies, [], []⟩ rfl rfl
      (by decide) rfl rfl rfl rfl (fun _ => rfl) (by decide) lasting
  exact ⟨⟨fates, records, d', processes, hcopies, hfates, hturns, hend, hqueue, hlog⟩,
    by decide +kernel⟩

end Shift

end DurableMessaging
