import DurableMessaging.Proofs.Broker.Routing

/-!
# Declaring topologies

A declaration is refused before it has written anything. What some topologies bring about depends on
which of them are declared, not on their order or on how often each is.
-/

namespace DurableMessaging

variable {κ : Type}

/-- The binding that a topology asks for. -/
def Topology.binding? (t : Topology) : Option Binding :=
  t.queue.map fun queue => ⟨t.exchange, queue, t.routingKey⟩

namespace Broker

variable {b b' b'' : Broker κ}

/-! ## When a topology can be declared -/

theorem exists_addExchange_iff {b : Broker κ} {name : String} {t : ExchangeType} :
    (∃ b', b.addExchange name t = .ok b') ↔
      b.exchanges.get? name = none ∨ b.exchanges.get? name = some t := by
  constructor
  · rintro ⟨b', h⟩
    rcases addExchange_eq_ok h with ⟨he, -⟩ | ⟨he, -⟩
    · exact .inr he
    · exact .inl he
  · rintro (he | he) <;> unfold addExchange <;> rw [he]
    · exact ⟨_, rfl⟩
    · exact ⟨b, if_pos rfl⟩

/-- A topology can be declared unless its exchange is of another type. -/
theorem exists_declare_iff {b : Broker κ} {t : Topology} :
    (∃ b', b.declare t = .ok b') ↔ b.available = true ∧
      (b.exchanges.get? t.exchange = none ∨
        b.exchanges.get? t.exchange = some t.exchangeType) := by
  rw [← exists_addExchange_iff]
  constructor
  · rintro ⟨b', h⟩
    obtain ⟨b₁, h₁, -⟩ := declare_eq_ok h
    refine ⟨?_, b₁, h₁⟩
    unfold declare ensureAvailable at h
    cases ha : b.available with
    | true => rfl
    | false =>
        rw [ha] at h
        cases h
  · rintro ⟨ha, b₁, h₁⟩
    unfold declare ensureAvailable
    rw [if_pos ha, h₁]
    cases t.queue with
    | none => exact ⟨_, rfl⟩
    | some name => exact ⟨_, rfl⟩

theorem refused_of_declare {b : Broker κ} {t : Topology} {e : BrokerError}
    (h : b.declare t = .error e) :
    b.available = false ∨
      ∃ known, b.exchanges.get? t.exchange = some known ∧ known ≠ t.exchangeType := by
  have refused : ¬∃ b', b.declare t = .ok b' := by
    rw [h]
    exact fun ⟨_, hb⟩ => nomatch hb
  rw [exists_declare_iff] at refused
  cases ha : b.available with
  | false => exact .inl rfl
  | true =>
      cases he : b.exchanges.get? t.exchange with
      | none => exact absurd ⟨ha, .inl he⟩ refused
      | some known =>
          exact .inr ⟨known, rfl, fun hk => refused ⟨ha, .inr (he.trans (congrArg some hk))⟩⟩

theorem exchange_of_declare {b b' : Broker κ} {t : Topology} (h : b.declare t = .ok b') :
    b'.exchanges.get? t.exchange = some t.exchangeType := by
  obtain ⟨b₁, h₁, h₂⟩ := declare_eq_ok h
  have exchange : b₁.exchanges.get? t.exchange = some t.exchangeType := by
    rcases addExchange_eq_ok h₁ with ⟨he, rfl⟩ | ⟨-, rfl⟩
    · exact he
    · exact (Registry.get?_insert _ _ _ _).trans (if_pos rfl)
  rcases h₂ with ⟨-, rfl⟩ | ⟨name, -, rfl⟩ <;> exact exchange

/-- The queue of a topology is bound once that is declared, and has what it had before. -/
theorem queue_of_declare {b b' : Broker κ} {t : Topology} (h : b.declare t = .ok b') {name : String}
    (hn : t.queue = some name) :
    ⟨t.exchange, name, t.routingKey⟩ ∈ b'.bindings ∧ b'.queues.get? name = some (b.queue name) := by
  have same := queue_declare h name
  obtain ⟨b₁, -, ⟨hnone, -⟩ | ⟨_, hsome, rfl⟩⟩ := declare_eq_ok h
  · rw [hn] at hnone
    cases hnone
  · rw [hn] at hsome
    obtain rfl := Option.some.inj hsome
    refine ⟨mem_bindings_bind.mpr (.inr rfl), ?_⟩
    have declared : (b₁.bind ⟨t.exchange, name, t.routingKey⟩).queues.contains name = true := by
      rw [contains_bind, beq_self_eq_true, Bool.or_true]
    obtain ⟨q, hq⟩ := Option.isSome_iff_exists.mp declared
    rw [← same, queue, hq]
    rfl

/-! ## A refusal comes before every write -/

def addExchangeInPlace (name : String) (t : ExchangeType) :
    EStateM BrokerError (Broker κ) Unit := do
  match (← get).exchanges.get? name with
  | none => modify fun b => { b with exchanges := b.exchanges.insert name t }
  | some known =>
    if known = t then pure ()
    else
      throw (.topologyConflict
        ("exchange " ++ name ++ " already declared as " ++ known.name ++ ", not " ++ t.name))

def bindInPlace (x : Binding) : EStateM BrokerError (Broker κ) Unit := do
  if !(← get).queues.contains x.queue then
    modify fun b => { b with queues := b.queues.insert x.queue .empty }
  if x ∉ (← get).bindings then
    modify fun b => { b with bindings := b.bindings ++ [x] }

/-- Declares a topology with each write made where it comes. A failure takes none of them back. -/
def declareInPlace (t : Topology) : EStateM BrokerError (Broker κ) Unit := do
  if !(← get).available then throw (.unavailable "in-memory broker switched off")
  addExchangeInPlace t.exchange t.exchangeType
  match t.queue with
  | none => pure ()
  | some queue => bindInPlace ⟨t.exchange, queue, t.routingKey⟩

theorem run_addExchangeInPlace (b : Broker κ) (name : String) (t : ExchangeType) :
    (addExchangeInPlace name t).run b =
      match b.addExchange name t with
      | .ok b' => .ok () b'
      | .error e => .error e b := by
  unfold addExchangeInPlace addExchange
  cases hk : b.exchanges.get? name with
  | none => simp [hk]
  | some known => by_cases h : known = t <;> simp [hk, h]

theorem run_bindInPlace (b : Broker κ) (x : Binding) :
    (bindInPlace x).run b = .ok () (b.bind x) := by
  unfold bindInPlace bind
  cases hq : b.queues.contains x.queue <;> by_cases hx : x ∈ b.bindings <;> simp [hq, hx]

/-- The writes come to what a declaration gives, and a refusal comes before any of them. -/
theorem run_declareInPlace (b : Broker κ) (t : Topology) :
    (declareInPlace t).run b =
      match b.declare t with
      | .ok b' => .ok () b'
      | .error e => .error e b := by
  have added := b.run_addExchangeInPlace t.exchange t.exchangeType
  unfold declareInPlace declare ensureAvailable
  cases ha : b.available with
  | false =>
      simp [ha]
      rfl
  | true =>
      cases h : b.addExchange t.exchange t.exchangeType with
      | error e =>
          rw [h] at added
          simp [ha, added]
          rfl
      | ok b₁ =>
          rw [h] at added
          cases t.queue with
          | none =>
              simp [ha, added]
              rfl
          | some queue =>
              simp [ha, added, run_bindInPlace]
              rfl

/-! ## What topologies bring about -/

/-- Whether two brokers differ in what was declared in them alone. -/
def AgreeElsewhere (b b' : Broker κ) : Prop :=
  ∃ exchanges queues bindings, b' = { b with exchanges, queues, bindings }

theorem AgreeElsewhere.refl (b : Broker κ) : b.AgreeElsewhere b := ⟨_, _, _, rfl⟩

theorem AgreeElsewhere.symm (h : b.AgreeElsewhere b') : b'.AgreeElsewhere b := by
  obtain ⟨_, _, _, rfl⟩ := h
  exact ⟨_, _, _, rfl⟩

theorem AgreeElsewhere.trans (h : b.AgreeElsewhere b') (h' : b'.AgreeElsewhere b'') :
    b.AgreeElsewhere b'' := by
  obtain ⟨_, _, _, rfl⟩ := h
  obtain ⟨_, _, _, rfl⟩ := h'
  exact ⟨_, _, _, rfl⟩

/-- The second broker is the first after some topologies were declared. -/
structure Declares (ts : List Topology) (b b' : Broker κ) : Prop where
  exchanges : ∀ name type, b'.exchanges.get? name = some type ↔
    b.exchanges.get? name = some type ∨ ∃ t ∈ ts, t.exchange = name ∧ t.exchangeType = type
  declared : ∀ name, b'.queues.contains name = true ↔
    b.queues.contains name = true ∨ ∃ t ∈ ts, t.queue = some name
  queue : ∀ name, b'.queue name = b.queue name
  bindings : ∀ x, x ∈ b'.bindings ↔ x ∈ b.bindings ∨ ∃ t ∈ ts, t.binding? = some x
  elsewhere : b.AgreeElsewhere b'

theorem declares_nil (b : Broker κ) : Declares [] b b where
  exchanges := by simp
  declared := by simp
  queue := fun _ => rfl
  bindings := by simp
  elsewhere := .refl b

theorem exchanges_declare {t : Topology} (h : b.declare t = .ok b') (name : String)
    (type : ExchangeType) :
    b'.exchanges.get? name = some type ↔
      b.exchanges.get? name = some type ∨ t.exchange = name ∧ t.exchangeType = type := by
  have known := exchange_of_declare h
  have others : name ≠ t.exchange → b'.exchanges.get? name = b.exchanges.get? name := by
    intro hn
    obtain ⟨b₁, h₁, h₂⟩ := declare_eq_ok h
    have same : b'.exchanges = b₁.exchanges := by
      rcases h₂ with ⟨-, rfl⟩ | ⟨_, -, rfl⟩ <;> rfl
    rw [same]
    rcases addExchange_eq_ok h₁ with ⟨-, rfl⟩ | ⟨-, rfl⟩
    · rfl
    · exact (Registry.get?_insert _ _ _ _).trans (if_neg hn)
  by_cases hn : name = t.exchange
  · subst hn
    rw [known, Option.some_inj]
    refine ⟨fun ht => .inr ⟨rfl, ht⟩, ?_⟩
    rintro (ht | ⟨-, ht⟩)
    · exact Option.some.inj (known.symm.trans ((extends_declare h).exchanges ht))
    · exact ht
  · rw [others hn]
    exact ⟨.inl, fun h => h.resolve_right fun ht => hn ht.1.symm⟩

theorem declares_single {t : Topology} (h : b.declare t = .ok b') : Declares [t] b b' where
  exchanges name type := by
    simp only [List.mem_singleton, exists_eq_left]
    exact exchanges_declare h name type
  declared name := by
    simp only [List.mem_singleton, exists_eq_left]
    obtain ⟨b₁, h₁, h₂⟩ := declare_eq_ok h
    have same : b₁.queues = b.queues := by
      rcases addExchange_eq_ok h₁ with ⟨-, rfl⟩ | ⟨-, rfl⟩ <;> rfl
    rcases h₂ with ⟨hq, rfl⟩ | ⟨queue, hq, rfl⟩
    · simp only [same, hq, reduceCtorEq, or_false]
    · simp only [contains_bind, same, hq, Bool.or_eq_true, beq_iff_eq, Option.some_inj,
        eq_comm (a := name)]
  queue := queue_declare h
  bindings x := by
    simp only [List.mem_singleton, exists_eq_left, Topology.binding?]
    obtain ⟨b₁, h₁, h₂⟩ := declare_eq_ok h
    have same : b₁.bindings = b.bindings := by
      rcases addExchange_eq_ok h₁ with ⟨-, rfl⟩ | ⟨-, rfl⟩ <;> rfl
    rcases h₂ with ⟨hq, rfl⟩ | ⟨queue, hq, rfl⟩
    · simp only [same, hq, Option.map_none, reduceCtorEq, or_false]
    · simp only [mem_bindings_bind, same, hq, Option.map_some, Option.some_inj, eq_comm]
  elsewhere := ⟨_, _, _, declare_same h⟩

theorem Declares.append {ts ts' : List Topology} (h : Declares ts b b') (h' : Declares ts' b' b'') :
    Declares (ts ++ ts') b b'' where
  exchanges := by
    intro name type
    rw [h'.exchanges, h.exchanges, or_assoc]
    simp only [List.mem_append, or_and_right, exists_or]
  declared := by
    intro name
    rw [h'.declared, h.declared, or_assoc]
    simp only [List.mem_append, or_and_right, exists_or]
  queue name := (h'.queue name).trans (h.queue name)
  bindings := by
    intro x
    rw [h'.bindings, h.bindings, or_assoc]
    simp only [List.mem_append, or_and_right, exists_or]
  elsewhere := h.elsewhere.trans h'.elsewhere

/-- Declares one topology after another, up to the first that is refused. -/
def declareAll (b : Broker κ) (ts : List Topology) : Except BrokerError (Broker κ) :=
  ts.foldlM declare b

theorem declareAll_cons_eq_ok {t : Topology} {ts : List Topology} :
    b.declareAll (t :: ts) = .ok b'' ↔ ∃ b', b.declare t = .ok b' ∧ b'.declareAll ts = .ok b'' := by
  unfold declareAll
  rw [List.foldlM_cons]
  cases b.declare t with
  | error e => exact ⟨nofun, nofun⟩
  | ok b' => exact ⟨fun h => ⟨b', rfl, h⟩, fun ⟨_, hb, h⟩ => Except.ok.inj hb ▸ h⟩

theorem declares_declareAll {ts : List Topology} (h : b.declareAll ts = .ok b') :
    Declares ts b b' := by
  induction ts generalizing b with
  | nil =>
      cases h
      exact declares_nil _
  | cons t ts ih =>
      obtain ⟨b₁, ht, hts⟩ := declareAll_cons_eq_ok.mp h
      exact (declares_single ht).append (ih hts)

/-- Topologies can be declared if some registry has the types of all their exchanges and every type
that the broker knows. -/
theorem exists_declareAll {ts : List Topology} {known : Registry ExchangeType}
    (hk : ∀ t ∈ ts, known.get? t.exchange = some t.exchangeType) (ha : b.available = true)
    (hb : ∀ {name type}, b.exchanges.get? name = some type → known.get? name = some type) :
    ∃ b', b.declareAll ts = .ok b' := by
  induction ts generalizing b with
  | nil => exact ⟨b, rfl⟩
  | cons t ts ih =>
      obtain ⟨ht, hts⟩ := List.forall_mem_cons.mp hk
      have free : b.exchanges.get? t.exchange = none ∨
          b.exchanges.get? t.exchange = some t.exchangeType := by
        cases he : b.exchanges.get? t.exchange with
        | none => exact .inl rfl
        | some type => exact .inr ((hb he).symm.trans ht)
      obtain ⟨b₁, h₁⟩ := exists_declare_iff.mpr ⟨ha, free⟩
      have available : b₁.available = true := by
        rw [declare_same h₁]
        exact ha
      obtain ⟨b', h'⟩ := ih hts available fun {name type} he => by
        rcases (exchanges_declare h₁ name type).mp he with he | ⟨rfl, rfl⟩
        · exact hb he
        · exact ht
      exact ⟨b', declareAll_cons_eq_ok.mpr ⟨b₁, h₁, h'⟩⟩

end Broker

end DurableMessaging
