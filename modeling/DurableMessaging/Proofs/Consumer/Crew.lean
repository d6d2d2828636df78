import DurableMessaging.Proofs.Consumer.Bench
import Mathlib.Data.List.Induction
import Mathlib.Logic.Function.Basic

/-!
# Workers at one bench

The workers of a crew share an engine and its cache. Each takes one delivery at a time and decides
about it call by call; between two calls of one worker come any calls of the others, sweeps, and any
time.
-/

namespace DurableMessaging

structure Crew where
  engine : Engine
  bench : Bench
  /-- The delivery that a worker is busy with, and what is left to decide about it. -/
  inHand : Nat → Option (Delivery × Decision)
  /-- What was decided, the oldest first. -/
  decided : List (Delivery × Action)

inductive CrewMove where
  | take (worker : Nat) (d : Delivery)
  /-- The next call about what a worker has in hand; a handler that is called replies thus. -/
  | proceed (worker : Nat) (reply : Reply HandlerError Bool)
  | wait (d : Duration)
  | sweep

def CrewMove.isBy (worker : Nat) : CrewMove → Bool
  | .proceed w _ => w == worker
  | _ => false

namespace Crew

def start (e : Engine) (now : Instant) (c : Cache) : Crew := ⟨e, .start now c, fun _ => none, []⟩

def hold (s : Crew) (worker : Nat) (x : Option (Delivery × Decision)) : Crew :=
  { s with inHand := Function.update s.inHand worker x }

def take (s : Crew) (worker : Nat) (d : Delivery) : Crew :=
  match s.inHand worker with
  | none => s.hold worker (some (d, s.engine.rule.decide d))
  | some _ => s

def proceed (s : Crew) (worker : Nat) (reply : Reply HandlerError Bool) : Crew :=
  match s.inHand worker with
  | none => s
  | some (d, .done v) =>
    { s.hold worker none with
      engine := s.engine.countVerdict v
      decided := s.decided ++ [(d, v.action)] }
  | some (d, .ask call next) =>
    let (answer, bench) := s.bench.ask call
    { s.hold worker (some (d, next (.ofExcept answer))) with bench }
  | some (d, .handle _ next) =>
    { s.hold worker (some (d, next reply)) with bench := s.bench.note ⟨d, reply⟩ }

def step (s : Crew) : CrewMove → Crew
  | .take worker d => s.take worker d
  | .proceed worker reply => s.proceed worker reply
  | .wait d => { s with bench := s.bench.wait d }
  | .sweep => { s with bench := { s.bench with cache := (s.bench.cache.purge s.bench.now).2 } }

def run (e : Engine) (now : Instant) (c : Cache) (moves : List CrewMove) : Crew :=
  moves.foldl step (start e now c)

section Step

variable {s : Crew} {worker : Nat} {d : Delivery}

theorem inHand_hold (s : Crew) (worker : Nat) (x : Option (Delivery × Decision)) :
    (s.hold worker x).inHand worker = x := Function.update_self ..

theorem run_concat (e : Engine) (now : Instant) (c : Cache) (moves : List CrewMove) (m : CrewMove) :
    run e now c (moves ++ [m]) = (run e now c moves).step m := List.foldl_append

theorem take_idle (h : s.inHand worker = none) (d : Delivery) :
    s.take worker d = s.hold worker (some (d, s.engine.rule.decide d)) := by
  unfold take
  rw [h]

theorem inHand_of_hold {w : Nat} {x : Option (Delivery × Decision)} {y : Delivery × Decision}
    (h : (s.hold worker x).inHand w = some y) : x = some y ∨ s.inHand w = some y := by
  rcases eq_or_ne w worker with rfl | hne
  · exact .inl ((inHand_hold ..).symm.trans h)
  · exact .inr ((Function.update_of_ne hne ..).symm.trans h)

theorem inHand_take (h : s.inHand worker = none) (d : Delivery) :
    (s.take worker d).inHand worker = some (d, s.engine.rule.decide d) := by
  rw [take_idle h, inHand_hold]

theorem proceed_done {v : Verdict} (h : s.inHand worker = some (d, .done v))
    (reply : Reply HandlerError Bool) :
    s.proceed worker reply =
      { s.hold worker none with
        engine := s.engine.countVerdict v
        decided := s.decided ++ [(d, v.action)] } := by
  unfold proceed
  rw [h]

theorem proceed_ask {call : CacheCall} {next : Reply CacheError call.Answer → Decision}
    (h : s.inHand worker = some (d, .ask call next)) (reply : Reply HandlerError Bool) :
    s.proceed worker reply =
      { s.hold worker (some (d, next (.ofExcept (s.bench.ask call).1))) with
        bench := (s.bench.ask call).2 } := by
  unfold proceed
  rw [h]

theorem proceed_handle {payload : Json.Value} {next : Reply HandlerError Bool → Decision}
    (h : s.inHand worker = some (d, .handle payload next)) (reply : Reply HandlerError Bool) :
    s.proceed worker reply =
      { s.hold worker (some (d, next reply)) with bench := s.bench.note ⟨d, reply⟩ } := by
  unfold proceed
  rw [h]

theorem inHand_step {x : Delivery × Decision} (h : s.inHand worker = some x) {m : CrewMove}
    (hm : m.isBy worker = false) : (s.step m).inHand worker = some x := by
  cases m with
  | take w d =>
      dsimp only [step, take]
      cases hw : s.inHand w with
      | none =>
          have hne : worker ≠ w := by
            rintro rfl
            rw [h] at hw
            cases hw
          exact (Function.update_of_ne hne ..).trans h
      | some y => exact h
  | proceed w reply =>
      have hne : worker ≠ w := by
        rintro rfl
        simp [CrewMove.isBy] at hm
      dsimp only [step]
      unfold proceed
      split
      · exact h
      all_goals exact (Function.update_of_ne hne ..).trans h
  | wait d => exact h
  | sweep => exact h

theorem inHand_steps {x : Delivery × Decision} (h : s.inHand worker = some x)
    {moves : List CrewMove} (hm : ∀ m ∈ moves, m.isBy worker = false) :
    (moves.foldl step s).inHand worker = some x := by
  induction moves generalizing s with
  | nil => exact h
  | cons m moves ih =>
      obtain ⟨first, rest⟩ := List.forall_mem_cons.mp hm
      exact ih (inHand_step h first) rest

end Step

/-! ## A worker that nothing interrupts -/

/-- A bench where no time passes and a handler replies the same at all times. -/
def surroundings (d : Delivery) (reply : Reply HandlerError Bool) : Surroundings Bench :=
  Attempt.surroundings ⟨d, fun _ => reply⟩ fun _ => 0

theorem proceed_run (reply : Reply HandlerError Bool) {worker : Nat} {d : Delivery} {p : Decision}
    {s : Crew} (h : s.inHand worker = some (d, p)) :
    ∃ n, (List.replicate n (CrewMove.proceed worker reply)).foldl step s =
      let r := p.run (surroundings d reply) s.bench
      { s.hold worker none with
        engine := s.engine.countVerdict r.1
        bench := r.2
        decided := s.decided ++ [(d, r.1.action)] } := by
  induction p generalizing s with
  | done v => exact ⟨1, proceed_done h reply⟩
  | ask call next ih =>
      have hs := proceed_ask h reply
      obtain ⟨n, hn⟩ := ih _ ((congrArg (·.inHand worker) hs).trans (inHand_hold ..))
      refine ⟨n + 1, hn.trans ?_⟩
      dsimp only [step]
      rw [hs]
      dsimp only [hold]
      rw [Function.update_idem]
      rfl
  | handle payload next ih =>
      have hs := proceed_handle h reply
      obtain ⟨n, hn⟩ := ih _ ((congrArg (·.inHand worker) hs).trans (inHand_hold ..))
      refine ⟨n + 1, hn.trans ?_⟩
      dsimp only [step]
      rw [hs]
      dsimp only [hold]
      rw [Function.update_idem]
      rfl

/-- A delivery that a worker takes and decides about without interruption is decided about as by the
engine. -/
theorem decide_undisturbed (reply : Reply HandlerError Bool) {worker : Nat} {s : Crew}
    (h : s.inHand worker = none) (d : Delivery) :
    ∃ n, (CrewMove.take worker d :: List.replicate n (.proceed worker reply)).foldl step s =
      let (action, engine, bench) := s.engine.decide (surroundings d reply) d s.bench
      { s with engine, bench, decided := s.decided ++ [(d, action)] } := by
  obtain ⟨n, hn⟩ := proceed_run reply (inHand_take h d)
  refine ⟨n, hn.trans ?_⟩
  have idle : Function.update s.inHand worker none = s.inHand := by
    rw [← h]
    exact Function.update_eq_self ..
  dsimp only [step]
  rw [take_idle h]
  dsimp only [hold, Engine.decide]
  rw [Function.update_idem, idle]

/-! ## What workers have in hand -/

/-- Whether a condition on what is left to decide about a delivery holds of each decision as a whole
and goes on to hold. -/
structure Lasting (rule : DecisionRule) (P : Delivery → Decision → Prop) : Prop where
  whole : ∀ d, P d (rule.decide d)
  ask : ∀ {d call next}, P d (.ask call next) → ∀ r, P d (next r)
  handle : ∀ {d payload next}, P d (.handle payload next) → ∀ r, P d (next r)

/-- All that workers have in hand is left of decisions by the rule and meets a condition. -/
structure Holds (rule : DecisionRule) (P : Delivery → Decision → Prop) (s : Crew) : Prop where
  rule_eq : s.engine.rule = rule
  rest : ∀ worker d p, s.inHand worker = some (d, p) → P d p

namespace Holds

variable {rule : DecisionRule} {P : Delivery → Decision → Prop} {s : Crew}

theorem start (e : Engine) (now : Instant) (c : Cache) : (start e now c).Holds e.rule P :=
  ⟨rfl, nofun⟩

theorem hold (h : s.Holds rule P) (worker : Nat) {x : Option (Delivery × Decision)}
    (hx : ∀ d p, x = some (d, p) → P d p) : (s.hold worker x).Holds rule P :=
  ⟨h.rule_eq, fun w d p hw => (inHand_of_hold hw).elim (hx d p) (h.rest w d p)⟩

theorem proceed (h : s.Holds rule P) (lasting : Lasting rule P) (worker : Nat)
    (reply : Reply HandlerError Bool) : (s.proceed worker reply).Holds rule P := by
  unfold Crew.proceed
  split
  · exact h
  · have held := h.hold worker (x := none) nofun
    exact ⟨(s.engine.rule_countVerdict _).trans h.rule_eq, held.rest⟩
  · rename_i d call next hw
    have left := lasting.ask (h.rest _ _ _ hw) (.ofExcept (s.bench.ask call).1)
    have held := h.hold worker (x := some (d, next (.ofExcept (s.bench.ask call).1))) (by
      rintro _ _ ⟨⟩
      exact left)
    exact ⟨held.rule_eq, held.rest⟩
  · rename_i d payload next hw
    have left := lasting.handle (h.rest _ _ _ hw) reply
    have held := h.hold worker (x := some (d, next reply)) (by
      rintro _ _ ⟨⟩
      exact left)
    exact ⟨held.rule_eq, held.rest⟩

theorem step (h : s.Holds rule P) (lasting : Lasting rule P) (m : CrewMove) :
    (s.step m).Holds rule P := by
  cases m with
  | take worker d =>
      dsimp only [Crew.step]
      unfold Crew.take
      split
      · refine h.hold worker ?_
        rintro _ _ ⟨⟩
        rw [h.rule_eq]
        exact lasting.whole d
      · exact h
  | proceed worker reply => exact h.proceed lasting worker reply
  | wait d => exact ⟨h.rule_eq, h.rest⟩
  | sweep => exact ⟨h.rule_eq, h.rest⟩

end Holds

theorem holds_run {P : Delivery → Decision → Prop} (e : Engine) (lasting : Lasting e.rule P)
    (now : Instant) (c : Cache) (moves : List CrewMove) : (run e now c moves).Holds e.rule P := by
  induction moves using List.reverseRecOn with
  | nil => exact .start e now c
  | append_singleton moves m ih =>
      rw [run_concat]
      exact ih.step lasting m

/-- Every worker has in hand what is left of a decision by the rule. -/
structure Sound (rule : DecisionRule) (s : Crew) : Prop where
  rule_eq : s.engine.rule = rule
  asks : ∀ worker d p, s.inHand worker = some (d, p) →
    p.Asks fun call => call.key ∈ DecisionRule.keys d ∧ rule.Makes call

theorem sound_run (e : Engine) (now : Instant) (c : Cache) (moves : List CrewMove) :
    (run e now c moves).Sound e.rule := by
  have holds := holds_run e ⟨e.rule.asks_decide, fun h => h.2, fun h => h⟩ now c moves
  exact ⟨holds.rule_eq, holds.rest⟩

/-- What holds of a bench at the start and is kept by the calls of decisions, the clock and sweeps
holds of it after every run. -/
theorem bench_run {P : Bench → Prop} {Q : CacheCall → Prop} {e : Engine} {now : Instant} {c : Cache}
    (asks : ∀ d, (e.rule.decide d).Asks Q) (start : P (.start now c))
    (ask : ∀ b call, Q call → P b → P (b.ask call).2)
    (note : ∀ b x, P b → P (b.note x)) (wait : ∀ b d, P b → P (b.wait d))
    (sweep : ∀ b, P b → P { b with cache := (b.cache.purge b.now).2 }) (moves : List CrewMove) :
    P (run e now c moves).bench := by
  induction moves using List.reverseRecOn with
  | nil => exact start
  | append_singleton moves m ih =>
      have holds := holds_run e (P := fun _ p => p.Asks Q) ⟨asks, fun h => h.2, fun h => h⟩
        now c moves
      rw [run_concat]
      generalize run e now c moves = s at ih holds ⊢
      cases m with
      | take worker d =>
          dsimp only [step]
          unfold take
          split <;> exact ih
      | proceed worker reply =>
          dsimp only [step]
          unfold proceed
          split
          · exact ih
          · exact ih
          · rename_i hw
            exact ask _ _ (holds.rest _ _ _ hw).1 ih
          · exact note _ _ ih
      | wait d => exact wait _ d ih
      | sweep => exact sweep _ ih

end Crew

end DurableMessaging
