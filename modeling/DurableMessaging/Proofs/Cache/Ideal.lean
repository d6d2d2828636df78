import DurableMessaging.Proofs.Cache.Effect
import Mathlib.Data.List.Nodup

/-!
# The cache and an ideal map

An ideal map drops nothing for being past its deadline: such an entry only counts as absent. The
cache answers as an ideal map does, whatever has been asked of it and however much time has passed.
So no answer tells when the cache has swept, what a purge has dropped or how often it sweeps.
-/

namespace DurableMessaging

/-! ## What is asked -/

/-- What a client can do with a cache, and time that passes. -/
inductive CacheMove where
  | wait (pause : Duration)
  | call (c : CacheCall)
  | timeLeft (key : String)
  | size
  | purge
  | setAvailable (available : Bool)
  | setSweepEvery (writes : UInt64)

/-- How many entries a purge has dropped is no answer here: an ideal map cannot know. -/
abbrev CacheMove.Answer : CacheMove → Type
  | .call c => Except CacheError c.Answer
  | .timeLeft _ => Option Duration
  | .size => Nat
  | _ => Unit

namespace CacheMove

def elapse (now : Instant) : CacheMove → Instant
  | .wait pause => now + pause
  | _ => now

/-- Whether a move has to do with what is dropped, and with nothing else. -/
def isUpkeep : CacheMove → Bool
  | .purge | .setSweepEvery _ => true
  | _ => false

/-- Whether a move may put an entry under a key. -/
def puts (key : String) : CacheMove → Bool
  | .call (.set k ..) | .call (.setIfAbsent k ..) | .call (.increment k) => k == key
  | _ => false

end CacheMove

/-- Answers the moves of a client, at any time and in a state of any kind. -/
abbrev CacheServer (σ : Type) := Instant → σ → (m : CacheMove) → m.Answer × σ

namespace CacheServer

variable {σ : Type}

def step (serve : CacheServer σ) (s : Instant × σ) (m : CacheMove) : Instant × σ :=
  (m.elapse s.1, (serve s.1 s.2 m).2)

def run (serve : CacheServer σ) (s : Instant × σ) (moves : List CacheMove) : Instant × σ :=
  moves.foldl serve.step s

/-- The answer to a move that comes after others. -/
def answerAfter (serve : CacheServer σ) (s : Instant × σ) (moves : List CacheMove) (m : CacheMove) :
    m.Answer :=
  (serve (serve.run s moves).1 (serve.run s moves).2 m).1

end CacheServer

def Cache.serve : CacheServer Cache := fun now c m =>
  match m with
  | .wait _ => ((), c)
  | .call call => c.perform now call
  | .timeLeft key => (c.timeLeft now key, c)
  | .size => (c.size now, c)
  | .purge => ((), (c.purge now).2)
  | .setAvailable available => ((), { c with available })
  | .setSweepEvery writes => ((), c.setSweepEvery writes)

/-! ## The ideal map -/

structure IdealMap where
  /-- The last entry put under each key, unless it was deleted. -/
  entries : Registry CacheEntry
  available : Bool

namespace IdealMap

/-- The entry under a key, as long as it has no deadline or one yet to come. -/
def present? (m : IdealMap) (now : Instant) (key : String) : Option CacheEntry :=
  (m.entries.get? key).filter (·.isLive now)

def put (m : IdealMap) (key : String) (e : CacheEntry) : IdealMap :=
  { m with entries := m.entries.insert key e }

def remove (m : IdealMap) (key : String) : IdealMap := { m with entries := m.entries.erase key }

/-- Adds one to the integer that is present under a key and keeps its deadline. -/
def increment (m : IdealMap) (now : Instant) (key : String) : Except CacheError Int × IdealMap :=
  match m.present? now key with
  | none => (.ok 1, m.put key ⟨"1", none⟩)
  | some e =>
    match Text.counter? e.value with
    | none => (.error (.notAnInteger key), m)
    | some n =>
      if n + 1 < (UInt64.size / 2 : Nat) then (.ok (n + 1), m.put key ⟨(n + 1).repr, e.deadline⟩)
      else (.error (.notAnInteger key), m)

def answer (m : IdealMap) (now : Instant) :
    (call : CacheCall) → Except CacheError call.Answer × IdealMap
  | .exists key => (.ok (m.present? now key).isSome, m)
  | .get key => (.ok ((m.present? now key).map (·.value)), m)
  | .set key value ttl => (.ok (), m.put key ⟨value, ttl.bind now.deadline⟩)
  | .setIfAbsent key value ttl =>
    if (m.present? now key).isSome then (.ok false, m)
    else (.ok true, m.put key ⟨value, ttl.bind now.deadline⟩)
  | .increment key => m.increment now key
  | .delete key => (.ok (m.present? now key).isSome, m.remove key)

/-- Answers every move of a client. Sweeps and purges mean nothing to an ideal map. -/
def serve : CacheServer IdealMap := fun now m move =>
  match move with
  | .call call =>
    if m.available then m.answer now call
    else (.error (.unavailable "in-memory cache switched off"), m)
  | .timeLeft key => (((m.present? now key).bind (·.deadline)).map (· - now), m)
  | .size => ((m.entries.filter fun _ e => e.isLive now).size, m)
  | .setAvailable available => ((), { m with available })
  | .wait _ | .purge | .setSweepEvery _ => ((), m)

theorem present?_put (m : IdealMap) (key : String) (e : CacheEntry) (later : Instant) (k : String) :
    (m.put key e).present? later k =
      if k = key then (some e).filter (·.isLive later) else m.present? later k := by
  unfold present? put
  rw [Registry.get?_insert]
  split <;> rfl

theorem present?_remove (m : IdealMap) (key : String) (later : Instant) (k : String) :
    (m.remove key).present? later k = if k = key then none else m.present? later k := by
  unfold present? remove
  rw [Registry.get?_erase]
  split <;> rfl

theorem present?_same (m : IdealMap) {now later : Instant} (hn : now ≤ later) (key k : String) :
    m.present? later k =
      if k = key then (m.present? now key).filter (·.isLive later) else m.present? later k := by
  split
  · rename_i h
    rw [h]
    exact (CacheEntry.filter_isLive_isLive hn _).symm
  · rfl

theorem available_answer (m : IdealMap) (now : Instant) (call : CacheCall) :
    (m.answer now call).2.available = m.available := by
  cases call with
  | setIfAbsent key value ttl =>
      dsimp only [answer]
      split <;> rfl
  | increment key =>
      dsimp only [answer, increment]
      split
      · rfl
      · split
        · rfl
        · split <;> rfl
  | _ => rfl

/-- An ideal map answers by what is present under the key of the call. -/
theorem answer_fst (m : IdealMap) (now : Instant) (call : CacheCall) :
    (m.answer now call).1 = (call.effect now (m.present? now call.key)).1 := by
  cases call with
  | setIfAbsent key value ttl =>
      dsimp only [answer, CacheCall.key]
      cases m.present? now key <;> rfl
  | increment key =>
      dsimp only [answer, increment, CacheCall.key]
      cases m.present? now key with
      | none => rfl
      | some e =>
          dsimp only [CacheCall.effect, Cache.successor?]
          cases Text.counter? e.value with
          | none => rfl
          | some n =>
              dsimp only
              split <;> rfl
  | _ => rfl

theorem present?_answer (m : IdealMap) {now later : Instant} (hn : now ≤ later) (call : CacheCall)
    (k : String) :
    (m.answer now call).2.present? later k =
      if k = call.key then (call.effect now (m.present? now call.key)).2.filter (·.isLive later)
      else m.present? later k := by
  cases call with
  | «exists» key => exact m.present?_same hn key k
  | get key => exact m.present?_same hn key k
  | set key value ttl => exact m.present?_put key _ later k
  | setIfAbsent key value ttl =>
      have same := m.present?_same hn key k
      dsimp only [answer, CacheCall.key]
      cases hp : m.present? now key with
      | none => exact m.present?_put key _ later k
      | some e =>
          rw [hp] at same
          exact same
  | increment key =>
      have same := m.present?_same hn key k
      dsimp only [answer, increment, CacheCall.key]
      cases hp : m.present? now key with
      | none => exact m.present?_put key _ later k
      | some e =>
          rw [hp] at same
          dsimp only [CacheCall.effect, Cache.successor?]
          cases Text.counter? e.value with
          | none => exact same
          | some n =>
              dsimp only
              split
              · exact m.present?_put key _ later k
              · exact same
  | delete key => exact m.present?_remove key later k

/-- The ideal map that has what a cache has. -/
def of (c : Cache) : IdealMap := ⟨c.entries, c.available⟩

/-! ## The cache keeps up with the ideal map -/

/-- From an instant on, the same is live in the cache as is present in the ideal map. Entries past
their deadline may be in either or in both. -/
structure Mirrors (now : Instant) (c : Cache) (m : IdealMap) : Prop where
  available : c.available = m.available
  live : ∀ key later, now ≤ later → c.live? later key = m.present? later key

namespace Mirrors

variable {now : Instant} {c : Cache} {m : IdealMap}

theorem self (now : Instant) (c : Cache) : Mirrors now c (of c) := ⟨rfl, fun _ _ _ => rfl⟩

theorem wait (h : Mirrors now c m) {later : Instant} (hn : now ≤ later) : Mirrors later c m :=
  ⟨h.available, fun key t ht => h.live key t (Nat.le_trans hn ht)⟩

theorem sweep (h : Mirrors now c m) : Mirrors now (c.sweep now) m :=
  ⟨h.available, fun key _ ht => (c.live?_sweep ht key).trans (h.live key _ ht)⟩

/-- A call has the same answer from both, and they stay in step. -/
theorem call (h : Mirrors now c m) (call : CacheCall) :
    (c.perform now call).1 = (serve now m (.call call)).1 ∧
      Mirrors now (c.perform now call).2 (serve now m (.call call)).2 := by
  have same := h.live call.key now (Nat.le_refl now)
  dsimp only [serve]
  cases ha : m.available with
  | true =>
      have hc : c.available = true := h.available.trans ha
      rw [if_pos rfl]
      refine ⟨?_, ?_, fun key later hn => ?_⟩
      · rw [Cache.perform_fst hc, answer_fst, same]
      · rw [c.available_perform, available_answer, h.available]
      · rw [Cache.live?_perform hc hn, present?_answer m hn, same, h.live key later hn]
  | false =>
      have hc : c.available = false := h.available.trans ha
      rw [if_neg Bool.false_ne_true]
      unfold Cache.perform Cache.ensureAvailable
      rw [hc]
      exact ⟨rfl, h⟩

end Mirrors

end IdealMap

namespace Registry

variable {α β : Type}

theorem mem_names_iff {r : Registry α} {name : String} :
    name ∈ r.entries.map Prod.fst ↔ (r.get? name).isSome = true := by
  unfold get?
  rw [List.lookup_isSome_iff, List.mem_map]
  constructor
  · rintro ⟨e, he, rfl⟩
    exact ⟨e, he, beq_self_eq_true _⟩
  · rintro ⟨e, he, heq⟩
    exact ⟨e, he, (beq_iff_eq.mp heq).symm⟩

/-- Registries with values under the same names are of one size. -/
theorem size_congr {r : Registry α} {r' : Registry β}
    (h : ∀ name, (r.get? name).isSome = (r'.get? name).isSome) : r.size = r'.size := by
  have names : (r.entries.map Prod.fst).Perm (r'.entries.map Prod.fst) := by
    rw [List.perm_ext_iff_of_nodup r.nodup r'.nodup]
    intro name
    rw [mem_names_iff, mem_names_iff, h]
  have := names.length_eq
  rwa [List.length_map, List.length_map] at this

end Registry

namespace IdealMap.Mirrors

variable {now : Instant} {c : Cache} {m : IdealMap}

theorem size (h : Mirrors now c m) :
    c.size now = (m.entries.filter fun _ e => e.isLive now).size := by
  refine Registry.size_congr fun name => ?_
  rw [Registry.get?_filter]
  exact congrArg Option.isSome ((c.get?_sweep now name).trans (h.live name now (Nat.le_refl now)))

theorem step (h : Mirrors now c m) (move : CacheMove) :
    (Cache.serve now c move).1 = (serve now m move).1 ∧
      Mirrors (move.elapse now) (Cache.serve now c move).2 (serve now m move).2 := by
  cases move with
  | wait pause => exact ⟨rfl, h.wait (Nat.le_add_right now pause)⟩
  | call call => exact h.call call
  | timeLeft key =>
      refine ⟨?_, h⟩
      dsimp only [Cache.serve, serve, Cache.timeLeft]
      rw [h.live key now (Nat.le_refl now)]
  | size => exact ⟨h.size, h⟩
  | purge => exact ⟨rfl, h.sweep⟩
  | setAvailable available => exact ⟨rfl, rfl, h.live⟩
  | setSweepEvery writes => exact ⟨rfl, h.available, h.live⟩

theorem run (h : Mirrors now c m) (moves : List CacheMove) :
    (Cache.serve.run (now, c) moves).1 = (serve.run (now, m) moves).1 ∧
      Mirrors (Cache.serve.run (now, c) moves).1 (Cache.serve.run (now, c) moves).2
        (serve.run (now, m) moves).2 := by
  induction moves generalizing now c m with
  | nil => exact ⟨rfl, h⟩
  | cons move moves ih => exact ih (h.step move).2

end IdealMap.Mirrors

/-- Upkeep is nothing to an ideal map. -/
theorem IdealMap.run_filter_upkeep (s : Instant × IdealMap) (moves : List CacheMove) :
    serve.run s (moves.filter fun m => !m.isUpkeep) = serve.run s moves := by
  induction moves generalizing s with
  | nil => rfl
  | cons m moves ih =>
      cases hm : m.isUpkeep with
      | false =>
          rw [List.filter_cons_of_pos (by rw [hm]; rfl)]
          exact ih _
      | true =>
          have idle : serve.step s m = s := by cases m <;> first | rfl | cases hm
          rw [List.filter_cons_of_neg (by rw [hm]; exact Bool.false_ne_true), ih]
          exact (congrArg (serve.run · moves) idle).symm

namespace Cache

theorem answerAfter_eq_ideal (now : Instant) (c : Cache) (moves : List CacheMove) (m : CacheMove) :
    Cache.serve.answerAfter (now, c) moves m = IdealMap.serve.answerAfter (now, .of c) moves m := by
  obtain ⟨clock, mirrors⟩ := (IdealMap.Mirrors.self now c).run moves
  unfold CacheServer.answerAfter
  rw [(mirrors.step m).1, clock]

/-- What is absent stays absent as long as nothing is put in its place. -/
theorem live?_step_eq_none {s : Instant × Cache} {key : String} (absent : s.2.live? s.1 key = none)
    {m : CacheMove} (hm : m.puts key = false) :
    (Cache.serve.step s m).2.live? (Cache.serve.step s m).1 key = none := by
  cases m with
  | wait pause => exact live?_eq_none absent (Nat.le_add_right s.1 pause)
  | call call =>
      by_cases hk : call.key = key
      · subst hk
        cases ha : s.2.available with
        | false =>
            dsimp only [CacheServer.step, Cache.serve, CacheMove.elapse, perform, ensureAvailable]
            rw [ha]
            exact absent
        | true =>
            dsimp only [CacheServer.step, Cache.serve, CacheMove.elapse]
            rw [live?_perform ha (Nat.le_refl s.1), if_pos rfl, absent]
            cases call with
            | «exists» key => rfl
            | get key => rfl
            | delete key => rfl
            | set key value ttl => exact absurd hm (by simp [CacheMove.puts, CacheCall.key])
            | setIfAbsent key value ttl => exact absurd hm (by simp [CacheMove.puts, CacheCall.key])
            | increment key => exact absurd hm (by simp [CacheMove.puts, CacheCall.key])
      · exact (s.2.live?_perform_of_ne (Nat.le_refl s.1) hk).trans absent
  | purge => exact (s.2.live?_sweep (Nat.le_refl s.1) key).trans absent
  | _ => exact absent

theorem live?_run_eq_none {s : Instant × Cache} {key : String} (absent : s.2.live? s.1 key = none)
    {moves : List CacheMove} (quiet : ∀ m ∈ moves, m.puts key = false) :
    (Cache.serve.run s moves).2.live? (Cache.serve.run s moves).1 key = none := by
  induction moves generalizing s with
  | nil => exact absent
  | cons m moves ih =>
      obtain ⟨hm, hmoves⟩ := List.forall_mem_cons.mp quiet
      exact ih (live?_step_eq_none absent hm) hmoves

/-- A call succeeds or changes nothing at all. -/
theorem perform_ok_or_same (c : Cache) (now : Instant) (call : CacheCall) :
    (∃ a, (c.perform now call).1 = .ok a) ∨ (c.perform now call).2 = c := by
  unfold perform
  cases c.ensureAvailable with
  | error e => exact .inr rfl
  | ok u =>
      cases call with
      | setIfAbsent key value ttl =>
          dsimp only [answer]
          split <;> exact .inl ⟨_, rfl⟩
      | increment key =>
          dsimp only [answer, increment]
          cases c.live? now key with
          | none => exact .inl ⟨1, rfl⟩
          | some e =>
              dsimp only
              cases successor? e.value with
              | none => exact .inr rfl
              | some n => exact .inl ⟨n, rfl⟩
      | _ => exact .inl ⟨_, rfl⟩

/-- Whatever a client has done with a cache, every answer is that of an ideal map that drops
nothing. So it makes no difference which purges there were and how often the cache was to sweep,
what is past its deadline stays absent until it is put there anew, and a call that fails leaves
everything as it is. -/
theorem answers_as_ideal_map (now : Instant) (c : Cache) (moves : List CacheMove) :
    (∀ m, Cache.serve.answerAfter (now, c) moves m =
      IdealMap.serve.answerAfter (now, .of c) moves m) ∧
    (∀ m, Cache.serve.answerAfter (now, c) (moves.filter fun m => !m.isUpkeep) m =
      Cache.serve.answerAfter (now, c) moves m) ∧
    (∀ key more, (∀ m ∈ more, m.puts key = false) →
      let s := Cache.serve.run (now, c) moves
      let t := Cache.serve.run (now, c) (moves ++ more)
      s.2.live? s.1 key = none → t.2.live? t.1 key = none) ∧
    (∀ call e, Cache.serve.answerAfter (now, c) moves (.call call) = .error e →
      (Cache.serve.run (now, c) (moves ++ [.call call])).2 =
        (Cache.serve.run (now, c) moves).2) := by
  refine ⟨c.answerAfter_eq_ideal now moves, fun m => ?_, fun key more quiet => ?_,
    fun call e failed => ?_⟩
  · rw [answerAfter_eq_ideal, answerAfter_eq_ideal]
    unfold CacheServer.answerAfter
    rw [IdealMap.run_filter_upkeep]
  · intro s t absent
    have split : t = Cache.serve.run s more := List.foldl_append
    rw [split]
    exact live?_run_eq_none absent quiet
  · have split : Cache.serve.run (now, c) (moves ++ [.call call]) =
        Cache.serve.step (Cache.serve.run (now, c) moves) (.call call) := List.foldl_append
    rw [split]
    refine (perform_ok_or_same _ _ call).resolve_left ?_
    rintro ⟨a, ha⟩
    cases ha.symm.trans failed

end Cache

end DurableMessaging
