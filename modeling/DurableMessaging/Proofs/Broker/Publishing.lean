import Mathlib.Logic.Relation
import DurableMessaging.Proofs.Broker.Change

/-!
# Publishers whose callbacks publish

A publish leaves a callback with the broker, and a callback may itself publish: in the midst of the
publish that it belongs to, or while held confirms are given out. Every publish is numbered, and a
book tells what becomes of it. Whatever callbacks do comes to publishes one after another, and what
a move adds to the book and to the held confirms follows from what one publish adds.
-/

namespace DurableMessaging

open Relation (ReflTransGen)

/-- What a callback does: it publishes messages one after another, each with a callback of its own,
and goes on as it is answered. Callbacks that share some state are covered too: none runs twice, so
what each does in a given run is such a tree. -/
inductive Reaction where
  | done
  | publish (m : OutboundMessage) (callback : Confirm → Reaction)
      (next : Except BrokerError Unit → Reaction)

/-- The callback of one publish. -/
structure Callback where
  /-- Tells the publish from others; nothing acts on it. -/
  number : Nat
  react : Confirm → Reaction

inductive PublishEvent where
  | accepted (callback : Callback) (m : OutboundMessage) (mode : ConfirmMode)
  | refused (callback : Callback) (m : OutboundMessage) (e : BrokerError)
  /-- A confirm that was held comes with the argument of the call that settles it. -/
  | fired (callback : Callback) (c : Confirm) (settling : Option Bool)
  | lost (callback : Callback)

namespace PublishEvent

/-- The number of a publish that is answered. -/
def answered? : PublishEvent → Option Nat
  | .accepted callback _ _ | .refused callback _ _ => some callback.number
  | _ => none

def accepted? : PublishEvent → Option Nat
  | .accepted callback _ _ => some callback.number
  | _ => none

def fired? : PublishEvent → Option Nat
  | .fired callback _ _ => some callback.number
  | _ => none

def lost? : PublishEvent → Option Nat
  | .lost callback => some callback.number
  | _ => none

/-- The confirm that an accepted publish leaves held. -/
def held? : PublishEvent → Option (HeldConfirm Callback)
  | .accepted callback m .hold => some ⟨m.correlation, callback⟩
  | _ => none

/-- The confirm that is given out by a call that settles held ones. -/
def settled? : PublishEvent → Option (Callback × Confirm × Bool)
  | .fired callback c (some ack) => some (callback, c, ack)
  | _ => none

end PublishEvent

/-- The confirm for an accepted publish: at once if the mode says so, else as the call that settles
it says. -/
def ConfirmMode.confirm? (m : OutboundMessage) : ConfirmMode → Option Bool → Option Confirm
  | .ack, none => some (.ofAck m.correlation true)
  | .nack, none => some (.ofAck m.correlation false)
  | .hold, some settling => some (.ofAck m.correlation settling)
  | _, _ => none

/-- A broker with the publishers that use it. -/
structure Publishing where
  broker : Broker Callback
  /-- How many publishes there were, which is the number of the next. -/
  publishes : Nat
  /-- The oldest first. -/
  book : List PublishEvent

/-! ## Publishing -/

namespace Publishing

def start (b : Broker Callback) : Publishing := ⟨b.loseConfirms, 0, []⟩

def refuse (s : Publishing) (m : OutboundMessage) (react : Confirm → Reaction) (e : BrokerError) :
    Publishing :=
  { s with
    publishes := s.publishes + 1
    book := s.book ++ [.refused ⟨s.publishes, react⟩ m e] }

/-- Writes down what a publish that is taken leads to, before its callback does anything. -/
def accept (s : Publishing) (m : OutboundMessage) (react : Confirm → Reaction)
    (p : Broker.Published Callback) : Publishing where
  broker := p.broker
  publishes := s.publishes + 1
  book :=
    s.book ++ .accepted ⟨s.publishes, react⟩ m s.broker.confirmMode ::
      p.confirm.toList.map fun (callback, c) => .fired callback c none

/-- A publish; `play` is what the callback does with a confirm that is due at once. -/
def publishWith (s : Publishing) (m : OutboundMessage) (react : Confirm → Reaction)
    (play : Confirm → Publishing → Publishing) : Except BrokerError Unit × Publishing :=
  match s.broker.publish m ⟨s.publishes, react⟩ with
  | .error e => (.error e, s.refuse m react e)
  | .ok p =>
    (.ok (),
      match p.confirm with
      | none => s.accept m react p
      | some (_, c) => play c (s.accept m react p))

end Publishing

def Reaction.play : Reaction → Publishing → Publishing
  | .done, s => s
  | .publish m callback next, s =>
    let (answer, s) := s.publishWith m callback fun c => (callback c).play
    (next answer).play s

namespace Publishing

def publish (s : Publishing) (m : OutboundMessage) (react : Confirm → Reaction) :
    Except BrokerError Unit × Publishing :=
  s.publishWith m react fun c => (react c).play

/-- Gives out a confirm that was held. -/
def fire (ack : Bool) (s : Publishing) (due : Callback × Confirm) : Publishing :=
  (due.1.react due.2).play { s with book := s.book ++ [.fired due.1 due.2 (some ack)] }

/-- Gives out every held confirm and tells how many there were. -/
def settleConfirms (s : Publishing) (ack : Bool) : Nat × Publishing :=
  let (due, broker) := s.broker.releaseConfirms ack
  (due.length, due.foldl (fire ack) { s with broker })

/-- Forgets every held confirm and tells how many there were. -/
def loseConfirms (s : Publishing) : Nat × Publishing :=
  (s.broker.held.length,
    { s with
      broker := s.broker.loseConfirms
      book := s.book ++ s.broker.held.map (.lost ·.callback) })

end Publishing

inductive PublishMove where
  | publish (m : OutboundMessage) (callback : Confirm → Reaction)
  | setConfirmMode (mode : ConfirmMode)
  | setAvailable (available : Bool)
  | settleConfirms (ack : Bool)
  | loseConfirms

namespace Publishing

def step (s : Publishing) : PublishMove → Publishing
  | .publish m callback => (s.publish m callback).2
  | .setConfirmMode confirmMode => { s with broker := { s.broker with confirmMode } }
  | .setAvailable available => { s with broker := { s.broker with available } }
  | .settleConfirms ack => (s.settleConfirms ack).2
  | .loseConfirms => s.loseConfirms.2

def run (s : Publishing) (moves : List PublishMove) : Publishing := moves.foldl step s

/-! ## One publish -/

end Publishing

namespace Broker

variable {κ : Type}

/-- A publish that is taken either leaves its confirm held or hands its own callback back. -/
theorem confirm_of_publish {b : Broker κ} {m : OutboundMessage} {callback : κ} {p : Published κ}
    (h : b.publish m callback = .ok p) :
    p.broker.confirmMode = b.confirmMode ∧
      (b.confirmMode = .hold ∧ p.confirm = none ∧
          p.broker.held = b.held ++ [⟨m.correlation, callback⟩] ∨
        ∃ c, b.confirmMode.confirm? m none = some c ∧ p.confirm = some (callback, c) ∧
          p.broker.held = b.held) := by
  obtain ⟨t, -, -, rfl⟩ := publish_eq_ok h
  unfold taken
  cases hm : b.confirmMode with
  | ack => exact ⟨hm, .inr ⟨_, rfl, rfl, rfl⟩⟩
  | nack => exact ⟨hm, .inr ⟨_, rfl, rfl, rfl⟩⟩
  | hold => exact ⟨hm, .inl ⟨rfl, rfl, rfl⟩⟩

end Broker

/-- What is confirmed at once goes to the callback that the broker was given. -/
theorem Publishing.publish_eq (s : Publishing) (m : OutboundMessage) (react : Confirm → Reaction) :
    s.publish m react =
      match s.broker.publish m ⟨s.publishes, react⟩ with
      | .error e => (.error e, s.refuse m react e)
      | .ok p =>
        (.ok (),
          match p.confirm with
          | none => s.accept m react p
          | some (callback, c) => (callback.react c).play (s.accept m react p)) := by
  unfold publish publishWith
  cases h : s.broker.publish m ⟨s.publishes, react⟩ with
  | error e => rfl
  | ok p =>
      dsimp only
      obtain ⟨-, ⟨-, hc, -⟩ | ⟨c, -, hc, -⟩⟩ := Broker.confirm_of_publish h
      · rw [hc]
      · rw [hc]

/-- A callback's publish is like any other. -/
theorem Reaction.play_publish (m : OutboundMessage) (callback : Confirm → Reaction)
    (next : Except BrokerError Unit → Reaction) (s : Publishing) :
    (Reaction.publish m callback next).play s =
      (next (s.publish m callback).1).play (s.publish m callback).2 := rfl

namespace Publishing

/-- What happens between two moments, if meanwhile no held confirm is taken away and the mode is not
set. -/
structure Adds (s t : Publishing) (events : List PublishEvent) : Prop where
  book : t.book = s.book ++ events
  held : t.broker.held = s.broker.held ++ events.filterMap (·.held?)
  mode : t.broker.confirmMode = s.broker.confirmMode
  modes : ∀ callback m mode, .accepted callback m mode ∈ events → mode = s.broker.confirmMode

theorem Adds.refl (s : Publishing) : Adds s s [] where
  book := (List.append_nil _).symm
  held := (List.append_nil _).symm
  mode := rfl
  modes _ _ _ h := absurd h List.not_mem_nil

theorem Adds.trans {s t u : Publishing} {es fs : List PublishEvent} (h : Adds s t es)
    (h' : Adds t u fs) : Adds s u (es ++ fs) where
  book := by rw [h'.book, h.book, List.append_assoc]
  held := by rw [h'.held, h.held, List.append_assoc, List.filterMap_append]
  mode := h'.mode.trans h.mode
  modes callback m mode hm := by
    obtain hm | hm := List.mem_append.mp hm
    · exact h.modes callback m mode hm
    · exact (h'.modes callback m mode hm).trans h.mode

/-- What a publish writes into the book in a mode, up to what its callback does. -/
inductive Entry (callback : Callback) : ConfirmMode → List PublishEvent → Prop
  | refused (mode : ConfirmMode) (m : OutboundMessage) (e : BrokerError) :
      Entry callback mode [.refused callback m e]
  | held (m : OutboundMessage) : Entry callback .hold [.accepted callback m .hold]
  | fired {m : OutboundMessage} {mode : ConfirmMode} {c : Confirm} :
      mode.confirm? m none = some c →
        Entry callback mode [.accepted callback m mode, .fired callback c none]

section Entry

variable {callback : Callback} {mode : ConfirmMode} {events : List PublishEvent}

theorem Entry.answered (h : Entry callback mode events) :
    events.filterMap (·.answered?) = [callback.number] := by
  cases h <;> rfl

theorem Entry.settled (h : Entry callback mode events) :
    events.filterMap (·.settled?) = [] := by
  cases h <;> rfl

theorem Entry.modes (h : Entry callback mode events) {other : Callback} {m : OutboundMessage}
    {mode' : ConfirmMode} (hm : .accepted other m mode' ∈ events) : mode' = mode := by
  cases h with
  | refused mode m' e => simp at hm
  | held m' =>
      have hm : other = callback ∧ m = m' ∧ mode' = .hold := by simpa using hm
      exact hm.2.2
  | @fired m' mode c hc =>
      have hm : other = callback ∧ m = m' ∧ mode' = mode := by simpa using hm
      exact hm.2.2

theorem Entry.held_cases (h : Entry callback mode events) :
    events.filterMap (·.held?) = [] ∨
      ∃ m, .accepted callback m .hold ∈ events ∧
        events.filterMap (·.held?) = [⟨m.correlation, callback⟩] := by
  cases h with
  | refused mode m e => exact .inl rfl
  | held m => exact .inr ⟨m, .head _, rfl⟩
  | @fired m mode c hc =>
      cases mode with
      | ack | nack => exact .inl rfl
      | hold => cases hc

theorem Entry.count (h : Entry callback mode events) (n : Nat) :
    (events.filterMap (·.fired?)).count n +
        ((events.filterMap (·.held?)).map (·.callback.number)).count n +
          (events.filterMap (·.lost?)).count n =
      (events.filterMap (·.accepted?)).count n := by
  cases h with
  | refused mode m e => rfl
  | held m => exact Nat.zero_add _
  | @fired m mode c hc =>
      cases mode with
      | ack | nack => rfl
      | hold => cases hc

theorem Entry.fits (h : Entry callback mode events) {other : Callback} {c : Confirm}
    {settling : Option Bool} (hc : .fired other c settling ∈ events) :
    ∃ m mode, .accepted other m mode ∈ events ∧ mode.confirm? m settling = some c := by
  cases h with
  | refused mode m e => simp at hc
  | held m => simp at hc
  | @fired m mode c' hm =>
      obtain ⟨rfl, rfl, rfl⟩ : other = callback ∧ c = c' ∧ settling = none := by simpa using hc
      exact ⟨m, mode, .head _, hm⟩

end Entry

/-- One publish, up to what its callback does. -/
def Publishes (s t : Publishing) : Prop :=
  t.publishes = s.publishes + 1 ∧
    ∃ react events, Entry ⟨s.publishes, react⟩ s.broker.confirmMode events ∧ Adds s t events

theorem Entry.publishes {s t : Publishing} {react : Confirm → Reaction}
    {events : List PublishEvent}
    (h : Entry ⟨s.publishes, react⟩ s.broker.confirmMode events)
    (hn : t.publishes = s.publishes + 1) (hbook : t.book = s.book ++ events)
    (hheld : t.broker.held = s.broker.held ++ events.filterMap (·.held?))
    (hmode : t.broker.confirmMode = s.broker.confirmMode) : Publishes s t :=
  ⟨hn, react, events, h, hbook, hheld, hmode, fun _ _ _ => h.modes⟩

theorem publishes_refuse (s : Publishing) (m : OutboundMessage) (react : Confirm → Reaction)
    (e : BrokerError) : Publishes s (s.refuse m react e) :=
  (Entry.refused _ m e).publishes rfl rfl (List.append_nil _).symm rfl

theorem publishes_accept {s : Publishing} {m : OutboundMessage} {react : Confirm → Reaction}
    {p : Broker.Published Callback} (h : s.broker.publish m ⟨s.publishes, react⟩ = .ok p) :
    Publishes s (s.accept m react p) := by
  obtain ⟨hmode, ⟨hm, hc, hh⟩ | ⟨c, hm, hc, hh⟩⟩ := Broker.confirm_of_publish h
  · have hentry : Entry ⟨s.publishes, react⟩ s.broker.confirmMode
        [.accepted ⟨s.publishes, react⟩ m .hold] := by
      rw [hm]
      exact .held m
    refine hentry.publishes rfl ?_ hh hmode
    rw [accept, hc, hm]
    rfl
  · have hentry : Entry ⟨s.publishes, react⟩ s.broker.confirmMode
        [.accepted ⟨s.publishes, react⟩ m s.broker.confirmMode,
          .fired ⟨s.publishes, react⟩ c none] := .fired hm
    refine hentry.publishes rfl ?_ ?_ hmode
    · rw [accept, hc]
      rfl
    · cases hm' : s.broker.confirmMode with
      | ack | nack => exact hh.trans (List.append_nil _).symm
      | hold =>
          rw [hm'] at hm
          cases hm

theorem publishWith_publishes {play : Confirm → Publishing → Publishing}
    (hplay : ∀ c s, ReflTransGen Publishes s (play c s)) (s : Publishing) (m : OutboundMessage)
    (react : Confirm → Reaction) : ReflTransGen Publishes s (s.publishWith m react play).2 := by
  unfold publishWith
  cases h : s.broker.publish m ⟨s.publishes, react⟩ with
  | error e => exact .single (publishes_refuse s m react e)
  | ok p =>
      cases hc : p.confirm with
      | none => simpa only [hc] using .single (publishes_accept h)
      | some due => simpa only [hc] using .head (publishes_accept h) (hplay _ _)

end Publishing

open Publishing in
/-- Whatever a callback does comes to some publishes, one after another. -/
theorem Reaction.play_publishes (r : Reaction) (s : Publishing) :
    ReflTransGen Publishes s (r.play s) := by
  induction r generalizing s with
  | done => exact .refl
  | publish m callback next ihCallback ihNext =>
      rw [play_publish]
      exact (publishWith_publishes ihCallback s m callback).trans (ihNext _ _)

namespace Publishing

theorem publish_publishes (s : Publishing) (m : OutboundMessage) (react : Confirm → Reaction) :
    ReflTransGen Publishes s (s.publish m react).2 :=
  publishWith_publishes (fun c => (react c).play_publishes) s m react

/-! ## Giving out what is held -/

/-- Publishes do not give out what is held. -/
theorem adds_of_publishes {s t : Publishing} (h : ReflTransGen Publishes s t) :
    ∃ events, Adds s t events ∧ events.filterMap (·.settled?) = [] := by
  induction h with
  | refl => exact ⟨[], .refl s, rfl⟩
  | tail _ h ih =>
      obtain ⟨es, hes, hnone⟩ := ih
      obtain ⟨-, _, fs, hentry, hfs⟩ := h
      exact ⟨es ++ fs, hes.trans hfs, by rw [List.filterMap_append, hnone, hentry.settled]; rfl⟩

theorem fire_adds (ack : Bool) (s : Publishing) (callback : Callback) (c : Confirm) :
    ∃ events, Adds s (fire ack s (callback, c)) events ∧
      events.filterMap (·.settled?) = [(callback, c, ack)] := by
  obtain ⟨events, hadds, hnone⟩ := adds_of_publishes ((callback.react c).play_publishes _)
  refine ⟨.fired callback c (some ack) :: events, ?_, congrArg ((callback, c, ack) :: ·) hnone⟩
  exact
    { book := hadds.book.trans (List.append_assoc _ _ _)
      held := hadds.held
      mode := hadds.mode
      modes := fun other m mode hm => hadds.modes other m mode (by simpa using hm) }

/-- Giving confirms out fires each once, in order, whatever is published meanwhile. -/
theorem foldl_fire_adds (ack : Bool) (due : List (Callback × Confirm)) (s : Publishing) :
    ∃ events, Adds s (due.foldl (fire ack) s) events ∧
      events.filterMap (·.settled?) = due.map fun (callback, c) => (callback, c, ack) := by
  induction due generalizing s with
  | nil => exact ⟨[], .refl s, rfl⟩
  | cons x due ih =>
      obtain ⟨es, hes, hx⟩ := fire_adds ack s x.1 x.2
      obtain ⟨fs, hfs, hdue⟩ := ih (fire ack s x)
      exact ⟨es ++ fs, hes.trans hfs, by rw [List.filterMap_append, hx, hdue]; rfl⟩

theorem settleConfirms_eq (s : Publishing) (ack : Bool) :
    s.settleConfirms ack =
      (s.broker.held.length,
        (s.broker.held.map fun x => (x.callback, .ofAck x.correlation ack)).foldl (fire ack)
          { s with broker := s.broker.loseConfirms }) := by
  unfold settleConfirms Broker.releaseConfirms
  dsimp only
  rw [List.length_map]
  rfl

/-- Settling gives out what is held when it starts and keeps what is held meanwhile. -/
theorem settleConfirms_adds (s : Publishing) (ack : Bool) :
    ∃ events,
      Adds { s with broker := s.broker.loseConfirms } (s.settleConfirms ack).2 events ∧
        events.filterMap (·.settled?) =
          s.broker.held.map fun x => (x.callback, .ofAck x.correlation ack, ack) := by
  rw [settleConfirms_eq]
  obtain ⟨events, hadds, hsettled⟩ := foldl_fire_adds ack
    (s.broker.held.map fun x => (x.callback, .ofAck x.correlation ack))
    { s with broker := s.broker.loseConfirms }
  refine ⟨events, hadds, ?_⟩
  rw [hsettled, List.map_map]
  rfl

/-- A publish that fails leaves the broker as it was. -/
theorem publish_cases (s : Publishing) (m : OutboundMessage) (react : Confirm → Reaction) :
    (∃ e, s.publish m react = (.error e, s.refuse m react e)) ∨
      ∃ t events, s.publish m react = (.ok (), t) ∧
        t.book = s.book ++ .accepted ⟨s.publishes, react⟩ m s.broker.confirmMode :: events := by
  rw [publish_eq]
  cases h : s.broker.publish m ⟨s.publishes, react⟩ with
  | error e => exact .inl ⟨e, rfl⟩
  | ok p =>
      refine .inr ?_
      cases hc : p.confirm with
      | none => exact ⟨s.accept m react p, _, by simp only [hc], rfl⟩
      | some due =>
          obtain ⟨es, hes, -⟩ :=
            adds_of_publishes ((due.1.react due.2).play_publishes (s.accept m react p))
          exact ⟨(due.1.react due.2).play (s.accept m react p), _, by simp only [hc],
            hes.book.trans (List.append_assoc _ _ _)⟩

/-- Only the move that sets the mode changes it, so every publish within a move is confirmed as the
mode says that the move starts with. -/
theorem step_mode (s : Publishing) (move : PublishMove) :
    ((s.step move).broker.confirmMode =
        match move with
        | .setConfirmMode mode => mode
        | _ => s.broker.confirmMode) ∧
      ∃ events, (s.step move).book = s.book ++ events ∧
        ∀ callback m mode, .accepted callback m mode ∈ events → mode = s.broker.confirmMode := by
  cases move with
  | publish m callback =>
      obtain ⟨events, hadds, -⟩ := adds_of_publishes (publish_publishes s m callback)
      exact ⟨hadds.mode, events, hadds.book, hadds.modes⟩
  | setConfirmMode mode | setAvailable available =>
      exact ⟨rfl, [], (List.append_nil _).symm, fun _ _ _ h => absurd h List.not_mem_nil⟩
  | settleConfirms ack =>
      obtain ⟨events, hadds, -⟩ := settleConfirms_adds s ack
      exact ⟨hadds.mode, events, hadds.book, hadds.modes⟩
  | loseConfirms => exact ⟨rfl, _, rfl, fun _ _ _ h => by simp at h⟩

end Publishing

end DurableMessaging
