import Mathlib.Data.List.Nodup
import DurableMessaging.Proofs.Broker.Publishing

/-!
# What becomes of a callback

An accepted publish has its callback fired once or held or lost, and never two of these; a refused
one has none of them. While held confirms are given out, those whose turn has not come are still
owed, though the broker holds them no more.
-/

namespace DurableMessaging

open Relation (ReflTransGen)

namespace Publishing

/-- The numbers of the publishes that were answered, in order. -/
def answered (s : Publishing) : List Nat := s.book.filterMap (·.answered?)

def accepted (s : Publishing) : List Nat := s.book.filterMap (·.accepted?)

def fired (s : Publishing) : List Nat := s.book.filterMap (·.fired?)

def lost (s : Publishing) : List Nat := s.book.filterMap (·.lost?)

def waiting (s : Publishing) : List Nat := s.broker.held.map (·.callback.number)

/-- Every callback of an accepted publish has been fired or lost or is owed a confirm, and only one
of these and once. -/
structure Accounted (s : Publishing) (owed : List (HeldConfirm Callback)) : Prop where
  answered : s.answered = List.range s.publishes
  count (n : Nat) :
    s.fired.count n + (owed.map (·.callback.number)).count n + s.lost.count n = s.accepted.count n
  ordered : (owed.map (·.callback.number)).Pairwise (· < ·)
  waits : ∀ x ∈ owed, ∃ m, .accepted x.callback m .hold ∈ s.book ∧ x.correlation = m.correlation
  fits : ∀ callback c settling, .fired callback c settling ∈ s.book →
    ∃ m mode, .accepted callback m mode ∈ s.book ∧ mode.confirm? m settling = some c

/-- The accounts are about the book, whatever the broker is like. -/
theorem Accounted.congr {s t : Publishing} {owed : List (HeldConfirm Callback)}
    (h : Accounted s owed) (hbook : t.book = s.book) (hn : t.publishes = s.publishes) :
    Accounted t owed := by
  obtain ⟨_, _, _⟩ := t
  cases hbook
  cases hn
  exact ⟨h.answered, h.count, h.ordered, h.waits, h.fits⟩

theorem Accounted.number_lt {s : Publishing} {owed : List (HeldConfirm Callback)}
    (h : Accounted s owed) {x : HeldConfirm Callback} (hx : x ∈ owed) :
    x.callback.number < s.publishes := by
  obtain ⟨m, hm, -⟩ := h.waits x hx
  have hmem : x.callback.number ∈ s.answered := List.mem_filterMap.mpr ⟨_, hm, rfl⟩
  rwa [h.answered, List.mem_range] at hmem

/-- What has to be shown of the events that come to the book. -/
theorem Accounted.append {s t : Publishing} {owed owed' : List (HeldConfirm Callback)}
    {events : List PublishEvent} (h : Accounted s owed) (hbook : t.book = s.book ++ events)
    (hanswered : List.range s.publishes ++ events.filterMap (·.answered?) = List.range t.publishes)
    (hcount : ∀ n,
      (events.filterMap (·.fired?)).count n + (owed'.map (·.callback.number)).count n +
          (events.filterMap (·.lost?)).count n =
        (owed.map (·.callback.number)).count n + (events.filterMap (·.accepted?)).count n)
    (hordered : (owed'.map (·.callback.number)).Pairwise (· < ·))
    (hwaits : ∀ x ∈ owed', x ∈ owed ∨
      ∃ m, .accepted x.callback m .hold ∈ events ∧ x.correlation = m.correlation)
    (hfits : ∀ callback c settling, .fired callback c settling ∈ events →
      ∃ m mode, .accepted callback m mode ∈ s.book ++ events ∧
        mode.confirm? m settling = some c) :
    Accounted t owed' where
  answered := by
    rw [Publishing.answered, hbook, List.filterMap_append, ← hanswered, ← h.answered]
    rfl
  count n := by
    have h := h.count n
    have hcount := hcount n
    simp only [fired, lost, accepted] at h ⊢
    simp only [hbook, List.filterMap_append, List.count_append]
    omega
  ordered := hordered
  waits x hx := by
    rw [hbook]
    obtain hx | ⟨m, hm, hc⟩ := hwaits x hx
    · obtain ⟨m, hm, hc⟩ := h.waits x hx
      exact ⟨m, List.mem_append_left _ hm, hc⟩
    · exact ⟨m, List.mem_append_right _ hm, hc⟩
  fits callback c settling hc := by
    rw [hbook] at hc ⊢
    obtain hc | hc := List.mem_append.mp hc
    · obtain ⟨m, mode, hm, hfit⟩ := h.fits callback c settling hc
      exact ⟨m, mode, List.mem_append_left _ hm, hfit⟩
    · exact hfits callback c settling hc

theorem Publishes.accounted {s t : Publishing} {due : List (HeldConfirm Callback)}
    (h : Publishes s t) (hs : Accounted s (due ++ s.broker.held)) :
    Accounted t (due ++ t.broker.held) := by
  obtain ⟨hn, react, events, hentry, hadds⟩ := h
  rw [hadds.held, ← List.append_assoc]
  apply hs.append hadds.book
  case hanswered => rw [hentry.answered, hn, List.range_succ]
  case hcount =>
    intro n
    have hentry := hentry.count n
    rw [List.map_append, List.count_append]
    omega
  case hordered =>
    obtain hnone | ⟨m, -, hone⟩ := hentry.held_cases
    · rw [hnone, List.append_nil]
      exact hs.ordered
    · rw [hone, List.map_append, List.pairwise_append]
      refine ⟨hs.ordered, List.pairwise_singleton _ _, fun n hn' k hk => ?_⟩
      obtain ⟨x, hx, rfl⟩ := List.mem_map.mp hn'
      obtain rfl := List.mem_singleton.mp hk
      exact hs.number_lt hx
  case hwaits =>
    intro x hx
    obtain hx | hx := List.mem_append.mp hx
    · exact .inl hx
    · obtain hnone | ⟨m, hm, hone⟩ := hentry.held_cases
      · rw [hnone] at hx
        cases hx
      · rw [hone] at hx
        obtain rfl := List.mem_singleton.mp hx
        exact .inr ⟨m, hm, rfl⟩
  case hfits =>
    intro callback c settling hc
    obtain ⟨m, mode, hm, hfit⟩ := hentry.fits hc
    exact ⟨m, mode, List.mem_append_right _ hm, hfit⟩

theorem accounted_of_publishes {s t : Publishing} {due : List (HeldConfirm Callback)}
    (h : ReflTransGen Publishes s t) (hs : Accounted s (due ++ s.broker.held)) :
    Accounted t (due ++ t.broker.held) := by
  induction h with
  | refl => exact hs
  | tail _ h ih => exact h.accounted ih

theorem Accounted.give {s : Publishing} {x : HeldConfirm Callback}
    {owed : List (HeldConfirm Callback)} (h : Accounted s (x :: owed)) (ack : Bool) :
    Accounted
      { s with book := s.book ++ [.fired x.callback (.ofAck x.correlation ack) (some ack)] }
      owed := by
  apply h.append rfl
  case hanswered => exact List.append_nil _
  case hcount =>
    intro n
    show List.count n [x.callback.number] + _ + 0 = List.count n ([x.callback.number] ++ _) + 0
    rw [List.count_append]
  case hordered => exact (List.pairwise_cons.mp h.ordered).2
  case hwaits => exact fun y hy => .inl (List.mem_cons_of_mem _ hy)
  case hfits =>
    intro callback c settling hc
    obtain ⟨rfl, rfl, rfl⟩ : callback = x.callback ∧ c = .ofAck x.correlation ack ∧
        settling = some ack := by simpa using hc
    obtain ⟨m, hm, hcorr⟩ := h.waits x (.head _)
    exact ⟨m, .hold, List.mem_append_left _ hm, by rw [hcorr]; rfl⟩

/-- The confirms that are given out are owed until their turn comes. -/
theorem Accounted.foldl_fire {s : Publishing} {due : List (HeldConfirm Callback)} {ack : Bool}
    (h : Accounted s (due ++ s.broker.held)) :
    let t := (due.map fun x => (x.callback, .ofAck x.correlation ack)).foldl (fire ack) s
    Accounted t t.broker.held := by
  induction due generalizing s with
  | nil => exact h
  | cons x due ih => exact ih (accounted_of_publishes (Reaction.play_publishes _ _) (h.give ack))

theorem Accounted.settle {s : Publishing} (h : Accounted s s.broker.held) (ack : Bool) :
    Accounted (s.settleConfirms ack).2 (s.settleConfirms ack).2.broker.held := by
  have hreleased : Accounted { s with broker := s.broker.loseConfirms } (s.broker.held ++ []) := by
    rw [List.append_nil]
    exact h.congr rfl rfl
  rw [settleConfirms_eq]
  exact hreleased.foldl_fire

theorem filterMap_lost {α : Type} {f : PublishEvent → Option α}
    (hf : ∀ callback, f (.lost callback) = none) (held : List (HeldConfirm Callback)) :
    (held.map fun x => PublishEvent.lost x.callback).filterMap f = [] := by
  rw [List.filterMap_map, List.filterMap_eq_nil_iff]
  exact fun x _ => hf x.callback

theorem Accounted.lose {s : Publishing} (h : Accounted s s.broker.held) :
    Accounted s.loseConfirms.2 [] := by
  have hlost : (s.broker.held.map fun x => PublishEvent.lost x.callback).filterMap (·.lost?) =
      s.broker.held.map (·.callback.number) := by
    rw [List.filterMap_map, ← List.filterMap_eq_map]
    rfl
  apply h.append rfl
  case hanswered =>
    rw [filterMap_lost fun _ => rfl, List.append_nil]
    rfl
  case hcount =>
    intro n
    rw [filterMap_lost fun _ => rfl, hlost, filterMap_lost fun _ => rfl]
    simp
  case hordered => exact .nil
  case hwaits => exact fun x hx => absurd hx List.not_mem_nil
  case hfits =>
    intro callback c settling hc
    simp at hc

theorem accounted_start (b : Broker Callback) : Accounted (start b) (start b).broker.held where
  answered := rfl
  count _ := rfl
  ordered := .nil
  waits _ hx := absurd hx List.not_mem_nil
  fits _ _ _ hc := absurd hc List.not_mem_nil

theorem Accounted.step {s : Publishing} (h : Accounted s s.broker.held) (move : PublishMove) :
    Accounted (s.step move) (s.step move).broker.held := by
  cases move with
  | publish m callback =>
      have h : Accounted s ([] ++ s.broker.held) := h
      exact accounted_of_publishes (publish_publishes s m callback) h
  | setConfirmMode mode | setAvailable available => exact h.congr rfl rfl
  | settleConfirms ack => exact h.settle ack
  | loseConfirms => exact h.lose

theorem Accounted.run {s : Publishing} (h : Accounted s s.broker.held) (moves : List PublishMove) :
    Accounted (s.run moves) (s.run moves).broker.held := by
  induction moves generalizing s with
  | nil => exact h
  | cons move moves ih => exact ih (h.step move)

theorem mem_answered_of_mem_accepted {n : Nat} {book : List PublishEvent}
    (h : n ∈ book.filterMap (·.accepted?)) : n ∈ book.filterMap (·.answered?) := by
  obtain ⟨e, he, hn⟩ := List.mem_filterMap.mp h
  refine List.mem_filterMap.mpr ⟨e, he, ?_⟩
  cases e with
  | accepted callback m mode => exact hn
  | refused callback m e => cases hn
  | fired callback c settling => cases hn
  | lost callback => cases hn

/-- As each publish is answered once, its answer tells how often it is accepted. -/
theorem Accounted.count_accepted {s : Publishing} {owed : List (HeldConfirm Callback)}
    (h : Accounted s owed) {e : PublishEvent} (he : e ∈ s.book) {n : Nat}
    (hn : e.answered? = some n) : s.accepted.count n = e.accepted?.toList.count n := by
  obtain ⟨before, after, hbook⟩ := List.append_of_mem he
  have hnodup : s.answered.Nodup := h.answered ▸ List.nodup_range
  rw [Publishing.answered, hbook, List.filterMap_append, List.filterMap_cons_some hn,
    List.nodup_middle, List.nodup_cons, List.mem_append, not_or] at hnodup
  have hbefore := List.count_eq_zero_of_not_mem fun h =>
    hnodup.1.1 (mem_answered_of_mem_accepted h)
  have hafter := List.count_eq_zero_of_not_mem fun h =>
    hnodup.1.2 (mem_answered_of_mem_accepted h)
  rw [Publishing.accepted, hbook, List.filterMap_append, List.filterMap_cons, List.count_append,
    hbefore]
  cases e.accepted? with
  | none => simpa using hafter
  | some k => simp [List.count_cons, hafter]

/-- Over any run each publish is answered once. The callback of one that is accepted has been fired
or waits or is lost, once in all; that of one that is refused has none of these. What is fired and
what waits belongs to an accepted publish and has its correlation, and the confirm is what the mode
at the publish says or, after a hold, what the call that settles it says. What waits is in the order
of the publishes. A refused publish changes nothing at the broker. Settling fires what is held when
it starts, in order, and tells how much that is; what is held meanwhile stays held. -/
theorem accounts_for_confirms :
    (∀ (b : Broker Callback) (moves : List PublishMove),
      let s := (start b).run moves
      s.answered = List.range s.publishes ∧
        (∀ callback m mode, .accepted callback m mode ∈ s.book →
          s.fired.count callback.number + s.waiting.count callback.number +
            s.lost.count callback.number = 1) ∧
        (∀ callback m e, .refused callback m e ∈ s.book →
          callback.number ∉ s.fired ∧ callback.number ∉ s.waiting ∧
            callback.number ∉ s.lost) ∧
        (∀ callback c settling, .fired callback c settling ∈ s.book →
          ∃ m mode, .accepted callback m mode ∈ s.book ∧ mode.confirm? m settling = some c) ∧
        (∀ x ∈ s.broker.held,
          ∃ m, .accepted x.callback m .hold ∈ s.book ∧ x.correlation = m.correlation) ∧
        s.waiting.Pairwise (· < ·)) ∧
      (∀ (s : Publishing) (move : PublishMove),
        ((s.step move).broker.confirmMode =
          match move with
          | .setConfirmMode mode => mode
          | _ => s.broker.confirmMode) ∧
          ∃ events, (s.step move).book = s.book ++ events ∧
            ∀ callback m mode, .accepted callback m mode ∈ events →
              mode = s.broker.confirmMode) ∧
      (∀ (s : Publishing) (m : OutboundMessage) (react : Confirm → Reaction),
        match s.publish m react with
        | (.error e, t) =>
          t.broker = s.broker ∧ t.book = s.book ++ [.refused ⟨s.publishes, react⟩ m e]
        | (.ok (), t) =>
          ∃ events,
            t.book = s.book ++ .accepted ⟨s.publishes, react⟩ m s.broker.confirmMode :: events) ∧
      ∀ (s : Publishing) (ack : Bool),
        (s.settleConfirms ack).1 = s.broker.held.length ∧
          ∃ events, (s.settleConfirms ack).2.book = s.book ++ events ∧
            events.filterMap (·.settled?) =
              s.broker.held.map (fun x => (x.callback, .ofAck x.correlation ack, ack)) ∧
            (s.settleConfirms ack).2.broker.held = events.filterMap (·.held?) := by
  refine ⟨fun b moves => ?_, step_mode, fun s m react => ?_, fun s ack => ?_⟩
  · intro s
    have h : Accounted s s.broker.held := (accounted_start b).run moves
    refine ⟨h.answered, fun callback m mode hm => ?_, fun callback m e he => ?_, h.fits, h.waits,
      h.ordered⟩
    · exact ((h.count _).trans (h.count_accepted hm rfl)).trans List.count_singleton_self
    · have hnone : s.fired.count callback.number + s.waiting.count callback.number +
          s.lost.count callback.number = 0 := (h.count _).trans (h.count_accepted he rfl)
      exact ⟨List.count_eq_zero.mp (by omega), List.count_eq_zero.mp (by omega),
        List.count_eq_zero.mp (by omega)⟩
  · obtain ⟨e, h⟩ | ⟨t, events, h, ht⟩ := publish_cases s m react
    · rw [h]
      exact ⟨rfl, rfl⟩
    · rw [h]
      exact ⟨events, ht⟩
  · obtain ⟨events, hadds, hsettled⟩ := settleConfirms_adds s ack
    exact ⟨by rw [settleConfirms_eq], events, hadds.book, hsettled, hadds.held⟩

end Publishing

end DurableMessaging
