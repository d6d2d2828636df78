import DurableMessaging.Proofs.Broker.Change

/-!
# Where each copy on a queue is

Two copies of a message may be equal as data, so a ledger numbers the copies of a queue in the order
in which they came and moves the numbered copies as the queue moves its own.
-/

namespace DurableMessaging

/-- Two copies are of one message, though one may be marked and the other not. -/
def Copy.SameMessage (c d : Copy) : Prop :=
  c.exchange = d.exchange ∧ c.routingKey = d.routingKey ∧ c.messageId = d.messageId ∧
    c.payload = d.payload

/-- A copy with the number of copies that came before it. -/
structure Numbered where
  number : Nat
  copy : Copy

/-- A numbered copy handed to a worker. -/
structure Ticket where
  tag : DeliveryTag
  worker : WorkerId
  held : Numbered

structure Ledger where
  /-- Every copy ever put on the queue, as it was then. -/
  arrivals : List Copy
  ready : List Numbered
  unacked : List Ticket
  deadLetters : List Numbered
  acked : List Numbered
  /-- What was still unsettled when its tag was given to another delivery. -/
  displaced : List Numbered
  /-- Every delivery, the oldest first. -/
  handedOut : List Ticket

def Numbered.again (x : Numbered) : Numbered := ⟨x.number, x.copy.asRedelivered⟩

def Ticket.outstanding (t : Ticket) : Outstanding := ⟨t.tag, t.worker, t.held.copy⟩

/-- What a worker of a queue sees of a ticket. -/
def Ticket.delivery (t : Ticket) (queue : String) : Delivery :=
  ⟨t.tag, queue, t.held.copy.exchange, t.held.copy.routingKey, t.held.copy.messageId,
    t.held.copy.payload, t.held.copy.redelivered⟩

namespace Ledger

def empty : Ledger := ⟨[], [], [], [], [], [], []⟩

/-- The queue of a ledger, without the numbers. -/
def queue (l : Ledger) : Queue :=
  ⟨l.ready.map (·.copy), l.unacked.map (·.outstanding), l.deadLetters.map (·.copy)⟩

def everywhere (l : Ledger) : List Numbered :=
  l.ready ++ l.unacked.map (·.held) ++ l.deadLetters ++ l.acked ++ l.displaced

/-- The delivery that a change makes. -/
def ticket? (l : Ledger) : QueueChange → Option Ticket
  | .take worker tag => l.ready.head?.map (⟨tag, worker, ·⟩)
  | _ => none

def apply (l : Ledger) : QueueChange → Ledger
  | .none => l
  | .push c =>
    { l with arrivals := l.arrivals ++ [c], ready := l.ready ++ [⟨l.arrivals.length, c⟩] }
  | .take worker tag =>
    match l.ready with
    | [] => l
    | x :: ready =>
      { l with
        ready
        unacked := l.unacked.filter (·.tag != tag) ++ [⟨tag, worker, x⟩]
        displaced := l.displaced ++ (l.unacked.filter (·.tag == tag)).map (·.held)
        handedOut := l.handedOut ++ [⟨tag, worker, x⟩] }
  | .settle tag s =>
    match l.unacked.find? (·.tag == tag) with
    | none => l
    | some t =>
      let l := { l with unacked := l.unacked.filter (·.tag != tag) }
      match s with
      | .ack => { l with acked := l.acked ++ [t.held] }
      | .requeue => { l with ready := t.held.again :: l.ready }
      | .reject => { l with deadLetters := l.deadLetters ++ [t.held] }
  | .recover worker =>
    { l with
      ready := (l.unacked.filter (·.worker == worker)).map (·.held.again) ++ l.ready
      unacked := l.unacked.filter (·.worker != worker) }

/-! ## A ledger moves as its queue -/

theorem map_outstanding_filter (p : Outstanding → Bool) (ts : List Ticket) :
    (ts.map (·.outstanding)).filter p = (ts.filter fun t => p t.outstanding).map (·.outstanding) :=
  List.filter_map

theorem queue_apply (l : Ledger) (change : QueueChange) :
    (l.apply change).queue = l.queue.apply change := by
  cases change with
  | none => rfl
  | push c => simp [apply, queue, Queue.apply, Queue.push]
  | take worker tag =>
      cases hr : l.ready with
      | nil => simp [apply, queue, Queue.apply, Queue.take?, hr]
      | cons x ready =>
          simp only [apply, queue, Queue.apply, Queue.take?, hr, map_outstanding_filter,
            List.map_append, List.map_cons, List.map_nil, Option.map_some, Option.getD_some]
          rfl
  | settle tag s =>
      have hf : l.queue.unacked.find? (·.tag == tag) =
          (l.unacked.find? (·.tag == tag)).map (·.outstanding) := List.find?_map
      simp only [apply, Queue.apply, Queue.settle?, hf]
      cases l.unacked.find? (·.tag == tag) with
      | none => rfl
      | some t =>
          cases s <;> simp only [queue, Option.map_some, Option.getD_some, map_outstanding_filter,
            List.map_append, List.map_cons, List.map_nil] <;> rfl
  | recover worker =>
      simp only [apply, queue, Queue.apply, Queue.recover, map_outstanding_filter,
        List.map_append, List.map_map]
      rfl

/-! ## Every number is in one place -/

/-- What holds of the ledger of a queue at all times. -/
structure Sound (l : Ledger) : Prop where
  /-- Every copy that came is in one place. -/
  places : (l.everywhere.map (·.number)).Perm (List.range l.arrivals.length)
  /-- It is still what it was, but for its mark. -/
  unchanged : ∀ x ∈ l.everywhere, ∃ c, l.arrivals[x.number]? = some c ∧ c.SameMessage x.copy
  /-- What is ready is marked just if it was handed out before. -/
  marked : ∀ x ∈ l.ready, x.copy.redelivered = true ↔ x.number ∈ l.handedOut.map (·.held.number)
  tags : (l.unacked.map (·.tag)).Nodup
  handed : ∀ t ∈ l.unacked, t.held.number ∈ l.handedOut.map (·.held.number)
  handedOut : ∀ t ∈ l.handedOut, ∃ c, l.arrivals[t.held.number]? = some c ∧
    c.SameMessage t.held.copy
  /-- Every delivery was marked just if its copy was handed out before. -/
  history : ∀ earlier t later, l.handedOut = earlier ++ t :: later →
    (t.held.copy.redelivered = true ↔ t.held.number ∈ earlier.map (·.held.number))

theorem sound_empty : empty.Sound where
  places := .nil
  unchanged := nofun
  marked := nofun
  tags := .nil
  handed := nofun
  handedOut := nofun
  history := by
    intro earlier t later h
    exact absurd h.symm (List.append_ne_nil_of_right_ne_nil _ (List.cons_ne_nil _ _))

theorem held_filter_perm (p : Ticket → Bool) (ts : List Ticket) :
    ((ts.filter p).map (·.held.number) ++ (ts.filter fun t => !p t).map (·.held.number)).Perm
      (ts.map (·.held.number)) := by
  rw [← List.map_append]
  exact (List.filter_append_perm p ts).map _

theorem mem_everywhere {l : Ledger} {x : Numbered} :
    x ∈ l.everywhere ↔ x ∈ l.ready ∨ (∃ t ∈ l.unacked, t.held = x) ∨ x ∈ l.deadLetters ∨
      x ∈ l.acked ∨ x ∈ l.displaced := by
  simp only [everywhere, List.mem_append, List.mem_map, or_assoc]

namespace Sound

variable {l : Ledger}

theorem number_lt (h : l.Sound) {x : Numbered} (hx : x ∈ l.everywhere) :
    x.number < l.arrivals.length :=
  List.mem_range.mp (h.places.mem_iff.mp (List.mem_map_of_mem hx))

theorem push (h : l.Sound) {c : Copy} (hc : c.redelivered = false) :
    (l.apply (.push c)).Sound where
  places := by
    have hp := h.places
    simp only [apply, everywhere, List.map_append, List.perm_iff_count, List.count_append,
      List.length_append, List.length_singleton, List.range_succ] at hp ⊢
    intro n
    have := hp n
    simp only [List.map_cons, List.map_nil]
    omega
  unchanged := by
    intro x hx
    simp only [apply, mem_everywhere, List.mem_append, List.mem_singleton] at hx
    rcases hx with (hx | rfl) | hx
    · obtain ⟨c', hc', he⟩ := h.unchanged x (mem_everywhere.mpr (.inl hx))
      exact ⟨c', (List.getElem?_append_left (h.number_lt (mem_everywhere.mpr (.inl hx)))).trans hc',
        he⟩
    · exact ⟨c, List.getElem?_concat_length, rfl, rfl, rfl, rfl⟩
    · obtain ⟨c', hc', he⟩ := h.unchanged x (mem_everywhere.mpr (.inr hx))
      exact ⟨c', (List.getElem?_append_left (h.number_lt (mem_everywhere.mpr (.inr hx)))).trans hc',
        he⟩
  marked := by
    intro x hx
    rcases List.mem_append.mp hx with hx | hx
    · exact h.marked x hx
    · rw [List.mem_singleton.mp hx]
      refine ⟨fun hr => absurd hr (by simp [hc]), fun hm => ?_⟩
      -- The number is new.
      obtain ⟨t, ht, hn⟩ := List.mem_map.mp hm
      obtain ⟨c', hc', -⟩ := h.handedOut t ht
      obtain ⟨hlt, -⟩ := List.getElem?_eq_some_iff.mp hc'
      exact absurd hn (Nat.ne_of_lt hlt)
  tags := h.tags
  handed := h.handed
  handedOut := by
    intro t ht
    obtain ⟨c', hc', he⟩ := h.handedOut t ht
    obtain ⟨hlt, -⟩ := List.getElem?_eq_some_iff.mp hc'
    exact ⟨c', (List.getElem?_append_left hlt).trans hc', he⟩
  history := h.history

theorem nodup_numbers (h : l.Sound) : (l.everywhere.map (·.number)).Nodup :=
  h.places.nodup_iff.mpr List.nodup_range

theorem take (h : l.Sound) (worker : WorkerId) (tag : DeliveryTag) :
    (l.apply (.take worker tag)).Sound := by
  cases hr : l.ready with
  | nil =>
      have same : l.apply (.take worker tag) = l := by simp only [apply, hr]
      rw [same]
      exact h
  | cons x ready =>
      have hx : x ∈ l.everywhere := mem_everywhere.mpr (.inl (hr ▸ List.mem_cons_self))
      have hmark := h.marked x (hr ▸ List.mem_cons_self)
      simp only [apply, hr]
      refine ⟨?_, ?_, ?_, ?_, ?_, ?_, ?_⟩
      · have hp := h.places
        have hf := held_filter_perm (·.tag == tag) l.unacked
        simp only [everywhere, hr, List.map_append, List.map_cons, List.map_map,
          List.perm_iff_count, List.count_append, List.count_cons, Function.comp_def] at hp hf ⊢
        intro n
        have := hp n
        have := hf n
        simp only [List.map_nil, List.count_nil, bne] at *
        omega
      · intro y hy
        refine h.unchanged y ?_
        simp only [mem_everywhere, hr, List.mem_append, List.mem_filter, List.mem_map,
          List.mem_cons, List.not_mem_nil, or_false] at hy ⊢
        rcases hy with hy | ⟨t, ⟨ht, -⟩ | rfl, rfl⟩ | hy | hy | hy | ⟨t, ⟨ht, -⟩, rfl⟩
        · exact .inl (.inr hy)
        · exact .inr (.inl ⟨t, ht, rfl⟩)
        · exact .inl (.inl rfl)
        · exact .inr (.inr (.inl hy))
        · exact .inr (.inr (.inr (.inl hy)))
        · exact .inr (.inr (.inr (.inr hy)))
        · exact .inr (.inl ⟨t, ht, rfl⟩)
      · intro y hy
        rw [h.marked y (hr ▸ List.mem_cons_of_mem x hy), List.map_append, List.mem_append]
        refine ⟨.inl, fun hm => hm.resolve_right fun hn => ?_⟩
        -- No other copy has the number of the front.
        have hnodup := h.nodup_numbers
        simp only [everywhere, hr, List.map_append, List.map_cons, List.cons_append,
          List.nodup_cons] at hnodup
        have hyx : y.number = x.number := List.mem_singleton.mp hn
        exact hnodup.1 (by simp [← hyx, List.mem_map_of_mem hy])
      · rw [List.map_append, List.nodup_append]
        refine ⟨h.tags.sublist (List.filter_sublist.map _), List.pairwise_singleton _ _, ?_⟩
        intro a ha b hb
        obtain ⟨t, ht, rfl⟩ := List.mem_map.mp ha
        rw [List.mem_singleton.mp hb]
        simpa using (List.mem_filter.mp ht).2
      · intro t ht
        rw [List.map_append, List.mem_append]
        rcases List.mem_append.mp ht with ht | ht
        · exact .inl (h.handed t (List.mem_filter.mp ht).1)
        · exact .inr (List.mem_map_of_mem ht)
      · intro t ht
        rcases List.mem_append.mp ht with ht | ht
        · exact h.handedOut t ht
        · rw [List.mem_singleton.mp ht]
          exact h.unchanged x hx
      · intro earlier t later he
        rcases List.eq_nil_or_concat later with rfl | ⟨later, u, rfl⟩
        · obtain ⟨rfl, ht⟩ := List.append_inj' he rfl
          cases ht
          exact hmark
        · rw [List.concat_eq_append, ← List.cons_append, ← List.append_assoc] at he
          exact h.history earlier t later (List.append_inj' he rfl).1

theorem settle (h : l.Sound) (tag : DeliveryTag) (s : Settlement) :
    (l.apply (.settle tag s)).Sound := by
  cases hf : l.unacked.find? (·.tag == tag) with
  | none =>
      have same : l.apply (.settle tag s) = l := by simp only [apply, hf]
      rw [same]
      exact h
  | some t =>
      have ht : t ∈ l.unacked := List.mem_of_find?_eq_some hf
      have hx : t.held ∈ l.everywhere := mem_everywhere.mpr (.inr (.inl ⟨t, ht, rfl⟩))
      have left : ∀ {u}, u ∈ l.unacked.filter (·.tag != tag) → u ∈ l.unacked :=
        fun hu => (List.mem_filter.mp hu).1
      have tags : ((l.unacked.filter (·.tag != tag)).map (·.tag)).Nodup :=
        h.tags.sublist (List.filter_sublist.map _)
      have places : ∀ n, (l.unacked.map (·.held.number)).count n =
          ((l.unacked.filter (·.tag != tag)).map (·.held.number)).count n +
            [t.held.number].count n := by
        intro n
        have := (held_filter_perm (·.tag == tag) l.unacked).count_eq n
        rw [filter_tag_of_find? h.tags hf, List.count_append] at this
        exact (this.symm.trans (Nat.add_comm _ _))
      have hp := h.places
      simp only [everywhere, List.map_append, List.map_map, List.perm_iff_count,
        List.count_append, Function.comp_def, places] at hp
      simp only [apply, hf]
      cases s with
      | ack =>
          refine ⟨?_, ?_, h.marked, tags, fun u hu => h.handed u (left hu), h.handedOut, h.history⟩
          · simp only [everywhere, List.map_append, List.map_map, List.perm_iff_count,
              List.count_append, Function.comp_def, List.map_cons, List.map_nil]
            intro n
            have := hp n
            omega
          · intro y hy
            simp only [mem_everywhere, List.mem_append, List.mem_singleton] at hy
            rcases hy with hy | ⟨u, hu, rfl⟩ | hy | (hy | rfl) | hy
            · exact h.unchanged y (mem_everywhere.mpr (.inl hy))
            · exact h.unchanged _ (mem_everywhere.mpr (.inr (.inl ⟨u, left hu, rfl⟩)))
            · exact h.unchanged y (mem_everywhere.mpr (.inr (.inr (.inl hy))))
            · exact h.unchanged y (mem_everywhere.mpr (.inr (.inr (.inr (.inl hy)))))
            · exact h.unchanged _ hx
            · exact h.unchanged y (mem_everywhere.mpr (.inr (.inr (.inr (.inr hy)))))
      | requeue =>
          refine ⟨?_, ?_, ?_, tags, fun u hu => h.handed u (left hu), h.handedOut, h.history⟩
          · simp only [everywhere, Numbered.again, List.map_append, List.map_map,
              List.perm_iff_count, List.count_append, Function.comp_def, List.map_cons,
              List.count_cons]
            intro n
            have := hp n
            simp only [List.count_singleton] at this
            omega
          · intro y hy
            simp only [mem_everywhere, List.mem_cons] at hy
            rcases hy with (rfl | hy) | ⟨u, hu, rfl⟩ | hy
            · exact h.unchanged t.held hx
            · exact h.unchanged y (mem_everywhere.mpr (.inl hy))
            · exact h.unchanged _ (mem_everywhere.mpr (.inr (.inl ⟨u, left hu, rfl⟩)))
            · exact h.unchanged y (mem_everywhere.mpr (.inr (.inr hy)))
          · intro y hy
            rcases List.mem_cons.mp hy with rfl | hy
            · exact ⟨fun _ => h.handed t ht, fun _ => rfl⟩
            · exact h.marked y hy
      | reject =>
          refine ⟨?_, ?_, h.marked, tags, fun u hu => h.handed u (left hu), h.handedOut, h.history⟩
          · simp only [everywhere, List.map_append, List.map_map, List.perm_iff_count,
              List.count_append, Function.comp_def, List.map_cons, List.map_nil]
            intro n
            have := hp n
            omega
          · intro y hy
            simp only [mem_everywhere, List.mem_append, List.mem_singleton] at hy
            rcases hy with hy | ⟨u, hu, rfl⟩ | (hy | rfl) | hy
            · exact h.unchanged y (mem_everywhere.mpr (.inl hy))
            · exact h.unchanged _ (mem_everywhere.mpr (.inr (.inl ⟨u, left hu, rfl⟩)))
            · exact h.unchanged y (mem_everywhere.mpr (.inr (.inr (.inl hy))))
            · exact h.unchanged _ hx
            · exact h.unchanged y (mem_everywhere.mpr (.inr (.inr (.inr hy))))

theorem recover (h : l.Sound) (worker : WorkerId) : (l.apply (.recover worker)).Sound := by
  have left : ∀ {u}, u ∈ l.unacked.filter (·.worker != worker) → u ∈ l.unacked :=
    fun hu => (List.mem_filter.mp hu).1
  refine ⟨?_, ?_, ?_, h.tags.sublist (List.filter_sublist.map _), fun u hu => h.handed u (left hu),
    h.handedOut, h.history⟩
  · have hp := h.places
    have hf := held_filter_perm (·.worker == worker) l.unacked
    simp only [apply, everywhere, Numbered.again, List.map_append, List.map_map,
      List.perm_iff_count, List.count_append, Function.comp_def] at hp hf ⊢
    intro n
    have := hp n
    have := hf n
    simp only [bne] at *
    omega
  · intro y hy
    simp only [apply, mem_everywhere, List.mem_append, List.mem_map, List.mem_filter] at hy
    rcases hy with (⟨u, ⟨hu, -⟩, rfl⟩ | hy) | ⟨u, ⟨hu, -⟩, rfl⟩ | hy
    · exact h.unchanged u.held (mem_everywhere.mpr (.inr (.inl ⟨u, hu, rfl⟩)))
    · exact h.unchanged y (mem_everywhere.mpr (.inl hy))
    · exact h.unchanged _ (mem_everywhere.mpr (.inr (.inl ⟨u, hu, rfl⟩)))
    · exact h.unchanged y (mem_everywhere.mpr (.inr (.inr hy)))
  · intro y hy
    rcases List.mem_append.mp hy with hy | hy
    · obtain ⟨u, hu, rfl⟩ := List.mem_map.mp hy
      exact ⟨fun _ => h.handed u (List.mem_filter.mp hu).1, fun _ => rfl⟩
    · exact h.marked y hy

theorem apply (h : l.Sound) {change : QueueChange}
    (fresh : ∀ c, change = .push c → c.redelivered = false) : (l.apply change).Sound := by
  cases change with
  | none => exact h
  | push c => exact h.push (fresh c rfl)
  | take worker tag => exact h.take worker tag
  | settle tag s => exact h.settle tag s
  | recover worker => exact h.recover worker

end Sound

/-! ## What a change adds -/

/-- The copy that a change acknowledges. -/
def acked? (l : Ledger) : QueueChange → Option Numbered
  | .settle tag .ack => (l.unacked.find? (·.tag == tag)).map (·.held)
  | _ => none

theorem handedOut_apply (l : Ledger) (change : QueueChange) :
    (l.apply change).handedOut = l.handedOut ++ (l.ticket? change).toList := by
  cases change with
  | take worker tag =>
      cases hr : l.ready <;> simp [apply, ticket?, hr]
  | settle tag s =>
      cases hf : l.unacked.find? (·.tag == tag) <;> cases s <;> simp [apply, ticket?, hf]
  | _ => simp [apply, ticket?]

theorem acked_apply (l : Ledger) (change : QueueChange) :
    (l.apply change).acked = l.acked ++ (l.acked? change).toList := by
  cases change with
  | take worker tag =>
      cases hr : l.ready <;> simp [apply, acked?, hr]
  | settle tag s =>
      cases hf : l.unacked.find? (·.tag == tag) <;> cases s <;> simp [apply, acked?, hf]
  | _ => simp [apply, acked?]

theorem mem_unacked_apply {l : Ledger} {change : QueueChange} {t : Ticket}
    (h : t ∈ (l.apply change).unacked) : t ∈ l.unacked ∨ l.ticket? change = some t := by
  cases change with
  | none => exact .inl h
  | push c => exact .inl h
  | take worker tag =>
      cases hr : l.ready with
      | nil =>
          simp only [apply, hr] at h
          exact .inl h
      | cons x ready =>
          simp only [apply, hr, List.mem_append, List.mem_filter, List.mem_singleton] at h
          rcases h with ⟨h, -⟩ | rfl
          · exact .inl h
          · simp [ticket?, hr]
  | settle tag s =>
      cases hf : l.unacked.find? (·.tag == tag) with
      | none =>
          simp only [apply, hf] at h
          exact .inl h
      | some u =>
          simp only [apply, hf] at h
          cases s <;> exact .inl (List.mem_filter.mp h).1
  | recover worker => exact .inl (List.mem_filter.mp h).1

/-- Nothing is displaced by a delivery whose tag is not outstanding. -/
theorem displaced_apply {l : Ledger} {change : QueueChange}
    (h : ∀ t, l.ticket? change = some t → ∀ u ∈ l.unacked, u.tag ≠ t.tag) :
    (l.apply change).displaced = l.displaced := by
  cases change with
  | take worker tag =>
      cases hr : l.ready with
      | nil => simp only [apply, hr]
      | cons x ready =>
          have hu := h ⟨tag, worker, x⟩ (by simp [ticket?, hr])
          have none : l.unacked.filter (·.tag == tag) = [] :=
            List.filter_eq_nil_iff.mpr fun u hm he => hu u hm (eq_of_beq he)
          simp only [apply, hr, none, List.map_nil, List.append_nil]
  | settle tag s =>
      cases hf : l.unacked.find? (·.tag == tag) <;> cases s <;> simp only [apply, hf]
  | _ => rfl

end Ledger

end DurableMessaging
