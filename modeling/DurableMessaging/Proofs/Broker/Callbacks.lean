import DurableMessaging.Deployment
import DurableMessaging.Proofs.Broker.Publishing

/-!
# The callbacks of a deployment

What a deployment does with a confirm publishes nothing. So its gateway works as publishers do whose
callbacks are quiet: the broker is theirs, and each confirm that their book has as fired has gone to
what the deployment was told at that publish.
-/

namespace DurableMessaging

variable {ρ : Type}

/-! ## Callbacks that a broker keeps -/

namespace Broker

variable {κ κ' : Type}

/-- The broker with something else in the place of each callback that it keeps. -/
def mapCallback (f : κ → κ') (b : Broker κ) : Broker κ' :=
  { b with held := b.held.map fun x => ⟨x.correlation, f x.callback⟩ }

/-- A broker does not look at the callbacks. -/
theorem publish_mapCallback (f : κ → κ') (b : Broker κ) (m : OutboundMessage) (callback : κ) :
    (b.mapCallback f).publish m (f callback) =
      (b.publish m callback).map fun p =>
        ⟨p.broker.mapCallback f, p.confirm.map fun (callback, c) => (f callback, c)⟩ := by
  obtain ⟨exchanges, _, _, _, _, _, available, mode, held, _, _⟩ := b
  cases available with
  | false => rfl
  | true =>
      cases he : exchanges.get? m.exchange with
      | none =>
          unfold publish mapCallback
          dsimp only
          rw [he]
          rfl
      | some t =>
          rw [publish_of_exchange rfl he, publish_of_exchange rfl he]
          cases mode with
          | ack | nack => rfl
          | hold =>
              unfold taken mapCallback
              dsimp only [Except.map]
              rw [List.map_append]
              rfl

theorem releaseConfirms_mapCallback (f : κ → κ') (b : Broker κ) (ack : Bool) :
    (b.mapCallback f).releaseConfirms ack =
      ((b.releaseConfirms ack).1.map fun (callback, c) => (f callback, c),
        (b.releaseConfirms ack).2.mapCallback f) := by
  unfold releaseConfirms mapCallback
  dsimp only
  rw [List.map_map, List.map_map]
  rfl

end Broker

namespace Deployment

/-- Firing neither sees nor changes the broker. -/
theorem fire_withBroker (d : Deployment ρ) (b : Broker ConfirmCallback) (callback : ConfirmCallback)
    (confirm : Confirm) :
    { d with broker := b }.fire callback confirm =
      { d.fire callback confirm with broker := b } := by
  induction callback generalizing confirm with
  | settle settler row =>
      simp only [fire, settleConfirm]
      cases d.settlers[settler]? <;> rfl
  | ignore => rfl
  | keep => rfl
  | relabel correlation callback ih => exact ih _

/-- Hands out confirms by the numbers of the publishes that they answer. -/
def fireEach (who : Nat → ConfirmCallback) (due : List (Nat × Confirm)) (d : Deployment ρ) :
    Deployment ρ :=
  due.foldl (fun d (number, confirm) => d.fire (who number) confirm) d

theorem fireEach_withBroker (who : Nat → ConfirmCallback) (due : List (Nat × Confirm))
    (b : Broker ConfirmCallback) (d : Deployment ρ) :
    fireEach who due { d with broker := b } = { fireEach who due d with broker := b } := by
  induction due generalizing d with
  | nil => rfl
  | cons x due ih => exact (congrArg (fireEach who due) (d.fire_withBroker b _ _)).trans (ih _)

theorem fireEach_append (who : Nat → ConfirmCallback) (due due' : List (Nat × Confirm))
    (d : Deployment ρ) : d.fireEach who (due ++ due') = (d.fireEach who due).fireEach who due' :=
  List.foldl_append

theorem settleHeld_eq (who : Nat → ConfirmCallback) {b : Broker Callback} {d : Deployment ρ}
    (hb : d.broker = b.mapCallback (who ·.number)) (ack : Bool) :
    d.settleHeld ack =
      (b.held.length,
        { d.fireEach who (b.held.map fun x => (x.callback.number, .ofAck x.correlation ack)) with
          broker := b.loseConfirms.mapCallback (who ·.number) }) := by
  unfold settleHeld
  rw [hb, Broker.releaseConfirms_mapCallback, ← fireEach_withBroker]
  unfold Broker.releaseConfirms fireEach
  dsimp only
  rw [List.length_map, List.length_map, List.foldl_map, List.foldl_map, List.foldl_map]
  rfl

end Deployment

/-! ## Publishers whose callbacks are quiet -/

/-- The publish that a fired confirm answers. -/
def PublishEvent.firing? : PublishEvent → Option (Nat × Confirm)
  | .fired callback c _ => some (callback.number, c)
  | _ => none

def Callback.Quiet (callback : Callback) : Prop := ∀ c, callback.react c = .done

/-- Whether a move hands the broker no callback but a quiet one. -/
def PublishMove.Quiet : PublishMove → Prop
  | .publish _ callback => callback = fun _ => .done
  | _ => True

/-- Has a deployment do what a move asks publishers to do. Publishes are numbered, and `who` is told
for each. -/
def Deployment.serve (who : Nat → ConfirmCallback) :
    Nat × Deployment ρ → PublishMove → Nat × Deployment ρ
  | (n, d), .publish m _ => (n + 1, (Gateway.inMemory.publish m (who n) d).2)
  | (n, d), .setConfirmMode confirmMode => (n, { d with broker := { d.broker with confirmMode } })
  | (n, d), .setAvailable available => (n, { d with broker := { d.broker with available } })
  | (n, d), .settleConfirms ack => (n, (d.settleHeld ack).2)
  | (n, d), .loseConfirms => (n, d.loseHeld.2)

namespace Publishing

def Quiet (s : Publishing) : Prop := ∀ x ∈ s.broker.held, x.callback.Quiet

/-- What a deployment has become if it was told `who` gets the confirm of each publish. -/
def deployed (who : Nat → ConfirmCallback) (d : Deployment ρ) (s : Publishing) : Deployment ρ :=
  { d.fireEach who (s.book.filterMap (·.firing?)) with
    broker := s.broker.mapCallback (who ·.number) }

variable (who : Nat → ConfirmCallback) (d : Deployment ρ) {s t : Publishing}

/-- A deployment goes on with what the book has in addition. -/
theorem deployed_append {due : List (Nat × Confirm)}
    (h : t.book.filterMap (·.firing?) = s.book.filterMap (·.firing?) ++ due) :
    t.deployed who d =
      { (s.deployed who d).fireEach who due with
        broker := t.broker.mapCallback (who ·.number) } := by
  have kept := (d.fireEach who (s.book.filterMap (·.firing?))).fireEach_withBroker who due
    (s.broker.mapCallback (who ·.number))
  unfold deployed
  rw [h, Deployment.fireEach_append, kept]

theorem firing_refuse (s : Publishing) (m : OutboundMessage) (react : Confirm → Reaction)
    (e : BrokerError) :
    (s.refuse m react e).book.filterMap (·.firing?) = s.book.filterMap (·.firing?) ++ [] :=
  List.filterMap_append

theorem firing_accept (s : Publishing) (m : OutboundMessage) (react : Confirm → Reaction)
    (p : Broker.Published Callback) :
    (s.accept m react p).book.filterMap (·.firing?) =
      s.book.filterMap (·.firing?) ++
        p.confirm.toList.map fun (callback, c) => (callback.number, c) := by
  rw [accept, List.filterMap_append]
  cases p.confirm <;> rfl

theorem publish_of_quiet (s : Publishing) (m : OutboundMessage) :
    s.publish m (fun _ => .done) =
      match s.broker.publish m ⟨s.publishes, fun _ => .done⟩ with
      | .error e => (.error e, s.refuse m (fun _ => .done) e)
      | .ok p => (.ok (), s.accept m (fun _ => .done) p) := by
  rw [publish_eq]
  cases h : s.broker.publish m ⟨s.publishes, fun _ => .done⟩ with
  | error e => rfl
  | ok p =>
      obtain ⟨-, ⟨-, hc, -⟩ | ⟨c, -, hc, -⟩⟩ := Broker.confirm_of_publish h
      · simp only [hc]
      · simp only [hc, Reaction.play]

/-- A publish through the gateway is answered as that of a publisher is, and leads to the same. -/
theorem publish_deployed (s : Publishing) (m : OutboundMessage) :
    Gateway.inMemory.publish m (who s.publishes) (s.deployed who d) =
      (.ofExcept (s.publish m fun _ => .done).1,
        (s.publish m fun _ => .done).2.deployed who d) := by
  have call := s.broker.publish_mapCallback (who ·.number) m ⟨s.publishes, fun _ => .done⟩
  rw [publish_of_quiet]
  simp only [Gateway.inMemory]
  rw [show (s.deployed who d).broker.publish m (who s.publishes) = _ from call]
  cases h : s.broker.publish m ⟨s.publishes, fun _ => .done⟩ with
  | error e => exact congrArg (Prod.mk _) (deployed_append who d (s.firing_refuse m _ e)).symm
  | ok p =>
      have after := deployed_append who d (s.firing_accept m (fun _ => .done) p)
      obtain ⟨-, ⟨-, hc, -⟩ | ⟨c, -, hc, -⟩⟩ := Broker.confirm_of_publish h
      · rw [hc] at after
        simp only [hc, Except.map, Option.map]
        exact congrArg (Prod.mk _) after.symm
      · rw [hc] at after
        simp only [hc, Except.map, Option.map]
        exact congrArg (Prod.mk _) ((Deployment.fire_withBroker _ _ _ c).trans after.symm)

/-- What is given out to quiet callbacks shows in the book alone. -/
theorem foldl_fire_of_quiet (ack : Bool) {due : List (Callback × Confirm)}
    (quiet : ∀ x ∈ due, x.1.Quiet) (s : Publishing) :
    due.foldl (fire ack) s =
      { s with book := s.book ++ due.map fun (callback, c) => .fired callback c (some ack) } := by
  induction due generalizing s with
  | nil =>
      rw [List.map_nil, List.append_nil]
      rfl
  | cons x due ih =>
      have done : x.1.react x.2 = .done := quiet x (.head _) x.2
      rw [List.foldl_cons, fire, done, Reaction.play, ih fun y hy => quiet y (.tail _ hy)]
      dsimp only
      rw [List.append_assoc]
      rfl

theorem settleConfirms_of_quiet (quiet : s.Quiet) (ack : Bool) :
    s.settleConfirms ack =
      (s.broker.held.length,
        { s with
          broker := s.broker.loseConfirms
          book := s.book ++
            s.broker.held.map fun x =>
              .fired x.callback (.ofAck x.correlation ack) (some ack) }) := by
  have each : ∀ y ∈ s.broker.held.map fun x => (x.callback, Confirm.ofAck x.correlation ack),
      y.1.Quiet := by
    intro y hy
    obtain ⟨x, hx, rfl⟩ := List.mem_map.mp hy
    exact quiet x hx
  rw [settleConfirms_eq, foldl_fire_of_quiet ack each, List.map_map]
  rfl

/-- Settling what is held gives out as many confirms, and leads to the same. -/
theorem settleHeld_deployed (quiet : s.Quiet) (ack : Bool) :
    (s.deployed who d).settleHeld ack =
      ((s.settleConfirms ack).1, (s.settleConfirms ack).2.deployed who d) := by
  have firing : (s.settleConfirms ack).2.book.filterMap (·.firing?) =
      s.book.filterMap (·.firing?) ++
        s.broker.held.map fun x => (x.callback.number, .ofAck x.correlation ack) := by
    rw [settleConfirms_of_quiet quiet, List.filterMap_append, List.filterMap_map]
    exact congrArg _ (congrFun List.filterMap_eq_map _)
  rw [Deployment.settleHeld_eq (d := s.deployed who d) who rfl, deployed_append who d firing,
    settleConfirms_of_quiet quiet]

/-- So does forgetting what is held. -/
theorem loseHeld_deployed (s : Publishing) :
    (s.deployed who d).loseHeld = (s.loseConfirms.1, s.loseConfirms.2.deployed who d) := by
  have firing : s.loseConfirms.2.book.filterMap (·.firing?) =
      s.book.filterMap (·.firing?) ++ [] := by
    rw [loseConfirms, List.filterMap_append, List.filterMap_map]
    exact congrArg _ (List.filterMap_eq_nil_iff.mpr fun _ _ => rfl)
  exact Prod.ext (List.length_map _) (deployed_append who d firing).symm

/-! ## Whole runs -/

theorem publishes_publish (s : Publishing) (m : OutboundMessage) :
    (s.publish m fun _ => .done).2.publishes = s.publishes + 1 := by
  rw [publish_of_quiet]
  cases s.broker.publish m ⟨s.publishes, fun _ => .done⟩ <;> rfl

theorem Quiet.publish (quiet : s.Quiet) (m : OutboundMessage) :
    (s.publish m fun _ => .done).2.Quiet := by
  rw [publish_of_quiet]
  cases h : s.broker.publish m ⟨s.publishes, fun _ => .done⟩ with
  | error e => exact quiet
  | ok p =>
      intro x hx
      obtain ⟨-, ⟨-, -, held⟩ | ⟨c, -, -, held⟩⟩ := Broker.confirm_of_publish h
      · obtain hx | hx := List.mem_append.mp (held ▸ hx)
        · exact quiet x hx
        · obtain rfl := List.mem_singleton.mp hx
          exact fun _ => rfl
      · exact quiet x (held ▸ hx)

theorem Quiet.step (quiet : s.Quiet) {move : PublishMove} (still : move.Quiet) :
    (s.step move).Quiet := by
  cases move with
  | publish m callback =>
      subst still
      exact quiet.publish m
  | setConfirmMode mode | setAvailable available => exact quiet
  | settleConfirms ack =>
      dsimp only [Publishing.step]
      rw [settleConfirms_of_quiet quiet]
      exact fun x hx => absurd hx List.not_mem_nil
  | loseConfirms => exact fun x hx => absurd hx List.not_mem_nil

theorem serve_step (quiet : s.Quiet) {move : PublishMove} (still : move.Quiet) :
    Deployment.serve who (s.publishes, s.deployed who d) move =
      ((s.step move).publishes, (s.step move).deployed who d) := by
  cases move with
  | publish m callback =>
      subst still
      dsimp only [Deployment.serve, step]
      rw [publish_deployed, publishes_publish]
  | setConfirmMode mode | setAvailable available => rfl
  | settleConfirms ack =>
      dsimp only [Deployment.serve, step]
      rw [settleHeld_deployed who d quiet, settleConfirms_of_quiet quiet]
  | loseConfirms =>
      dsimp only [Deployment.serve, step]
      rw [loseHeld_deployed]
      rfl

/-- A deployment that does what quiet publishers are asked to do becomes what their book says. -/
theorem serve_run (quiet : s.Quiet) {moves : List PublishMove}
    (still : ∀ move ∈ moves, move.Quiet) :
    moves.foldl (Deployment.serve who) (s.publishes, s.deployed who d) =
      ((s.run moves).publishes, (s.run moves).deployed who d) := by
  induction moves generalizing s with
  | nil => rfl
  | cons move moves ih =>
      rw [List.foldl_cons, serve_step who d quiet (still move (.head _))]
      exact ih (quiet.step (still move (.head _))) fun m hm => still m (.tail _ hm)

/-- So the book tells what becomes of any deployment that starts without held confirms. -/
theorem serve_start {d : Deployment ρ} (none : d.broker.held = []) {moves : List PublishMove}
    (still : ∀ move ∈ moves, move.Quiet) :
    let s := start (d.broker.mapCallback fun _ => ⟨0, fun _ => .done⟩)
    moves.foldl (Deployment.serve who) (0, d) =
      ((s.run moves).publishes, (s.run moves).deployed who d) := by
  intro s
  have quiet : s.Quiet := fun x hx => absurd hx List.not_mem_nil
  have same : s.deployed who d = d := by
    obtain ⟨_, _, ⟨_, _, _, _, _, _, _, _, held, _, _⟩, _, _, _, _, _, _⟩ := d
    cases none
    rfl
  have run := serve_run who d quiet still
  rw [same] at run
  exact run

end Publishing

end DurableMessaging
