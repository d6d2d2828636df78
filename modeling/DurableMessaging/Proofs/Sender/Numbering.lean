import DurableMessaging.Proofs.Outbox.Safety
import Mathlib.Data.List.Flatten

/-!
# Ids under which rows are sent

Ids are given out beside the units of work that they are staged in, some for nothing, and units are
committed in any order. As long as fewer ids are given out than there are, none is given out twice,
so no two rows that are staged or stored ever have the same one.
-/

namespace DurableMessaging

variable {ρ : Type}

/-! ## What gives out no id -/

/-- From one store to the next no id was given out and no row came in. -/
structure Store.Thins (s s' : Store) : Prop where
  nextId : s'.nextId = s.nextId := by rfl
  ids : s'.table.ids ⊆ s.table.ids := by exact List.Subset.refl _

namespace Store.Thins

variable {s s' s'' : Store}

theorem trans (h : s.Thins s') (h' : s'.Thins s'') : s.Thins s'' :=
  ⟨h'.nextId.trans h.nextId, List.Subset.trans h'.ids h.ids⟩

theorem settle {id : RowId} {policy : AckPolicy} {settled : Bool}
    (h : s.settle id policy = .ok (settled, s')) : s.Thins s' := by
  obtain ⟨nextId, -, rows⟩ := Store.settle_eq_ok h
  refine ⟨nextId, fun x hx => ?_⟩
  obtain ⟨row, hrow, rfl⟩ := List.mem_map.mp hx
  obtain ⟨r, hr, same⟩ := rows row hrow
  exact List.mem_map.mpr ⟨r, hr, (congrArg (·.id) same : r.asPending.id = row.asPending.id)⟩

theorem handle (s : Store) (settler : Settler) (expected : RowId) (confirm : Confirm) :
    s.Thins (settler.handle s expected confirm).2 := by
  unfold Settler.handle
  split
  · split
    · exact {}
    · split
      · rename_i h
        exact settle h
      · exact {}
  · exact {}

theorem fire (d : Deployment ρ) (callback : ConfirmCallback) (confirm : Confirm) :
    d.store.Thins (d.fire callback confirm).store := by
  induction callback generalizing confirm with
  | settle settler row =>
      simp only [Deployment.fire, Deployment.settleConfirm]
      cases d.settlers[settler]? with
      | none => exact {}
      | some s => exact handle d.store s row confirm
  | ignore => exact {}
  | keep => exact {}
  | relabel correlation callback ih => exact ih _

end Store.Thins

/-- A gateway in which no id is given out and no row comes in. -/
structure Gateway.Thrifty (g : Gateway ρ) : Prop where
  declare : ∀ t (d : Deployment ρ), d.store.Thins (g.declare t d).2.store
  publish : ∀ m callback (d : Deployment ρ), d.store.Thins (g.publish m callback d).2.store

theorem Gateway.thrifty_inMemory : (inMemory : Gateway ρ).Thrifty where
  declare t d := by
    dsimp only [inMemory]
    cases d.broker.declare t <;> exact {}
  publish m callback d := by
    dsimp only [inMemory]
    cases d.broker.publish m callback with
    | error e => exact {}
    | ok p =>
        dsimp only
        cases p.confirm with
        | none => exact {}
        | some c => exact .fire { d with broker := p.broker } c.1 c.2

theorem Gateway.Thrifty.publishRow {g : Gateway ρ} (h : g.Thrifty) (settler : Nat) (row : Row)
    (d : Deployment ρ) : d.store.Thins (g.publishRow settler row d).2.store := by
  have declared := h.declare row.topology d
  unfold Gateway.publishRow
  split
  · rename_i d' hd
    rw [hd] at declared
    exact declared.trans (h.publish _ _ d')
  · rename_i reply d' _ hd
    rw [hd] at declared
    exact declared

theorem Gateway.Thrifty.perform {g : Gateway ρ} (h : g.Thrifty) (a : Announcement)
    (d : Deployment ρ) : d.store.Thins (a.perform g d).2.store := by
  rw [Announcement.deployment_perform]
  exact h.publishRow a.settler a.row d

theorem Gateway.Thrifty.pass {g : Gateway ρ} (h : g.Thrifty) (p : Pass) (r : Resender)
    (d : Deployment ρ) : d.store.Thins (p.step g r d).2.store := by
  obtain ⟨report, phase⟩ := p
  cases phase with
  | query after => exact {}
  | walk rows last short =>
      cases rows with
      | nil => cases short <;> exact {}
      | cons row rows =>
          dsimp only [Pass.step]
          rw [Pass.deployment_visit]
          split
          · exact {}
          · exact h.publishRow r.settler row d

theorem Gateway.Thrifty.runAll {g : Gateway ρ} (h : g.Thrifty) (as : List Announcement)
    (report : CommitReport) (d : Deployment ρ) :
    d.store.Thins (UnitOfWork.runAll (Announcement.perform g) as report d).2.store := by
  induction as generalizing report d with
  | nil => exact {}
  | cons a as ih => exact (h.perform a d).trans (ih _ _)

/-! ## Ids given out and ids in use -/

/-- What holds of a store whose ids begin with `first`, of the rows that are not in it yet, and of
the ids given out so far. -/
structure Numbering (first : RowId) (s : Store) (rows : List Row) (allocated : List RowId) :
    Prop where
  nextId : s.nextId = first + UInt64.ofNat allocated.length
  inTurn : ∀ x ∈ allocated, ∃ k < allocated.length, x = first + UInt64.ofNat k
  once : allocated.Nodup
  apart : (rows.map (·.id) ++ s.table.ids).Nodup
  known : ∀ x ∈ rows.map (·.id) ++ s.table.ids, x ∈ allocated

namespace Numbering

variable {first : RowId} {s s' : Store} {rows rows' unit : List Row} {allocated : List RowId}

theorem start (first : RowId) : Numbering first (.startingAt first) [] [] where
  nextId := (UInt64.add_zero _).symm
  inTurn := nofun
  once := .nil
  apart := .nil
  known := nofun

theorem perm (h : Numbering first s rows allocated) (hr : rows'.Perm rows) :
    Numbering first s rows' allocated :=
  { h with
    apart := ((hr.map _).append_right _).nodup_iff.mpr h.apart
    known := fun x hx => h.known x (((hr.map _).append_right _).mem_iff.mp hx) }

/-- Rows may go, from the store and from outside. -/
theorem thin (h : Numbering first s rows allocated) (hr : rows'.Sublist rows) (hs : s.Thins s') :
    Numbering first s' rows' allocated where
  nextId := hs.nextId.trans h.nextId
  inTurn := h.inTurn
  once := h.once
  apart := by
    obtain ⟨hrows, -, apart⟩ := List.nodup_append.mp h.apart
    refine List.nodup_append.mpr ⟨hrows.sublist (hr.map _), s'.table.nodup_ids, ?_⟩
    exact fun x hx y hy => apart x ((hr.map _).subset hx) y (hs.ids hy)
  known x hx := by
    refine h.known x (List.mem_append.mpr ?_)
    exact (List.mem_append.mp hx).imp (fun hx => (hr.map _).subset hx) fun hx => hs.ids hx

/-- As long as there are ids left, the next one has not been given out. -/
theorem fresh (h : Numbering first s rows allocated) (few : allocated.length < UInt64.size) :
    s.nextId ∉ allocated := by
  intro hx
  obtain ⟨k, hk, he⟩ := h.inTurn _ hx
  exact Books.ofNat_ne hk few first (he.symm.trans h.nextId)

theorem allocate {row : Row} (h : Numbering first s rows allocated)
    (hid : s.allocateId = .ok (row.id, s')) (few : allocated.length < UInt64.size) :
    Numbering first s' (row :: rows) (allocated ++ [row.id]) := by
  obtain ⟨hrow, rfl⟩ := Books.allocateId_eq_ok hid
  have fresh : row.id ∉ allocated := hrow ▸ h.fresh few
  refine ⟨?_, ?_, ?_, ?_, ?_⟩
  · show s.nextId + 1 = _
    rw [h.nextId, List.length_append, UInt64.ofNat_add, UInt64.add_assoc]
    rfl
  · intro x hx
    rw [List.length_append]
    rcases List.mem_append.mp hx with hx | hx
    · obtain ⟨k, hk, he⟩ := h.inTurn x hx
      exact ⟨k, Nat.lt_add_right _ hk, he⟩
    · exact ⟨allocated.length, Nat.lt_succ_self _,
        (List.mem_singleton.mp hx).trans (hrow.trans h.nextId)⟩
  · exact List.nodup_append.mpr ⟨h.once, List.pairwise_singleton _ _, by
      rintro x hx _ hy rfl
      exact fresh (List.mem_singleton.mp hy ▸ hx)⟩
  · exact List.nodup_cons.mpr ⟨fun hm => fresh (h.known _ hm), h.apart⟩
  · intro x hx
    rcases List.mem_cons.mp hx with rfl | hx
    · exact List.mem_append_right _ List.mem_cons_self
    · exact List.mem_append_left _ (h.known x hx)

theorem other {row : Row} (h : Numbering first s (row :: rows) allocated) :
    ∀ r ∈ rows, r.id ≠ row.id := by
  intro r hr he
  have taken : r.id ∈ rows.map (·.id) := List.mem_map_of_mem hr
  rw [he] at taken
  exact (List.nodup_cons.mp h.apart).1 (List.mem_append_left _ taken)

/-- No row of a unit has an id that is taken. -/
theorem free (h : Numbering first s (unit ++ rows) allocated) :
    ∀ row ∈ unit, row.id ∉ s.table.ids := by
  intro row hrow hid
  have apart := (List.nodup_append.mp h.apart).2.2
  exact apart _ (List.mem_map_of_mem (List.mem_append_left _ hrow)) _ hid rfl

theorem commit (h : Numbering first s (unit ++ rows) allocated)
    (hc : s.commit unit = (.ok (), s')) : Numbering first s' rows allocated := by
  obtain rfl := Store.commit_eq_ok hc
  have within : ∀ x ∈ (unit.foldl .insert s.table).ids, x ∈ unit.map (·.id) ++ s.table.ids :=
    fun x hx => List.mem_append.mpr (Table.mem_ids_foldl_insert hx)
  have regroup : ((unit ++ rows).map (·.id) ++ s.table.ids).Perm
      (rows.map (·.id) ++ (unit.map (·.id) ++ s.table.ids)) := by
    rw [List.map_append, ← List.append_assoc]
    exact List.perm_append_comm.append_right _
  obtain ⟨hrows, -, apart⟩ := List.nodup_append.mp (regroup.nodup_iff.mp h.apart)
  refine { h with apart := ?_, known := ?_ }
  · refine List.nodup_append.mpr ⟨hrows, Table.nodup_ids _, ?_⟩
    exact fun x hx y hy => apart x hx y (within y hy)
  · intro x hx
    refine h.known x (regroup.mem_iff.mpr (List.mem_append.mpr ?_))
    exact (List.mem_append.mp hx).imp id (within x)

end Numbering

/-! ## Refusals -/

def StoreError.isDuplicate : StoreError → Bool
  | .duplicateId _ => true
  | _ => false

namespace Store

variable {s s' : Store} {rows : List Row} {e : StoreError}

theorem not_duplicate_of_unavailable (h : s.ensureAvailable = .error e) :
    e.isDuplicate = false := by
  unfold ensureAvailable at h
  split at h <;> cases h
  rfl

/-- An operation on an available store fails as what it does next. -/
theorem not_duplicate_of_bind {α : Type} {k : Unit → Except StoreError α}
    (h : s.ensureAvailable >>= k = .error e) (hk : k () = .error e → e.isDuplicate = false) :
    e.isDuplicate = false := by
  cases ha : s.ensureAvailable with
  | error e' =>
      rw [ha] at h
      cases h
      exact not_duplicate_of_unavailable ha
  | ok _ =>
      rw [ha] at h
      exact hk h

theorem not_duplicate_of_start {α : Type}
    (h : (UnitOfWork.start s : Except StoreError (UnitOfWork α)) = .error e) :
    e.isDuplicate = false :=
  not_duplicate_of_bind h nofun

theorem not_duplicate_of_allocateId (h : s.allocateId = .error e) : e.isDuplicate = false :=
  not_duplicate_of_bind h nofun

/-- A row is refused as a duplicate only beside a staged row with its id. -/
theorem not_duplicate_of_stage {row : Row} (h : s.stage rows row = .error e)
    (apart : ∀ r ∈ rows, r.id ≠ row.id) : e.isDuplicate = false := by
  have new : rows.any (·.id == row.id) = false := by simpa using apart
  unfold stage at h
  rw [new] at h
  exact not_duplicate_of_bind h nofun

/-- A commit is refused as a duplicate only if an id in it is taken. -/
theorem not_duplicate_of_commit (h : s.commit rows = (.error e, s'))
    (free : ∀ row ∈ rows, row.id ∉ s.table.ids) : e.isDuplicate = false := by
  unfold commit at h
  split at h
  · rename_i ha
    cases h
    exact not_duplicate_of_unavailable ha
  · split at h
    · cases h
      rfl
    · split at h
      · rename_i row hf
        have taken := List.find?_some (p := fun row : Row => s.table.contains row.id) hf
        exact absurd (Table.contains_iff.mp taken) (free row (List.mem_of_find?_eq_some hf))
      · cases h

theorem not_duplicate_of_unit {α : Type} {u : UnitOfWork α} {row : Row}
    (h : u.stage s row = .error e) (apart : ∀ r ∈ u.staged, r.id ≠ row.id) :
    e.isDuplicate = false := by
  unfold UnitOfWork.stage at h
  cases hs : s.stage u.staged row with
  | error e' =>
      rw [hs] at h
      cases h
      exact not_duplicate_of_stage hs apart
  | ok _ =>
      rw [hs] at h
      cases h

theorem thins_of_commit (h : s.commit rows = (.error e, s')) : s.Thins s' := by
  obtain ⟨table, nextId⟩ := commit_eq_error h
  exact ⟨nextId, table ▸ List.Subset.refl _⟩

end Store

/-! ## Senders at one store -/

/-- Takes an id and makes a row of a draft, which is the first half of staging it. -/
def Sender.draw (s : Sender) (draft : Draft) (d : Deployment ρ) :
    Except StoreError Announcement × Deployment ρ :=
  match d.store.allocateId with
  | .error e => (.error e, d)
  | .ok (id, store) =>
    (.ok ⟨s.settler, s.row draft id (MessageId.ofDraw d.draws) d.now⟩,
      { d with store, draws := d.draws + 1 })

/-- Stages a row under an id that was taken for it, which is the second half. -/
def UnitOfWork.announce (u : UnitOfWork Announcement) (s : Store) (a : Announcement) :
    Except StoreError (UnitOfWork Announcement) :=
  (u.stage s a.row).map (·.defer a)

/-- A deployment with the units of work that are open on it. -/
structure Intake (ρ : Type) where
  deployment : Deployment ρ
  units : List (UnitOfWork Announcement)
  /-- Rows that have their id and are not staged yet. -/
  drawn : List Announcement
  /-- The ids given out so far. -/
  allocated : List RowId
  /-- Why sends and commits have failed so far. -/
  failures : List StoreError

/-- What is done by clients in turn: whole operations, their halves if others get in between, and
what else may become of the deployment. -/
inductive IntakeMove (ρ : Type) where
  | openUnit
  | send (unit : Nat) (sender : Sender) (draft : Draft)
  | draw (sender : Sender) (draft : Draft)
  | stage (drawn unit : Nat)
  | trySend (sender : Sender) (draft : Draft)
  | commit (unit : Nat)
  /-- A commit up to the deferred actions. -/
  | store (unit : Nat)
  /-- A unit is rolled back or dropped. -/
  | discard (unit : Nat)
  | settle (id : RowId) (policy : AckPolicy)
  | setStoreAvailable (available : Bool)
  | failNextCommit
  | other (change : Deployment ρ → Deployment ρ)
    (thins : ∀ d : Deployment ρ, d.store.Thins (change d).store)

/-- The id that would be given out next, if one would be. -/
def Store.offer (s : Store) : List RowId :=
  match s.allocateId with
  | .error _ => []
  | .ok (id, _) => [id]

namespace Intake

def start (now : Instant) (first : RowId) (rig : ρ) : Intake ρ :=
  ⟨.start now first rig, [], [], [], []⟩

def fail (x : Intake ρ) (e : StoreError) : Intake ρ := { x with failures := x.failures ++ [e] }

/-- The intake after a move; one that names no open unit or drawn row changes nothing. -/
def step (g : Gateway ρ) (x : Intake ρ) : IntakeMove ρ → Intake ρ
  | .openUnit =>
    match UnitOfWork.start x.deployment.store with
    | .error e => x.fail e
    | .ok u => { x with units := x.units ++ [u] }
  | .send unit sender draft =>
    match x.units[unit]? with
    | none => x
    | some u =>
      let x := { x with allocated := x.allocated ++ x.deployment.store.offer }
      match sender.sendIn id u draft x.deployment with
      | (.error e, d) => { x with deployment := d }.fail e.cause
      | (.ok (_, u), d) => { x with deployment := d, units := x.units.set unit u }
  | .draw sender draft =>
    match sender.draw draft x.deployment with
    | (.error e, d) => { x with deployment := d }.fail e
    | (.ok a, d) =>
      { x with deployment := d, drawn := x.drawn ++ [a], allocated := x.allocated ++ [a.row.id] }
  | .stage drawn unit =>
    match x.drawn[drawn]?, x.units[unit]? with
    | some a, some u =>
      let x := { x with drawn := x.drawn.eraseIdx drawn }
      match u.announce x.deployment.store a with
      | .error e => x.fail e
      | .ok u => { x with units := x.units.set unit u }
    | _, _ => x
  | .trySend sender draft =>
    let x := { x with allocated := x.allocated ++ x.deployment.store.offer }
    match sender.trySend g draft x.deployment with
    | (.error e, d) => { x with deployment := d }.fail e.cause
    | (.ok _, d) => { x with deployment := d }
  | .commit unit =>
    match x.units[unit]? with
    | none => x
    | some u =>
      let x := { x with units := x.units.eraseIdx unit }
      match u.commit (Announcement.perform g) x.deployment with
      | (.error e, d) => { x with deployment := d }.fail e
      | (.ok _, d) => { x with deployment := d }
  | .store unit =>
    match x.units[unit]? with
    | none => x
    | some u =>
      let x := { x with units := x.units.eraseIdx unit }
      match x.deployment.store.commit u.staged with
      | (.error e, store) => { x with deployment.store := store }.fail e
      | (.ok (), store) => { x with deployment.store := store }
  | .discard unit => { x with units := x.units.eraseIdx unit }
  | .settle id policy =>
    match x.deployment.store.settle id policy with
    | .error _ => x
    | .ok (_, store) => { x with deployment.store := store }
  | .setStoreAvailable available => { x with deployment.store.available := available }
  | .failNextCommit => { x with deployment.store.failsNextCommit := true }
  | .other change _ => { x with deployment := change x.deployment }

/-- The rows that have an id and are not in the store. -/
def rows (x : Intake ρ) : List Row := x.drawn.map (·.row) ++ x.units.flatMap (·.staged)

/-- What holds of an intake as long as there are ids left. -/
def Sound (first : RowId) (x : Intake ρ) : Prop :=
  x.allocated.length < UInt64.size →
    Numbering first x.deployment.store x.rows x.allocated ∧ ∀ e ∈ x.failures, e.isDuplicate = false

namespace Sound

variable {first : RowId} {x : Intake ρ} {g : Gateway ρ}

theorem start (now : Instant) (first : RowId) (rig : ρ) :
    (Intake.start now first rig).Sound first := fun _ => ⟨.start first, nofun⟩

theorem fail (h : x.Sound first) {e : StoreError} (he : e.isDuplicate = false) :
    (x.fail e).Sound first := fun few =>
  ⟨(h few).1, List.forall_mem_append.mpr ⟨(h few).2, List.forall_mem_singleton.mpr he⟩⟩

/-- It stays sound when rows go. -/
theorem thin (h : x.Sound first) {x' : Intake ρ} (hs : x.deployment.store.Thins x'.deployment.store)
    (hr : x'.rows.Sublist x.rows) (ha : x'.allocated = x.allocated := by rfl)
    (hf : x'.failures = x.failures := by rfl) : x'.Sound first := by
  intro few
  rw [ha] at few ⊢
  rw [hf]
  exact ⟨(h few).1.thin hr hs, (h few).2⟩

theorem openUnit (h : x.Sound first) : (x.step g .openUnit).Sound first := by
  dsimp only [step]
  cases hu : (UnitOfWork.start x.deployment.store : Except _ (UnitOfWork Announcement)) with
  | error e => exact h.fail (Store.not_duplicate_of_start hu)
  | ok u =>
      obtain rfl := UnitOfWork.start_eq_ok hu
      refine h.thin {} ?_
      simp [rows, UnitOfWork.empty]

theorem draw (h : x.Sound first) (sender : Sender) (draft : Draft) :
    (x.step g (.draw sender draft)).Sound first := by
  dsimp only [step, Sender.draw]
  cases hid : x.deployment.store.allocateId with
  | error e => exact h.fail (Store.not_duplicate_of_allocateId hid)
  | ok r =>
      intro few
      have room : x.allocated.length < UInt64.size := by
        rw [List.length_append] at few
        exact Nat.lt_of_succ_lt few
      obtain ⟨numbered, clean⟩ := h room
      let row := sender.row draft r.1 (MessageId.ofDraw x.deployment.draws) x.deployment.now
      have own : x.deployment.store.allocateId = .ok (row.id, r.2) := hid
      refine ⟨(numbered.allocate own room).perm ?_, clean⟩
      simp only [rows, List.map_append, List.map_cons, List.map_nil, List.append_assoc]
      exact List.perm_middle

theorem stage (h : x.Sound first) (drawn unit : Nat) :
    (x.step g (.stage drawn unit)).Sound first := by
  dsimp only [step]
  cases ha : x.drawn[drawn]? with
  | none => exact h
  | some a =>
      cases hu : x.units[unit]? with
      | none => exact h
      | some u =>
          have regroup : (a.row :: ((x.drawn.eraseIdx drawn).map (·.row) ++
              x.units.flatMap (·.staged))).Perm x.rows := by
            obtain ⟨hi, rfl⟩ := List.getElem?_eq_some_iff.mp ha
            exact ((List.getElem_cons_eraseIdx_perm hi).map (·.row)).append_right _
          dsimp only [UnitOfWork.announce]
          cases hs : u.stage x.deployment.store a.row with
          | error e =>
              intro few
              have dropped : Sound first { x with drawn := x.drawn.eraseIdx drawn } :=
                h.thin {} (((List.eraseIdx_sublist _ _).map _).append_right _)
              refine dropped.fail (Store.not_duplicate_of_unit hs fun r hr => ?_) few
              refine ((h few).1.perm regroup).other r (List.mem_append_right _ ?_)
              exact List.mem_flatMap.mpr ⟨u, List.mem_of_getElem? hu, hr⟩
          | ok u' =>
              intro few
              obtain ⟨rfl, -⟩ := UnitOfWork.stage_eq_ok hs
              obtain ⟨numbered, clean⟩ := h few
              refine ⟨numbered.perm (List.Perm.trans ?_ regroup), clean⟩
              refine ((Outbox.Sound.staged_set_perm hu rfl).append_left _).trans ?_
              exact List.perm_middle

theorem store (h : x.Sound first) (unit : Nat) : (x.step g (.store unit)).Sound first := by
  dsimp only [step]
  cases hu : x.units[unit]? with
  | none => exact h
  | some u =>
      have regroup : (u.staged ++ (x.drawn.map (·.row) ++
          (x.units.eraseIdx unit).flatMap (·.staged))).Perm x.rows :=
        List.perm_append_comm_assoc _ _ _ |>.trans ((Outbox.Sound.staged_perm hu).append_left _)
      dsimp only
      rcases hc : x.deployment.store.commit u.staged with ⟨e | _, s'⟩
      · intro few
        have dropped : Sound first
            { x with deployment.store := s', units := x.units.eraseIdx unit } :=
          h.thin (Store.thins_of_commit hc) (((List.eraseIdx_sublist _ _).flatMap _).append_left _)
        exact dropped.fail (Store.not_duplicate_of_commit hc ((h few).1.perm regroup).free) few
      · intro few
        obtain ⟨numbered, clean⟩ := h few
        exact ⟨(numbered.perm regroup).commit hc, clean⟩

theorem discard (h : x.Sound first) (unit : Nat) : (x.step g (.discard unit)).Sound first :=
  h.thin {} (((List.eraseIdx_sublist _ _).flatMap _).append_left _)

end Sound

/-! ## Whole operations -/

variable {x : Intake ρ} {g : Gateway ρ}

theorem eraseIdx_concat {α : Type} (xs : List α) (a : α) : (xs ++ [a]).eraseIdx xs.length = xs := by
  rw [List.eraseIdx_append_of_length_le (Nat.le_refl _), Nat.sub_self]
  exact List.append_nil xs

/-- A message is staged by its two halves. -/
theorem step_send {unit : Nat} {u : UnitOfWork Announcement} (hu : x.units[unit]? = some u)
    (sender : Sender) (draft : Draft) :
    x.step g (.send unit sender draft) =
      (x.step g (.draw sender draft)).step g (.stage x.drawn.length unit) := by
  have gone := fun a => eraseIdx_concat x.drawn a
  dsimp only [step, Sender.sendIn, Sender.draw]
  cases hid : x.deployment.store.allocateId with
  | error e => simp [fail, Store.offer, hid, hu]
  | ok r =>
      simp only [Store.offer, hid, hu, UnitOfWork.announce, List.getElem?_concat_length, gone]
      cases u.stage r.2 (sender.row draft r.1 (MessageId.ofDraw x.deployment.draws)
        x.deployment.now) <;> rfl

/-- A commit is its first half and then the deferred actions. -/
theorem step_commit (thrifty : g.Thrifty) (unit : Nat) :
    ∃ change thins,
      x.step g (.commit unit) = (x.step g (.store unit)).step g (.other change thins) := by
  dsimp only [step, UnitOfWork.commit]
  cases hu : x.units[unit]? with
  | none => exact ⟨id, fun _ => {}, rfl⟩
  | some u =>
      rcases hc : x.deployment.store.commit u.staged with ⟨e | _, s'⟩
      · exact ⟨id, fun _ => {}, by simp only [hc]; rfl⟩
      · refine ⟨_, fun d => thrifty.runAll u.deferred .zero d, ?_⟩
        simp only [hc]

/-- A message is sent by staging it in a new unit, which is then committed or dropped. -/
theorem step_trySend (sender : Sender) (draft : Draft) :
    ∃ last, (last = .commit x.units.length ∨ last = .discard x.units.length) ∧
      x.step g (.trySend sender draft) =
        ((x.step g .openUnit).step g (.send x.units.length sender draft)).step g last := by
  have gone := fun u => eraseIdx_concat x.units u
  dsimp only [step, Sender.trySend]
  cases hu : (UnitOfWork.start x.deployment.store : Except _ (UnitOfWork Announcement)) with
  | error e =>
      refine ⟨.discard x.units.length, .inr rfl, ?_⟩
      have nothing : x.deployment.store.offer = [] := by
        rw [UnitOfWork.start_eq] at hu
        unfold Store.offer
        cases hid : x.deployment.store.allocateId with
        | error _ => rfl
        | ok r =>
            rw [hid] at hu
            cases hu
      simp [nothing, fail, List.eraseIdx_of_length_le]
  | ok u =>
      obtain rfl := UnitOfWork.start_eq_ok hu
      dsimp only
      rcases hs : sender.sendIn id .empty draft x.deployment with ⟨e | ⟨rowId, u⟩, d⟩
      · refine ⟨.discard x.units.length, .inr rfl, ?_⟩
        simp [hs, gone, fail]
      · refine ⟨.commit x.units.length, .inl rfl, ?_⟩
        simp only [List.getElem?_concat_length, hs, List.set_append_right, Nat.le_refl,
          Nat.sub_self, List.set_cons_zero, gone]
        rcases u.commit (Announcement.perform g) d with ⟨e | _, d'⟩ <;> rfl

/-! ## Runs -/

namespace Sound

variable {first : RowId}

theorem change (h : x.Sound first) {d : Deployment ρ} (hs : x.deployment.store.Thins d.store) :
    Sound first { x with deployment := d } := h.thin hs (.refl _)

theorem send (h : x.Sound first) (unit : Nat) (sender : Sender) (draft : Draft) :
    (x.step g (.send unit sender draft)).Sound first := by
  cases hu : x.units[unit]? with
  | none =>
      dsimp only [step]
      rw [hu]
      exact h
  | some u =>
      rw [step_send hu]
      exact (h.draw sender draft).stage _ _

theorem commit (thrifty : g.Thrifty) (h : x.Sound first) (unit : Nat) :
    (x.step g (.commit unit)).Sound first := by
  obtain ⟨f, thins, hstep⟩ := step_commit (x := x) thrifty unit
  rw [hstep]
  exact (h.store unit).change (thins _)

theorem step (thrifty : g.Thrifty) (h : x.Sound first) (m : IntakeMove ρ) :
    (x.step g m).Sound first := by
  cases m with
  | openUnit => exact h.openUnit
  | send unit sender draft => exact h.send unit sender draft
  | draw sender draft => exact h.draw sender draft
  | stage drawn unit => exact h.stage drawn unit
  | trySend sender draft =>
      obtain ⟨last, hlast, hstep⟩ := step_trySend (x := x) (g := g) sender draft
      rw [hstep]
      have sent := h.openUnit (g := g) |>.send (g := g) x.units.length sender draft
      rcases hlast with rfl | rfl
      · exact sent.commit thrifty _
      · exact sent.discard _
  | commit unit => exact h.commit thrifty unit
  | store unit => exact h.store unit
  | discard unit => exact h.discard unit
  | settle id policy =>
      dsimp only [Intake.step]
      cases hs : x.deployment.store.settle id policy with
      | error e => exact h
      | ok r => exact h.change (.settle hs)
  | setStoreAvailable available => exact h.change {}
  | failNextCommit => exact h.change {}
  | other f thins => exact h.change (thins _)

theorem run (thrifty : g.Thrifty) (h : x.Sound first) (moves : List (IntakeMove ρ)) :
    (moves.foldl (Intake.step g) x).Sound first := by
  induction moves generalizing x with
  | nil => exact h
  | cons m moves ih => exact ih (h.step thrifty m)

end Sound

end Intake

/-- Whatever the first id is, however senders get in between each other and whatever becomes of
their units, no id is given out twice as long as fewer are given out than there are. No two rows
staged in open units or stored have the same id, and nothing is ever refused as a duplicate. -/
theorem Intake.ids_never_collide (g : Gateway ρ) (thrifty : g.Thrifty) (now : Instant)
    (first : RowId) (rig : ρ) (moves : List (IntakeMove ρ)) :
    let x := moves.foldl (step g) (.start now first rig)
    x.allocated.length < UInt64.size →
      x.allocated.Nodup ∧
        ((x.units.flatMap (·.staged)).map (·.id) ++ x.deployment.store.table.ids).Nodup ∧
        ∀ id, .duplicateId id ∉ x.failures := by
  intro x few
  obtain ⟨numbered, clean⟩ := (Sound.start now first rig).run thrifty moves few
  refine ⟨numbered.once, ?_, fun id hid => nomatch clean _ hid⟩
  exact numbered.apart.sublist (((List.sublist_append_right _ _).map _).append_right _)

/-- The first id is the last there is. It goes to a row that an outage keeps from being staged; a
unit that is opened first is committed last. -/
theorem Intake.ids_never_collide_at_wrap :
    let sender : Sender := ⟨0, .topic⟩
    let draft : Draft := ⟨"orders", "placed", "1", none, none, none⟩
    let moves : List (IntakeMove Unit) :=
      [.openUnit, .openUnit, .draw sender draft, .setStoreAvailable false, .stage 0 0,
        .setStoreAvailable true, .send 0 sender draft, .send 1 sender draft, .commit 1,
        .other (fun d => { d with broker.available := false }) (fun _ => {}), .trySend sender draft,
        .send 0 sender draft]
    let x := moves.foldl (step .inMemory) (.start 0 18446744073709551615 ())
    x.allocated = [18446744073709551615, 0, 1, 2, 3] ∧ x.allocated.Nodup ∧
      (x.units.flatMap (·.staged)).map (·.id) = [0, 3] ∧ x.deployment.store.table.ids = [1, 2] ∧
      x.failures = [.unavailable "in-memory store switched off"] ∧
      ∀ id, .duplicateId id ∉ x.failures := by
  intro sender draft moves x
  have allocated : x.allocated = [18446744073709551615, 0, 1, 2, 3] := by decide
  obtain ⟨once, -, clean⟩ := ids_never_collide .inMemory Gateway.thrifty_inMemory 0
    18446744073709551615 () moves (by rw [allocated]; decide)
  exact ⟨allocated, once, by decide, by decide, by decide, clean⟩

end DurableMessaging
