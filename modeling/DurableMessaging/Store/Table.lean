import DurableMessaging.Row.Basic

/-!
# The outbox table

Rows in strictly ascending order of their ids.
-/

namespace DurableMessaging

structure Table where
  rows : List Row
  ascending : rows.Pairwise fun a b => a.id < b.id := by simp

namespace Table

def empty : Table := ⟨[], by simp⟩

def size (t : Table) : Nat := t.rows.length

def get? (t : Table) (id : RowId) : Option Row := t.rows.find? (·.id == id)

def contains (t : Table) (id : RowId) : Bool := t.rows.any (·.id == id)

/-- Keeps the rows that satisfy a condition. -/
def filter (t : Table) (keep : Row → Bool) : Table :=
  ⟨t.rows.filter keep, t.ascending.filter keep⟩

def erase (t : Table) (id : RowId) : Table := t.filter (·.id != id)

/-- Puts a row where its id belongs, in place of the one that was there. -/
def insert (t : Table) (row : Row) : Table where
  rows := t.rows.filter (·.id < row.id) ++ row :: t.rows.filter (row.id < ·.id)
  ascending := by
    rw [List.pairwise_append]
    refine ⟨t.ascending.filter _, ?_, ?_⟩
    · rw [List.pairwise_cons]
      exact ⟨fun r hr => by simpa using (List.mem_filter.1 hr).2, t.ascending.filter _⟩
    · intro a ha b hb
      have ha : a.id < row.id := by simpa using (List.mem_filter.1 ha).2
      rcases List.mem_cons.1 hb with rfl | hb
      · exact ha
      · exact UInt64.lt_trans ha (by simpa using (List.mem_filter.1 hb).2)

/-- Changes the status of the row with an id. -/
def setStatus (t : Table) (id : RowId) (status : RowStatus) : Table where
  rows := t.rows.map fun r => if r.id = id then { r with status } else r
  ascending := by
    rw [List.pairwise_map]
    refine t.ascending.imp ?_
    intro a b h
    split <;> split <;> simpa using h

/-- At most `limit` pending rows after an id, in ascending order. -/
def pending (t : Table) (after : Option RowId) (limit : Nat) : List Row :=
  (t.rows.filter fun r => after.all (· < r.id) && r.isPending).take limit

/-! ## What is in a table -/

/-- A table has at most one row with an id. -/
theorem eq_of_id_eq {t : Table} {a b : Row} (ha : a ∈ t.rows) (hb : b ∈ t.rows)
    (h : a.id = b.id) : a = b := by
  obtain ⟨rows, ascending⟩ := t
  induction ascending with
  | nil => cases ha
  | cons hr _ ih =>
    have lt_irrefl : ∀ {x y : RowId}, x = y → ¬x < y := fun e l => UInt64.lt_irrefl _ (e ▸ l)
    rcases List.mem_cons.mp ha with rfl | ha' <;> rcases List.mem_cons.mp hb with rfl | hb'
    · rfl
    · exact absurd (hr b hb') (lt_irrefl h)
    · exact absurd (hr a ha') (lt_irrefl h.symm)
    · exact ih ha' hb'

theorem get?_eq_some_iff {t : Table} {id : RowId} {row : Row} :
    t.get? id = some row ↔ row ∈ t.rows ∧ row.id = id := by
  constructor
  · intro h
    have hid := List.find?_some (p := fun r : Row => r.id == id) h
    exact ⟨List.mem_of_find?_eq_some h, eq_of_beq hid⟩
  · rintro ⟨hmem, rfl⟩
    cases h : t.get? row.id with
    | none => exact absurd (beq_self_eq_true row.id) (List.find?_eq_none.mp h row hmem)
    | some r =>
      have hid := List.find?_some (p := fun r : Row => r.id == row.id) h
      exact congrArg some (eq_of_id_eq (List.mem_of_find?_eq_some h) hmem (eq_of_beq hid))

theorem mem_erase {t : Table} {id : RowId} {row : Row} :
    row ∈ (t.erase id).rows ↔ row ∈ t.rows ∧ row.id ≠ id := by
  simp [erase, filter]

theorem mem_insert {t : Table} {row r : Row} :
    r ∈ (t.insert row).rows ↔ r = row ∨ (r ∈ t.rows ∧ r.id ≠ row.id) := by
  simp only [insert, List.mem_append, List.mem_cons, List.mem_filter, decide_eq_true_eq]
  constructor
  · rintro (⟨h, hlt⟩ | rfl | ⟨h, hlt⟩)
    · exact .inr ⟨h, UInt64.ne_of_lt hlt⟩
    · exact .inl rfl
    · exact .inr ⟨h, (UInt64.ne_of_lt hlt).symm⟩
  · rintro (rfl | ⟨h, hne⟩)
    · exact .inr (.inl rfl)
    · rcases UInt64.lt_or_lt_of_ne hne with hlt | hlt
      · exact .inl ⟨h, hlt⟩
      · exact .inr (.inr ⟨h, hlt⟩)

theorem mem_setStatus {t : Table} {id : RowId} {status : RowStatus} {row : Row} :
    row ∈ (t.setStatus id status).rows ↔
      ∃ r ∈ t.rows, (if r.id = id then { r with status } else r) = row :=
  List.mem_map

theorem of_mem_pending {t : Table} {after : Option RowId} {limit : Nat} {row : Row}
    (h : row ∈ t.pending after limit) : row ∈ t.rows ∧ row.isPending = true := by
  obtain ⟨hmem, hrow⟩ := List.mem_filter.mp (List.mem_of_mem_take h)
  exact ⟨hmem, (Bool.and_eq_true_iff.mp hrow).2⟩

/-- A table holds the rows of a commit in place of those with their ids. -/
theorem mem_foldl_insert {rows : List Row} (h : (rows.map (·.id)).Nodup) {t : Table} {row : Row} :
    row ∈ (rows.foldl insert t).rows ↔
      row ∈ rows ∨ (row ∈ t.rows ∧ row.id ∉ rows.map (·.id)) := by
  induction rows generalizing t with
  | nil => simp
  | cons r rows ih =>
    obtain ⟨hr, hrows⟩ := List.nodup_cons.mp h
    rw [List.foldl_cons, ih hrows, mem_insert, List.map_cons, List.mem_cons, List.mem_cons, not_or]
    constructor
    · rintro (hm | ⟨rfl | ⟨hm, hne⟩, hn⟩)
      · exact .inl (.inr hm)
      · exact .inl (.inl rfl)
      · exact .inr ⟨hm, hne, hn⟩
    · rintro ((rfl | hm) | ⟨hm, hne, hn⟩)
      · exact .inr ⟨.inl rfl, hr⟩
      · exact .inl hm
      · exact .inr ⟨.inr ⟨hm, hne⟩, hn⟩

end Table

end DurableMessaging
