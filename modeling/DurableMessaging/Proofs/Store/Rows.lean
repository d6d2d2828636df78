import DurableMessaging.Store.Basic
import Mathlib.Logic.Function.Basic

/-!
# Rows under their ids

A table is known by the row that it holds under each id. Every operation of the store changes that
in its own way, or not at all.
-/

namespace DurableMessaging

/-- The row under each id. -/
abbrev Shelf := RowId → Option Row

def Row.asSent (row : Row) : Row := { row with status := .sent }

/-- Puts a row under its id. -/
def Shelf.put (shelf : Shelf) (row : Row) : Shelf := Function.update shelf row.id (some row)

theorem Shelf.foldl_put_of_ne {rows : List Row} {shelf : Shelf} {id : RowId}
    (h : ∀ row ∈ rows, row.id ≠ id) : rows.foldl put shelf id = shelf id := by
  induction rows generalizing shelf with
  | nil => rfl
  | cons row rows ih =>
      obtain ⟨hrow, hrows⟩ := List.forall_mem_cons.mp h
      rw [List.foldl_cons, ih hrows, put, Function.update_of_ne hrow.symm]

namespace Table

def ids (t : Table) : List RowId := t.rows.map (·.id)

theorem contains_iff {t : Table} {id : RowId} : t.contains id = true ↔ id ∈ t.ids := by
  simp [contains, ids]

theorem nodup_ids (t : Table) : t.ids.Nodup :=
  (List.pairwise_map.mpr t.ascending).imp UInt64.ne_of_lt

theorem ids_erase (t : Table) (id : RowId) : (t.erase id).ids ⊆ t.ids :=
  List.map_subset _ fun _ hr => (mem_erase.mp hr).1

theorem ids_setStatus (t : Table) (id : RowId) (status : RowStatus) :
    (t.setStatus id status).ids = t.ids := by
  simp only [setStatus, ids, List.map_map]
  congr 1
  funext row
  dsimp only [Function.comp]
  split <;> rfl

theorem mem_ids_foldl_insert {rows : List Row} {t : Table} {id : RowId}
    (h : id ∈ (rows.foldl insert t).ids) : id ∈ rows.map (·.id) ∨ id ∈ t.ids := by
  induction rows generalizing t with
  | nil => exact .inr h
  | cons row rows ih =>
      rw [List.map_cons, List.mem_cons, or_assoc]
      rcases ih h with hr | ht
      · exact .inr (.inl hr)
      · obtain ⟨r, hr, rfl⟩ := List.mem_map.mp ht
        rcases mem_insert.mp hr with rfl | ⟨hr, -⟩
        · exact .inl rfl
        · exact .inr (.inr (List.mem_map_of_mem hr))

/-! ## The shelf of a table -/

def shelf (t : Table) : Shelf := t.get?

theorem isSome_get?_iff {t : Table} {id : RowId} : (t.get? id).isSome ↔ id ∈ t.ids := by
  rw [← contains_iff]
  simp [get?, contains]

theorem get?_eq_of_forall {t : Table} {id : RowId} {x : Option Row}
    (h : ∀ row, (row ∈ t.rows ∧ row.id = id) ↔ x = some row) : t.get? id = x := by
  refine Option.ext fun row => ?_
  rw [get?_eq_some_iff]
  exact h row

theorem shelf_insert (t : Table) (row : Row) : (t.insert row).shelf = t.shelf.put row := by
  funext id
  refine get?_eq_of_forall fun r => ?_
  rw [mem_insert]
  by_cases hid : id = row.id
  · subst hid
    simp only [Shelf.put, Function.update_self, Option.some.injEq]
    constructor
    · rintro ⟨rfl | ⟨-, hne⟩, he⟩
      · rfl
      · exact absurd he hne
    · rintro rfl
      exact ⟨.inl rfl, rfl⟩
  · simp only [Shelf.put, Function.update_of_ne hid, shelf, get?_eq_some_iff]
    constructor
    · rintro ⟨rfl | ⟨hr, -⟩, he⟩
      · exact absurd he.symm hid
      · exact ⟨hr, he⟩
    · rintro ⟨hr, rfl⟩
      exact ⟨.inr ⟨hr, hid⟩, rfl⟩

theorem shelf_foldl_insert (rows : List Row) (t : Table) :
    (rows.foldl insert t).shelf = rows.foldl .put t.shelf := by
  induction rows generalizing t with
  | nil => rfl
  | cons row rows ih => rw [List.foldl_cons, List.foldl_cons, ih, shelf_insert]

theorem shelf_erase (t : Table) (id : RowId) :
    (t.erase id).shelf = Function.update t.shelf id none := by
  funext other
  refine get?_eq_of_forall fun r => ?_
  rw [mem_erase]
  by_cases hid : other = id
  · subst hid
    simp only [Function.update_self, reduceCtorEq, iff_false]
    rintro ⟨⟨-, hne⟩, he⟩
    exact hne he
  · simp only [Function.update_of_ne hid, shelf, get?_eq_some_iff]
    constructor
    · rintro ⟨⟨hr, -⟩, he⟩
      exact ⟨hr, he⟩
    · rintro ⟨hr, rfl⟩
      exact ⟨⟨hr, hid⟩, rfl⟩

theorem shelf_setSent (t : Table) (id : RowId) :
    (t.setStatus id .sent).shelf = Function.update t.shelf id ((t.shelf id).map (·.asSent)) := by
  funext other
  refine get?_eq_of_forall fun r => ?_
  rw [mem_setStatus]
  by_cases hid : other = id
  · subst hid
    simp only [Function.update_self, shelf, Option.map_eq_some_iff, get?_eq_some_iff]
    constructor
    · rintro ⟨⟨x, hx, rfl⟩, he⟩
      by_cases hxid : x.id = other
      · rw [if_pos hxid]
        exact ⟨x, ⟨hx, hxid⟩, rfl⟩
      · rw [if_neg hxid] at he
        exact absurd he hxid
    · rintro ⟨x, ⟨hx, hxid⟩, rfl⟩
      exact ⟨⟨x, hx, if_pos hxid⟩, hxid⟩
  · simp only [Function.update_of_ne hid, shelf, get?_eq_some_iff]
    constructor
    · rintro ⟨⟨x, hx, rfl⟩, he⟩
      by_cases hxid : x.id = id
      · rw [if_pos hxid] at he
        exact absurd (he.symm.trans hxid) hid
      · rw [if_neg hxid] at he ⊢
        exact ⟨hx, he⟩
    · rintro ⟨hr, rfl⟩
      exact ⟨⟨r, hr, if_neg hid⟩, rfl⟩

theorem size_insert {t : Table} {row : Row} (h : row.id ∉ t.ids) :
    (t.insert row).size = t.size + 1 := by
  have others : t.rows.filter (fun r => !decide (r.id < row.id)) = t.rows.filter (row.id < ·.id) := by
    refine List.filter_congr fun r hr => ?_
    have hne : r.id ≠ row.id := fun he => h (he ▸ List.mem_map_of_mem hr)
    rcases UInt64.lt_or_lt_of_ne hne with hlt | hlt
    · simp [hlt, UInt64.lt_asymm hlt]
    · simp [hlt, UInt64.lt_asymm hlt]
  have parts := (List.filter_append_perm (fun r => decide (r.id < row.id)) t.rows).length_eq
  rw [others, List.length_append] at parts
  simp only [insert, size, List.length_append, List.length_cons]
  omega

theorem size_foldl_insert {rows : List Row} (distinct : (rows.map (·.id)).Nodup) {t : Table}
    (fresh : ∀ row ∈ rows, row.id ∉ t.ids) : (rows.foldl insert t).size = t.size + rows.length := by
  induction rows generalizing t with
  | nil => rfl
  | cons row rows ih =>
      obtain ⟨hrow, hrows⟩ := List.nodup_cons.mp distinct
      obtain ⟨first, rest⟩ := List.forall_mem_cons.mp fresh
      rw [List.foldl_cons, ih hrows, size_insert first, List.length_cons]
      · omega
      · intro r hr hid
        obtain ⟨x, hx, he⟩ := List.mem_map.mp hid
        rcases mem_insert.mp hx with rfl | ⟨hx, -⟩
        · exact hrow (List.mem_map.mpr ⟨r, hr, he.symm⟩)
        · exact rest r hr (List.mem_map.mpr ⟨x, hx, he⟩)

end Table

end DurableMessaging
