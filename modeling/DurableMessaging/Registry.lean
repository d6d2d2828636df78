/-!
# Registries

Values under distinct names. `get?` is the view by which the operations are described.
-/

namespace DurableMessaging

structure Registry (α : Type) where
  entries : List (String × α)
  nodup : (entries.map Prod.fst).Nodup := by simp

namespace Registry

variable {α : Type}

def empty : Registry α := ⟨[], by simp⟩

def get? (r : Registry α) (name : String) : Option α := r.entries.lookup name

def contains (r : Registry α) (name : String) : Bool := (r.get? name).isSome

def size (r : Registry α) : Nat := r.entries.length

/-- Keeps the entries that satisfy a condition. -/
def filter (r : Registry α) (keep : String → α → Bool) : Registry α where
  entries := r.entries.filter fun e => keep e.1 e.2
  nodup := r.nodup.sublist (List.filter_sublist.map _)

def erase (r : Registry α) (name : String) : Registry α := r.filter fun n _ => n != name

/-- Puts a value under a name, in place of the one that was there. -/
def insert (r : Registry α) (name : String) (value : α) : Registry α where
  entries := (r.erase name).entries ++ [(name, value)]
  nodup := by
    rw [List.map_append, List.nodup_append]
    refine ⟨(r.erase name).nodup, by simp, ?_⟩
    intro a ha b hb
    simp only [erase, filter, List.mem_map, List.mem_filter] at ha
    obtain ⟨e, ⟨-, hne⟩, rfl⟩ := ha
    simp only [List.map_cons, List.map_nil, List.mem_singleton] at hb
    subst hb
    simpa using hne

/-- Changes the value under a name, if there is one. -/
def modify (r : Registry α) (name : String) (f : α → α) : Registry α where
  entries := r.entries.map fun e => (e.1, if e.1 = name then f e.2 else e.2)
  nodup := by simpa [List.map_map, Function.comp_def] using r.nodup

/-- Changes every value. -/
def map {β : Type} (r : Registry α) (f : α → β) : Registry β where
  entries := r.entries.map fun e => (e.1, f e.2)
  nodup := by simpa [List.map_map, Function.comp_def] using r.nodup

@[simp] theorem get?_empty (name : String) : (empty : Registry α).get? name = none := rfl

theorem lookup_filter {l : List (String × α)} (hl : (l.map Prod.fst).Nodup)
    (keep : String → α → Bool) (name : String) :
    (l.filter fun e => keep e.1 e.2).lookup name = (l.lookup name).filter (keep name) := by
  induction l with
  | nil => rfl
  | cons e l ih =>
    obtain ⟨n, v⟩ := e
    simp only [List.map_cons, List.nodup_cons] at hl
    have ih := ih hl.2
    by_cases hn : name = n
    · subst hn
      have absent : l.lookup name = none := by
        rw [List.lookup_eq_none_iff]
        intro p hp
        simp only [bne_iff_ne, ne_eq]
        rintro rfl
        exact hl.1 (List.mem_map_of_mem hp)
      by_cases hk : keep name v
      · simp [hk, Option.filter]
      · simp [hk, ih, absent, Option.filter]
    · have hb : (name == n) = false := by simpa using hn
      by_cases hk : keep n v <;> simp [hk, List.lookup_cons, hb, ih]

theorem get?_filter (r : Registry α) (keep : String → α → Bool) (name : String) :
    (r.filter keep).get? name = (r.get? name).filter (keep name) :=
  lookup_filter r.nodup keep name

theorem get?_erase (r : Registry α) (name n : String) :
    (r.erase name).get? n = if n = name then none else r.get? n := by
  rw [erase, get?_filter]
  by_cases h : n = name <;> cases r.get? n <;> simp [h, Option.filter]

theorem get?_insert (r : Registry α) (name : String) (value : α) (n : String) :
    (r.insert name value).get? n = if n = name then some value else r.get? n := by
  have h := get?_erase r name n
  simp only [get?, insert, List.lookup_append] at h ⊢
  rw [h]
  by_cases hn : n = name
  · simp [hn]
  · have hb : (n == name) = false := by simpa using hn
    simp [hn, List.lookup_cons, hb]

theorem get?_modify (r : Registry α) (name : String) (f : α → α) (n : String) :
    (r.modify name f).get? n = if n = name then (r.get? n).map f else r.get? n := by
  simp only [get?, modify]
  induction r.entries with
  | nil => simp
  | cons e l ih =>
    obtain ⟨m, v⟩ := e
    simp only [List.map_cons, List.lookup_cons, ih]
    by_cases hm : n = m
    · subst hm
      by_cases hn : n = name <;> simp [hn]
    · have hb : (n == m) = false := by simpa using hm
      simp [hb]

end Registry

end DurableMessaging
