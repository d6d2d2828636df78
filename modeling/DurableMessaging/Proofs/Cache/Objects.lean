import DurableMessaging.Proofs.Cache.Effect
import DurableMessaging.Proofs.Cache.Encoding

/-!
# Typed objects in one cache

Objects of all types lie in one cache, as texts under texts. Each of them has a shelf of its own all
the same: what is found there is what was last put there, and moves at other shelves make no
difference.
-/

namespace DurableMessaging

/-- Types of objects, told apart by their names, and how the values of each are written. -/
structure ObjectFamily where
  Value : String → Type
  encode : (type : String) → Value type → List UInt8
  decode : (type : String) → List UInt8 → Option (Value type)
  decode_encode : ∀ type value, decode type (encode type value) = some value

inductive ObjectMove (F : ObjectFamily) where
  | wait (pause : Duration)
  | put (type key : String) (value : F.Value type) (ttl : Option Duration)
  | get (type key : String)
  | remove (type key : String)

namespace ObjectMove

variable {F : ObjectFamily}

/-- Whether a move puts or removes the object of a type under a key. -/
def touches (type key : String) : ObjectMove F → Bool
  | .put t k .. | .remove t k => t == type && k == key
  | _ => false

def isWait : ObjectMove F → Bool
  | .wait _ => true
  | _ => false

def elapse (now : Instant) : ObjectMove F → Instant
  | .wait pause => now + pause
  | _ => now

end ObjectMove

namespace ObjectFamily

variable (F : ObjectFamily) {type key : String}

def codec (type : String) : ObjectCodec (F.Value type) := ⟨type, F.encode type, F.decode type⟩

theorem ofText?_text (value : F.Value type) :
    (F.codec type).ofText? ((F.codec type).text value) = some value := by
  unfold ObjectCodec.ofText? ObjectCodec.text
  rw [String.toList_ofList, Text.Base64.decode_encode]
  exact F.decode_encode type value

/-! ## Moves at a cache -/

def put (type key : String) (value : F.Value type) (ttl : Option Duration) (s : Instant × Cache) :
    Reply CacheError Unit :=
  .ofExcept (s.2.perform s.1 ((F.codec type).putCall key value ttl)).1

def get (type key : String) (s : Instant × Cache) : Reply CacheError (Option (F.Value type)) :=
  (F.codec type).readReply (.ofExcept (s.2.perform s.1 ((F.codec type).getCall key)).1)

def remove (type key : String) (s : Instant × Cache) : Reply CacheError Bool :=
  .ofExcept (s.2.perform s.1 ((F.codec type).removeCall key)).1

/-- What a move leaves behind. -/
def step (s : Instant × Cache) : ObjectMove F → Instant × Cache
  | .wait pause => (s.1 + pause, s.2)
  | .put type key value ttl => (s.1, (s.2.perform s.1 ((F.codec type).putCall key value ttl)).2)
  | .get type key => (s.1, (s.2.perform s.1 ((F.codec type).getCall key)).2)
  | .remove type key => (s.1, (s.2.perform s.1 ((F.codec type).removeCall key)).2)

def run (s : Instant × Cache) (moves : List (ObjectMove F)) : Instant × Cache :=
  moves.foldl F.step s

/-! ## Shelves -/

/-- The object of a type under a key, if it was put there, and its deadline. -/
abbrev Shelf (type : String) := Option (F.Value type × Option Instant)

/-- What lies on the shelf and is not past its deadline. -/
def Shelf.found {F : ObjectFamily} {type : String} (shelf : F.Shelf type) (now : Instant) :
    Option (F.Value type) :=
  (shelf.filter (·.2.all (now < ·))).map (·.1)

/-- What a move makes of a shelf. -/
def shelve (type key : String) (now : Instant) (shelf : F.Shelf type) : ObjectMove F → F.Shelf type
  | .put t k value ttl =>
    if h : t = type then
      if k = key then some (h ▸ value, ttl.bind now.deadline) else shelf
    else shelf
  | .remove t k => if t = type ∧ k = key then none else shelf
  | _ => shelf

theorem shelve_of_not_touches {m : ObjectMove F} (h : m.touches type key = false) (now : Instant)
    (shelf : F.Shelf type) : F.shelve type key now shelf m = shelf := by
  cases m with
  | put t k value ttl =>
      rw [ObjectMove.touches, Bool.and_eq_false_iff, beq_eq_false_iff_ne, beq_eq_false_iff_ne] at h
      dsimp only [shelve]
      by_cases ht : t = type
      · rw [dif_pos ht, if_neg (h.resolve_left (not_not_intro ht))]
      · rw [dif_neg ht]
  | remove t k =>
      rw [ObjectMove.touches, Bool.and_eq_false_iff, beq_eq_false_iff_ne, beq_eq_false_iff_ne] at h
      exact if_neg fun ⟨ht, hk⟩ => h.elim (· ht) (· hk)
  | _ => rfl

/-- The shelf after moves, the first of them at an instant. -/
def shelfAfter (type key : String) : Instant → F.Shelf type → List (ObjectMove F) → F.Shelf type
  | _, shelf, [] => shelf
  | now, shelf, m :: moves =>
    shelfAfter type key (m.elapse now) (F.shelve type key now shelf m) moves

theorem shelfAfter_of_not_touches {moves : List (ObjectMove F)}
    (h : ∀ m ∈ moves, m.touches type key = false) (now : Instant) (shelf : F.Shelf type) :
    F.shelfAfter type key now shelf moves = shelf := by
  induction moves generalizing now with
  | nil => rfl
  | cons m moves ih =>
      obtain ⟨first, rest⟩ := List.forall_mem_cons.mp h
      rw [shelfAfter, F.shelve_of_not_touches first]
      exact ih rest _

theorem fst_step (s : Instant × Cache) (m : ObjectMove F) : (F.step s m).1 = m.elapse s.1 := by
  cases m <;> rfl

/-- The cache has on a shelf what lies there. -/
structure Keeps (type key : String) (s : Instant × Cache) (shelf : F.Shelf type) : Prop where
  available : s.2.available = true
  live : ∀ later, s.1 ≤ later → s.2.live? later (CacheKey.object type key) =
    (shelf.map fun x => ⟨(F.codec type).text x.1, x.2⟩).filter (·.isLive later)

namespace Keeps

variable {F} {s : Instant × Cache} {shelf : F.Shelf type}

/-- A call on another shelf. No two shelves have the same key. -/
theorem aside (h : F.Keeps type key s shelf) {t k : String} (other : ¬(t = type ∧ k = key))
    {call : CacheCall} (hk : call.key = CacheKey.object t k) :
    F.Keeps type key (s.1, (s.2.perform s.1 call).2) shelf := by
  refine ⟨(s.2.available_perform _ _).trans h.available, fun later hn => ?_⟩
  refine (s.2.live?_perform_of_ne hn fun heq => other ?_).trans (h.live later hn)
  obtain ⟨rfl, rfl⟩ := CacheKey.eq_of_object_eq (hk.symm.trans heq)
  exact ⟨rfl, rfl⟩

theorem step (h : F.Keeps type key s shelf) (m : ObjectMove F) :
    F.Keeps type key (F.step s m) (F.shelve type key s.1 shelf m) := by
  cases m with
  | wait pause => exact ⟨h.available, fun later hn => h.live later (Nat.le_of_add_right_le hn)⟩
  | get t k =>
      have same : (s.2.perform s.1 ((F.codec t).getCall k)).2 = s.2 := by
        rw [Cache.perform_of_available h.available]
        rfl
      rw [show F.step s (.get t k) = s from Prod.ext rfl same]
      exact h
  | put t k value ttl =>
      by_cases same : t = type ∧ k = key
      · obtain ⟨rfl, rfl⟩ := same
        refine ⟨(s.2.available_perform _ _).trans h.available, fun later hn => ?_⟩
        rw [shelve, dif_pos rfl, if_pos rfl]
        exact (Cache.live?_perform h.available hn _ _).trans (if_pos rfl)
      · rw [F.shelve_of_not_touches (by simpa [ObjectMove.touches] using same)]
        exact h.aside same rfl
  | remove t k =>
      by_cases same : t = type ∧ k = key
      · obtain ⟨rfl, rfl⟩ := same
        refine ⟨(s.2.available_perform _ _).trans h.available, fun later hn => ?_⟩
        rw [shelve, if_pos ⟨rfl, rfl⟩]
        exact (Cache.live?_perform h.available hn _ _).trans (if_pos rfl)
      · rw [F.shelve_of_not_touches (by simpa [ObjectMove.touches] using same)]
        exact h.aside same rfl

theorem run (h : F.Keeps type key s shelf) (moves : List (ObjectMove F)) :
    F.Keeps type key (F.run s moves) (F.shelfAfter type key s.1 shelf moves) := by
  induction moves generalizing s shelf with
  | nil => exact h
  | cons m moves ih =>
      rw [shelfAfter, ← F.fst_step]
      exact ih (h.step m)

/-- What is found on a shelf is what the cache has under its key. -/
theorem live?_now (h : F.Keeps type key s shelf) :
    (s.2.live? s.1 (CacheKey.object type key)).map (·.value) =
      (shelf.found s.1).map (F.codec type).text := by
  rw [h.live s.1 (Nat.le_refl s.1)]
  cases shelf with
  | none => rfl
  | some x =>
      have same : CacheEntry.isLive ⟨(F.codec type).text x.1, x.2⟩ s.1 = x.2.all (s.1 < ·) := rfl
      rw [Shelf.found, Option.map_some, Option.filter_some, Option.filter_some, same]
      by_cases live : x.2.all (s.1 < ·)
      · rw [if_pos live, if_pos live]
        rfl
      · rw [if_neg live, if_neg live]
        rfl

theorem get (h : F.Keeps type key s shelf) :
    F.get type key s = .returned (shelf.found s.1) := by
  have performed : (s.2.perform s.1 ((F.codec type).getCall key)).1 =
      .ok ((shelf.found s.1).map (F.codec type).text) :=
    (Cache.perform_fst h.available s.1 _).trans (congrArg Except.ok h.live?_now)
  unfold ObjectFamily.get
  rw [performed]
  cases shelf.found s.1 with
  | none => rfl
  | some value =>
      dsimp only [Reply.ofExcept, ObjectCodec.readReply, ObjectCodec.readFound, Option.map_some]
      rw [F.ofText?_text]

theorem remove (h : F.Keeps type key s shelf) :
    F.remove type key s = .returned (shelf.found s.1).isSome := by
  have performed : (s.2.perform s.1 ((F.codec type).removeCall key)).1 =
      .ok (s.2.live? s.1 (CacheKey.object type key)).isSome :=
    Cache.perform_fst h.available s.1 _
  have found := congrArg Option.isSome h.live?_now
  rw [Option.isSome_map, Option.isSome_map] at found
  unfold ObjectFamily.remove
  rw [performed, found]
  rfl

end Keeps

variable {F}

theorem run_append (s : Instant × Cache) (before after : List (ObjectMove F)) :
    F.run s (before ++ after) = F.run (F.run s before) after := List.foldl_append

theorem fst_run (s : Instant × Cache) (moves : List (ObjectMove F)) :
    (F.run s moves).1 = moves.foldl ObjectMove.elapse s.1 := by
  induction moves generalizing s with
  | nil => rfl
  | cons m moves ih => exact (ih _).trans (congrArg (moves.foldl ObjectMove.elapse) (F.fst_step s m))

theorem keeps_start {now : Instant} {c : Cache} (available : c.available = true)
    (absent : c.live? now (CacheKey.object type key) = none) : F.Keeps type key (now, c) none :=
  ⟨available, fun _ hn => Cache.live?_eq_none absent hn⟩

/-- After a put of an object and moves at other shelves, the object is found until its deadline. -/
theorem keeps_put {s : Instant × Cache} {shelf : F.Shelf type} (h : F.Keeps type key s shelf)
    (value : F.Value type) (ttl : Option Duration) {after : List (ObjectMove F)}
    (aside : ∀ m ∈ after, m.touches type key = false) :
    F.Keeps type key (F.run (F.step s (.put type key value ttl)) after)
      (some (value, ttl.bind s.1.deadline)) := by
  have kept := (h.step (.put type key value ttl)).run after
  rwa [F.shelfAfter_of_not_touches aside, shelve, dif_pos rfl, if_pos rfl] at kept

/-- The objects of one available cache are typed maps that know nothing of each other, as long as
objects alone are put there. A get finds the value that was last put under its type and key, if it is
not past its deadline and was not removed since, and finds nothing else; a remove tells whether a get
would have found something; and what is put or removed elsewhere makes no difference to either, then
or later. -/
theorem objects_as_typed_maps (F : ObjectFamily) {now : Instant} {c : Cache}
    (available : c.available = true)
    (absent : ∀ type key, c.live? now (CacheKey.object type key) = none)
    (moves : List (ObjectMove F)) :
    let s := F.run (now, c) moves
    (∀ type key before value ttl after, moves = before ++ .put type key value ttl :: after →
      (∀ m ∈ after, m.touches type key = false) →
        let deadline := ttl.bind (F.run (now, c) before).1.deadline
        F.get type key s = .returned (if deadline.all (s.1 < ·) then some value else none)) ∧
    (∀ type key,
      ((∀ m ∈ moves, m.touches type key = false) ∨
        ∃ before after, moves = before ++ .remove type key :: after ∧
          ∀ m ∈ after, m.touches type key = false) →
        F.get type key s = .returned none) ∧
    (∀ type key, ∃ found,
      F.get type key s = .returned found ∧ F.remove type key s = .returned found.isSome) ∧
    (∀ type key value ttl, F.put type key value ttl s = .returned ()) ∧
    ∀ m : ObjectMove F, m.isWait = false → ∀ type key, m.touches type key = false → ∀ more,
      F.get type key (F.run s (m :: more)) = F.get type key (F.run s more) ∧
        F.remove type key (F.run s (m :: more)) = F.remove type key (F.run s more) := by
  intro s
  have start : ∀ type key, F.Keeps type key (now, c) none := fun type key =>
    keeps_start available (absent type key)
  refine ⟨?_, ?_, fun type key => ?_, fun type key value ttl => ?_, ?_⟩
  · intro type key before value ttl after split aside deadline
    have put := keeps_put ((start type key).run before) value ttl aside
    have reached : F.run (F.step (F.run (now, c) before) (.put type key value ttl)) after = s := by
      rw [show s = F.run (now, c) moves from rfl, split, run_append]
      rfl
    rw [reached] at put
    rw [put.get, Shelf.found, Option.filter_some]
    by_cases live : deadline.all (s.1 < ·)
    · rw [if_pos live, if_pos live]
      rfl
    · rw [if_neg live, if_neg live]
      rfl
  · rintro type key (aside | ⟨before, after, split, aside⟩)
    · have kept := (start type key).run moves
      rw [F.shelfAfter_of_not_touches aside] at kept
      exact kept.get
    · have kept := (((start type key).run before).step (.remove type key)).run after
      rw [F.shelfAfter_of_not_touches aside, shelve, if_pos ⟨rfl, rfl⟩] at kept
      rw [show s = F.run (now, c) moves from rfl, split, run_append]
      exact kept.get
  · have kept := (start type key).run moves
    exact ⟨_, kept.get, kept.remove⟩
  · have kept := (start type key).run moves
    exact congrArg Reply.ofExcept (Cache.perform_fst kept.available s.1 _)
  · intro m still type key aside more
    have kept := ((start type key).run moves).run (m :: more)
    have without := ((start type key).run moves).run more
    have clock : m.elapse s.1 = s.1 := by
      cases m with
      | wait => cases still
      | _ => rfl
    have same := fst_run s (m :: more)
    rw [List.foldl_cons, clock, ← fst_run] at same
    rw [shelfAfter, F.shelve_of_not_touches aside, clock] at kept
    rw [kept.get, kept.remove, without.get, without.remove, same]
    exact ⟨rfl, rfl⟩

/-- Two types whose names and keys run together are kept apart. -/
theorem objects_as_typed_maps_of_two :
    let F : ObjectFamily :=
      ⟨fun _ => UInt8, fun _ value => [value], fun _ bytes => bytes.head?, fun _ _ => rfl⟩
    let s := F.run (0, .empty) [.put "a" "b:1" 7 none, .put "a:b" "1" 9 (some 2), .wait 3]
    F.get "a" "b:1" s = .returned (some (7 : UInt8)) ∧ F.get "a:b" "1" s = .returned none ∧
      F.get "a" "1" s = .returned none := by
  intro F
  obtain ⟨put, unput, -⟩ := objects_as_typed_maps F (c := .empty) rfl (fun _ _ => rfl)
    [.put "a" "b:1" (7 : UInt8) none, .put "a:b" "1" (9 : UInt8) (some 2), .wait 3]
  refine ⟨put "a" "b:1" [] (7 : UInt8) none
    [.put "a:b" "1" (9 : UInt8) (some 2), .wait 3] rfl (by decide), ?_,
    unput "a" "1" (.inl (by decide))⟩
  exact put "a:b" "1" [.put "a" "b:1" (7 : UInt8) none] (9 : UInt8) (some 2) [.wait 3] rfl (by decide)

end ObjectFamily

end DurableMessaging
