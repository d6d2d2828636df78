import DurableMessaging.Proofs.Json.Tokens

/-!
# Trees that were written

A tree whose numbers are JSON numbers is read back from its text. A reader that expects a value takes
the text of a tree for that tree whatever is still open around it, so the trees inside one another are
read one by one.
-/

namespace DurableMessaging.Json

/-! ## Reading on -/

namespace Reader

/-- No token starts with a blank, so none is skipped in front of one. -/
theorem dropWhile_isSpace_of_scanToken {cs rest : List Char} {t : Token}
    (h : scanToken cs = some (t, rest)) : cs.dropWhile isSpace = cs := by
  cases cs with
  | nil => rfl
  | cons c cs =>
      refine List.dropWhile_cons_of_neg fun blank => ?_
      simp only [isSpace, Bool.or_eq_true, beq_iff_eq] at blank
      rcases blank with ((rfl | rfl) | rfl) | rfl <;>
        simp [scanToken, scanNumberToken, scanNumber, scanWhole, spanDigits] at h

theorem run_step {limit : Option Nat} {r r' : Reader} {cs rest : List Char} {t : Token}
    (scan : scanToken cs = some (t, rest)) (fed : r.feed limit t = some r') :
    r.run limit cs = r'.run limit rest := by
  have solid := dropWhile_isSpace_of_scanToken scan
  rw [run]
  split
  · rename_i empty
    rw [← solid, empty] at scan
    cases scan
  · rename_i found
    rw [solid] at found
    subst found
    split <;> simp_all

theorem run_nil {limit : Option Nat} {r : Reader} : r.run limit [] = r.result? := by
  rw [run]
  rfl

end Reader

/-- Where a value may come, alone or as the first item of an array. -/
def Expect.TakesValue (e : Expect) : Prop := e = .value ∨ e = .valueOrEnd

/-- Where a key may come. -/
def Expect.TakesKey (e : Expect) : Prop := e = .key ∨ e = .keyOrEnd

theorem Reader.feed_value {limit : Option Nat} {e : Expect} (he : e.TakesValue) {stack : List Frame}
    {t : Token} (ht : t ≠ .closeArray) : feed limit ⟨stack, e⟩ t = startValue limit stack t := by
  rcases he with rfl | rfl
  · rfl
  · cases t <;> first | rfl | exact absurd rfl ht

theorem Reader.feed_key {limit : Option Nat} {e : Expect} (he : e.TakesKey) {stack : List Frame}
    {key : Option String} : feed limit ⟨stack, e⟩ (.string key) = setKey key stack := by
  rcases he with rfl | rfl <;> rfl

/-! ## Trees -/

namespace Tree

/-- A tree whose numbers are JSON numbers. -/
inductive Sound : Tree → Prop
  | null : Sound .null
  | truth (b : Bool) : Sound (.truth b)
  | number {n : NumberText} (h : n.Sound) : Sound (.number n)
  | string (s : Option String) : Sound (.string s)
  | array {items : List Tree} (h : ∀ item ∈ items, Sound item) : Sound (.array items)
  | object {members : List (Option String × Tree)} (h : ∀ m ∈ members, Sound m.2) :
      Sound (.object members)

/-- Where a value may come, a reader takes the text of the tree for the tree and goes on behind it. -/
def Legible (tree : Tree) : Prop :=
  ∀ {e : Expect}, e.TakesValue → ∀ (stack : List Frame) {rest : List Char}, Stops rest →
    Reader.run none ⟨stack, e⟩ (tree.chars ++ rest) = Reader.run none (Reader.put tree stack) rest

theorem legible_of_token {tree : Tree} {t : Token} (ht : t ≠ .closeArray)
    (scan : ∀ {rest}, Stops rest → scanToken (tree.chars ++ rest) = some (t, rest))
    (start : ∀ stack, Reader.startValue none stack t = some (Reader.put tree stack)) :
    tree.Legible := by
  intro e he stack rest stop
  exact Reader.run_step (scan stop) ((Reader.feed_value he ht).trans (start stack))

/-! ### Arrays -/

theorem stops_itemChars (items : List Tree) (rest : List Char) :
    Stops (itemChars items ++ ']' :: rest) := by
  cases items with
  | nil => exact stops_cons (by decide)
  | cons item items =>
      rw [itemChars]
      exact stops_cons (by decide)

/-- The items of an array join those that were read. -/
theorem run_itemChars {items : List Tree} (legible : ∀ item ∈ items, item.Legible)
    (read : List Tree) (stack : List Frame) (rest : List Char) :
    Reader.run none ⟨.array read :: stack, .commaOrEnd⟩ (itemChars items ++ ']' :: rest) =
      Reader.run none (Reader.put (.array (read.reverse ++ items)) stack) rest := by
  induction items generalizing read with
  | nil =>
      rw [itemChars, List.nil_append, List.append_nil]
      exact Reader.run_step rfl rfl
  | cons item items ih =>
      obtain ⟨first, others⟩ := List.forall_mem_cons.mp legible
      simp only [itemChars, List.cons_append, List.append_assoc]
      calc Reader.run none ⟨.array read :: stack, .commaOrEnd⟩
            (',' :: (item.chars ++ (itemChars items ++ ']' :: rest)))
          = Reader.run none ⟨.array read :: stack, .value⟩
              (item.chars ++ (itemChars items ++ ']' :: rest)) := Reader.run_step rfl rfl
        _ = Reader.run none ⟨.array (item :: read) :: stack, .commaOrEnd⟩
              (itemChars items ++ ']' :: rest) := first (.inl rfl) _ (stops_itemChars items rest)
        _ = Reader.run none (Reader.put (.array ((item :: read).reverse ++ items)) stack) rest :=
            ih others _
        _ = Reader.run none (Reader.put (.array (read.reverse ++ item :: items)) stack) rest := by
            simp

theorem legible_array {items : List Tree} (legible : ∀ item ∈ items, item.Legible) :
    (array items).Legible := by
  intro e he stack rest stop
  have opened : Reader.feed none ⟨stack, e⟩ .openArray = some ⟨.array [] :: stack, .valueOrEnd⟩ :=
    Reader.feed_value he nofun
  cases items with
  | nil => exact (Reader.run_step rfl opened).trans (Reader.run_step rfl rfl)
  | cons item items =>
      obtain ⟨first, others⟩ := List.forall_mem_cons.mp legible
      simp only [chars, List.cons_append, List.append_assoc, List.nil_append]
      calc Reader.run none ⟨stack, e⟩ ('[' :: (item.chars ++ (itemChars items ++ ']' :: rest)))
          = Reader.run none ⟨.array [] :: stack, .valueOrEnd⟩
              (item.chars ++ (itemChars items ++ ']' :: rest)) := Reader.run_step rfl opened
        _ = Reader.run none ⟨.array [item] :: stack, .commaOrEnd⟩
              (itemChars items ++ ']' :: rest) := first (.inr rfl) _ (stops_itemChars items rest)
        _ = Reader.run none (Reader.put (.array (item :: items)) stack) rest :=
            run_itemChars others [item] stack rest

/-! ### Objects -/

theorem stops_memberChars (members : List (Option String × Tree)) (rest : List Char) :
    Stops (memberChars members ++ '\x7d' :: rest) := by
  cases members with
  | nil => exact stops_cons (by decide)
  | cons member members =>
      rw [memberChars]
      exact stops_cons (by decide)

theorem run_member {tree : Tree} (legible : tree.Legible) {e : Expect} (he : e.TakesKey)
    (key previous : Option String) (read : List (Option String × Tree)) (stack : List Frame)
    {rest : List Char} (stop : Stops rest) :
    Reader.run none ⟨.object read previous :: stack, e⟩
        (stringChars key ++ ':' :: (tree.chars ++ rest)) =
      Reader.run none ⟨.object ((key, tree) :: read) key :: stack, .commaOrEnd⟩ rest :=
  calc Reader.run none ⟨.object read previous :: stack, e⟩
        (stringChars key ++ ':' :: (tree.chars ++ rest))
      = Reader.run none ⟨.object read key :: stack, .colon⟩ (':' :: (tree.chars ++ rest)) :=
        Reader.run_step (scanToken_stringChars key _) (Reader.feed_key he)
    _ = Reader.run none ⟨.object read key :: stack, .value⟩ (tree.chars ++ rest) :=
        Reader.run_step rfl rfl
    _ = Reader.run none ⟨.object ((key, tree) :: read) key :: stack, .commaOrEnd⟩ rest :=
        legible (.inl rfl) _ stop

/-- The members of an object join those that were read. -/
theorem run_memberChars {members : List (Option String × Tree)}
    (legible : ∀ m ∈ members, m.2.Legible) (read : List (Option String × Tree))
    (previous : Option String) (stack : List Frame) (rest : List Char) :
    Reader.run none ⟨.object read previous :: stack, .commaOrEnd⟩
        (memberChars members ++ '\x7d' :: rest) =
      Reader.run none (Reader.put (.object (read.reverse ++ members)) stack) rest := by
  induction members generalizing read previous with
  | nil =>
      rw [memberChars, List.nil_append, List.append_nil]
      exact Reader.run_step rfl rfl
  | cons member members ih =>
      obtain ⟨key, tree⟩ := member
      obtain ⟨first, others⟩ := List.forall_mem_cons.mp legible
      simp only [memberChars, List.cons_append, List.append_assoc]
      calc Reader.run none ⟨.object read previous :: stack, .commaOrEnd⟩
            (',' :: (stringChars key ++
              ':' :: (tree.chars ++ (memberChars members ++ '\x7d' :: rest))))
          = Reader.run none ⟨.object read previous :: stack, .key⟩
              (stringChars key ++
                ':' :: (tree.chars ++ (memberChars members ++ '\x7d' :: rest))) :=
            Reader.run_step rfl rfl
        _ = Reader.run none ⟨.object ((key, tree) :: read) key :: stack, .commaOrEnd⟩
              (memberChars members ++ '\x7d' :: rest) :=
            run_member first (.inl rfl) _ _ _ _ (stops_memberChars members rest)
        _ = Reader.run none (Reader.put (.object (((key, tree) :: read).reverse ++ members)) stack)
              rest := ih others _ _
        _ = Reader.run none (Reader.put (.object (read.reverse ++ (key, tree) :: members)) stack)
              rest := by simp

theorem legible_object {members : List (Option String × Tree)}
    (legible : ∀ m ∈ members, m.2.Legible) : (object members).Legible := by
  intro e he stack rest stop
  have opened : Reader.feed none ⟨stack, e⟩ .openObject =
    some ⟨.object [] none :: stack, .keyOrEnd⟩ := Reader.feed_value he nofun
  cases members with
  | nil => exact (Reader.run_step rfl opened).trans (Reader.run_step rfl rfl)
  | cons member members =>
      obtain ⟨key, tree⟩ := member
      obtain ⟨first, others⟩ := List.forall_mem_cons.mp legible
      simp only [chars, List.cons_append, List.append_assoc, List.nil_append]
      calc Reader.run none ⟨stack, e⟩ ('\x7b' :: (stringChars key ++
            ':' :: (tree.chars ++ (memberChars members ++ '\x7d' :: rest))))
          = Reader.run none ⟨.object [] none :: stack, .keyOrEnd⟩ (stringChars key ++
              ':' :: (tree.chars ++ (memberChars members ++ '\x7d' :: rest))) :=
            Reader.run_step rfl opened
        _ = Reader.run none ⟨.object [(key, tree)] key :: stack, .commaOrEnd⟩
              (memberChars members ++ '\x7d' :: rest) :=
            run_member first (.inr rfl) _ _ _ _ (stops_memberChars members rest)
        _ = Reader.run none (Reader.put (.object ((key, tree) :: members)) stack) rest :=
            run_memberChars others [(key, tree)] key stack rest

/-! ### All trees -/

theorem Sound.legible {tree : Tree} (h : tree.Sound) : tree.Legible := by
  induction h with
  | null => exact legible_of_token (t := .null) nofun (fun _ => rfl) fun _ => rfl
  | truth b =>
      refine legible_of_token (t := .truth b) nofun (fun _ => ?_) fun _ => rfl
      cases b <;> rfl
  | @number n h =>
      refine legible_of_token (t := .number n) nofun (fun stop => ?_) fun _ => rfl
      exact scanToken_numberChars h stop
  | string s =>
      refine legible_of_token (t := .string s) nofun (fun _ => ?_) fun _ => rfl
      exact scanToken_stringChars s _
  | array _ ih => exact legible_array ih
  | object _ ih => exact legible_object ih

/-- What is written is read back. -/
theorem read?_text {tree : Tree} (h : tree.Sound) : read? none tree.text = some tree := by
  have read := h.legible (.inl rfl) [] stops_nil
  rw [List.append_nil] at read
  rw [read?, text, String.toList_ofList, Reader.start, read]
  exact Reader.run_nil

end Tree

end DurableMessaging.Json
