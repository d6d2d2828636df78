import DurableMessaging.Proofs.Row.Document
import DurableMessaging.Proofs.Settings.Components

/-!
# Settings that were written

Settings are read back from their JSON text, every field of every section, and checked as they were.
-/

namespace DurableMessaging

open Json (Tree)
open Json.Tree (fields?_ofFields)

/-! ## Checks -/

/-- What a check may say: that settings pass, or what is invalid about them. -/
def IsCheck (said : Except SettingsError Unit) : Prop :=
  said = .ok () ∨ ∃ reason, said = .error (.invalid reason)

theorem isCheck_ite {p : Prop} [Decidable p] {reason : String} {next : Except SettingsError Unit}
    (h : IsCheck next) : IsCheck (if p then .error (.invalid reason) else next) := by
  split
  · exact .inr ⟨reason, rfl⟩
  · exact h

theorem ResendSettings.isCheck_check (s : ResendSettings) : IsCheck s.check :=
  isCheck_ite (isCheck_ite (.inl rfl))

theorem ConsumerSettings.isCheck_check (s : ConsumerSettings) : IsCheck s.check :=
  isCheck_ite (isCheck_ite (isCheck_ite (isCheck_ite (isCheck_ite (.inl rfl)))))

theorem Settings.isCheck_check (s : Settings) : IsCheck s.check := by
  unfold check
  rcases s.resend.isCheck_check with passes | ⟨reason, fails⟩
  · rw [passes]
    exact s.consumer.isCheck_check
  · rw [fails]
    exact .inr ⟨reason, rfl⟩

/-! ## Sections -/

namespace SenderSettings

theorem sound_toTree (s : SenderSettings) : s.toTree.Sound := Tree.sound_ofFields (by simp)

@[simp]
theorem ofTree?_toTree (s : SenderSettings) : ofTree? s.toTree = some s := by
  rw [ofTree?, toTree, fields?_ofFields (by rfl) (by decide)]
  simp [Json.fieldOr]

end SenderSettings

namespace ResendSettings

theorem sound_toTree (s : ResendSettings) : s.toTree.Sound := Tree.sound_ofFields (by simp)

@[simp]
theorem ofTree?_toTree (s : ResendSettings) : ofTree? s.toTree = some s := by
  rw [ofTree?, toTree, fields?_ofFields (by rfl) (by decide)]
  simp [Json.fieldOr]

end ResendSettings

namespace ConsumerSettings

theorem sound_toTree (s : ConsumerSettings) : s.toTree.Sound := Tree.sound_ofFields (by simp)

@[simp]
theorem ofTree?_toTree (s : ConsumerSettings) : ofTree? s.toTree = some s := by
  rw [ofTree?, toTree, fields?_ofFields (by rfl) (by decide)]
  simp [Json.fieldOr]

end ConsumerSettings

/-! ## Settings -/

namespace Settings

theorem sound_toTree (s : Settings) : s.toTree.Sound :=
  Tree.sound_ofFields
    (by simp [s.sender.sound_toTree, s.resend.sound_toTree, s.consumer.sound_toTree])

theorem ofTree?_toTree (s : Settings) : ofTree? s.toTree = some s := by
  rw [ofTree?, toTree, fields?_ofFields (by rfl) (by decide)]
  simp [Json.fieldOr]

theorem read?_text (s : Settings) : read? s.text = some s := by
  rw [read?, text, Tree.read?_text s.sound_toTree]
  exact s.ofTree?_toTree

theorem load_of_read? {text : String} {s : Settings} (h : read? text = some s) :
    load text = s.check.map fun _ => s := by
  rw [load, h]
  dsimp only
  cases s.check <;> rfl

/-- All settings are read back from their text, usable or not, and loading the text says of them what
their own check says. Whatever text settings were loaded from, with fields left out or unknown, they
are loaded from their own text as well. -/
theorem loads_back_from_text :
    (∀ s : Settings, read? s.text = some s ∧
      ((s.check = .ok () ∧ load s.text = .ok s) ∨
        ∃ reason, s.check = .error (.invalid reason) ∧ load s.text = .error (.invalid reason))) ∧
    ∀ (text : String) (s : Settings), load text = .ok s →
      read? s.text = some s ∧ load s.text = .ok s := by
  refine ⟨fun s => ⟨s.read?_text, ?_⟩, fun text s loaded => ⟨s.read?_text, ?_⟩⟩
  · rw [load_of_read? s.read?_text]
    rcases s.isCheck_check with passes | ⟨reason, fails⟩
    · exact .inl ⟨passes, by rw [passes]; rfl⟩
    · exact .inr ⟨reason, fails, by rw [fails]; rfl⟩
  · obtain ⟨-, passes⟩ := load_eq_ok_iff.mp loaded
    exact load_eq_ok_iff.mpr ⟨s.read?_text, passes⟩

/-- Some numbers are the highest of their width. Counters stay for good, which a text that leaves their
time out does not say. -/
theorem loads_back_highest_numbers :
    let loose := "\x7b\"consumer\": [null, 18446744073709551615, 4294967295, 31536000, null], " ++
      "\"extra\": \x7b\"scanner\": []\x7d, \"scanner\": \x7b\"min_age_ms\": 18446744073709551615\x7d\x7d"
    let s : Settings := ⟨.standard, ⟨1000, 100, 18446744073709551615⟩,
      ⟨none, 18446744073709551615, 4294967295, 31536000, none⟩⟩
    load loose = .ok s ∧ read? s.text = some s ∧ load s.text = .ok s := by
  intro loose s
  have loaded : load loose = .ok s := by decide +kernel
  exact ⟨loaded, loads_back_from_text.2 loose s loaded⟩

end Settings

end DurableMessaging
