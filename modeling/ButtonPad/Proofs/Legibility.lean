import ButtonPad.Proofs.Admission
import ButtonPad.Proofs.Alphabet
import ButtonPad.Proofs.Setup
import ButtonPad.Proofs.Typing

/-! # Typed text is legible

Each key press in the log of a typed text, with left shift or without, is the character that its
stroke stands for (`Event.text`), and the rest of the log says nothing more. So the log and the
letters and digits of the text determine each other. -/
namespace ButtonPad

/-! ## The log of events -/

namespace Rig
variable {σ : Type}

theorem history_perform_one (rig : Rig σ) (e : Event) {w : World σ} (h : w.bound = .none) :
    (rig.perform [e] w).bound = .none ∧
      ∃ item, (rig.perform [e] w).history = w.history ++ [item] ∧ item.event? = some e := by
  cases e with
  | report r =>
    obtain ⟨accepted, hist⟩ := World.history_send rig.transport r w
    exact ⟨h, .sent r accepted, hist, rfl⟩
  | pause ms =>
    rw [perform_pause, World.pause_ends h]
    dsimp only
    split
    · exact ⟨h, .paused ms, World.history_write w _, rfl⟩
    · exact ⟨h, .paused ms, World.history_write w _, rfl⟩

theorem history_perform (rig : Rig σ) (events : List Event) {w : World σ} (h : w.bound = .none) :
    ∃ items : History, (rig.perform events w).history = w.history ++ items ∧
      items.events = events := by
  induction events generalizing w with
  | nil => exact ⟨[], (List.append_nil _).symm, rfl⟩
  | cons e rest ih =>
    obtain ⟨hbound, item, hone, hevent⟩ := rig.history_perform_one e h
    obtain ⟨items, hmore, hitems⟩ := ih hbound
    refine ⟨item :: items, ?_, ?_⟩
    · rw [perform_cons rig e rest h, hmore, hone, List.append_assoc]
      rfl
    · rw [History.events, List.filterMap_cons, hevent]
      exact congrArg (e :: ·) hitems

theorem eventsFrom_perform (rig : Rig σ) (events : List Event) {w : World σ}
    (h : w.bound = .none) : (rig.perform events w).eventsFrom w.journal.size = events := by
  obtain ⟨items, hist, hitems⟩ := rig.history_perform events h
  rw [← World.events_drop_history, hist, ← World.length_history, List.drop_left, hitems]

end Rig

/-! ## Reading -/

/-- The character that a key press types, with left shift or without. -/
def Report.character? : Report → Option UInt8
  | .key _ modifiers usage true =>
    if modifiers = .leftShift then Stroke.character? ⟨usage, true⟩
    else if modifiers = 0 then Stroke.character? ⟨usage, false⟩
    else none
  | _ => none

/-- The text that a log's key presses type. -/
def Event.text (log : List Event) : List UInt8 :=
  (log.filterMap Event.report?).filterMap Report.character?

@[simp] theorem Event.text_append (xs ys : List Event) : text (xs ++ ys) = text xs ++ text ys := by
  simp [text]

namespace Typing

def letters (text : List UInt8) : List UInt8 := text.filter UInt8.isASCIIAlphanum

theorem character?_press (handle : Handle) (s : Stroke) :
    Report.character? (.key handle s.modifiers s.usage true) = s.character? := by
  obtain ⟨usage, shift⟩ := s
  cases shift <;> rfl

/-- The strokes of a text stand for its letters and digits. -/
theorem map_character?_strokes (text : List UInt8) :
    (text.filterMap Stroke.ofAscii?).map Stroke.character? = (letters text).map some := by
  unfold letters
  induction text with
  | nil => rfl
  | cons c rest ih =>
    have hletter := Stroke.isSome_ofAscii? c
    cases hc : Stroke.ofAscii? c with
    | none =>
      rw [hc, Option.isSome_none] at hletter
      rw [List.filterMap_cons_none hc, List.filter_cons_of_neg (by simp [← hletter]), ih]
    | some s =>
      rw [hc, Option.isSome_some] at hletter
      rw [List.filterMap_cons_some hc, List.filter_cons_of_pos hletter.symm, List.map_cons,
        List.map_cons, ih, Stroke.character?_of_ofAscii? hc]

theorem text_strokes (t : Timing) (handle : Handle) (strokes : List Stroke) :
    Event.text (strokes.flatMap (stroke t handle)) = strokes.filterMap Stroke.character? := by
  induction strokes with
  | nil => rfl
  | cons s rest ih =>
    have hstroke : Event.text (stroke t handle s) = s.character?.toList := by
      show [Report.key handle s.modifiers s.usage true,
        .key handle s.modifiers s.usage false].filterMap Report.character? = _
      rw [List.filterMap_cons, character?_press]
      cases s.character? <;> rfl
    rw [List.flatMap_cons, Event.text_append, hstroke, ih, List.filterMap_cons]
    cases s.character? <;> rfl

theorem text_typed (t : Timing) (handle : Handle) (text : List UInt8) :
    Event.text (typed t handle text) = letters text := by
  have hmap := congrArg (List.filterMap id) (map_character?_strokes text)
  rw [List.filterMap_map, List.filterMap_map] at hmap
  calc Event.text (typed t handle text)
      = Event.text ((text.filterMap Stroke.ofAscii?).flatMap (stroke t handle)) := rfl
    _ = (text.filterMap Stroke.ofAscii?).filterMap Stroke.character? := text_strokes t handle _
    _ = (letters text).filterMap some := hmap
    _ = letters text := List.filterMap_some

theorem typed_letters (t : Timing) (handle : Handle) (text : List UInt8) :
    typed t handle (letters text) = typed t handle text := by
  have hstrokes : (letters text).filterMap Stroke.ofAscii? = text.filterMap Stroke.ofAscii? := by
    rw [letters, List.filterMap_filter]
    congr 1
    funext c
    rw [← Stroke.isSome_ofAscii?]
    cases Stroke.ofAscii? c <;> rfl
  rw [typed, typed, hstrokes]

/-- Texts are typed the same if and only if their letters and digits are the same. -/
theorem typed_eq_iff {t : Timing} {handle : Handle} {text other : List UInt8} :
    typed t handle text = typed t handle other ↔ letters text = letters other := by
  constructor
  · intro h
    rw [← text_typed t handle text, h, text_typed]
  · intro h
    rw [← typed_letters, h, typed_letters]

/-- **A log spells the text.** On any clock and with any transport, a text of more than 32
characters fails and leaves all as it was. Any other text is typed: one release of caps lock and
then, for each letter or digit in order, a press, a hold and a release of the same key under the
same modifiers. The log's text is the letters and digits of the text, and two logs are the same
exactly if these are. -/
theorem log_spells_text {σ : Type} (rig : Rig σ) (w : World σ) (t : Timing) (handle : Handle) :
    let endless : World σ := { w with bound := .none }
    let after := fun text => rig.perform (act t handle text).events endless
    let log := fun text => (after text).eventsFrom w.journal.size
    (∀ text, 32 < text.length → (act t handle text).ending = some .fail ∧ after text = endless) ∧
      (∀ text, text.length ≤ 32 → (act t handle text).ending = some .ok ∧
        (∃ strokes : List Stroke, strokes.map Stroke.character? = (letters text).map some ∧
          log text = .report (.key handle 0 .capsLock false) :: strokes.flatMap fun s =>
            [.report (.key handle s.modifiers s.usage true), .pause t.keyHold,
              .report (.key handle s.modifiers s.usage false)]) ∧
        Event.text (log text) = letters text) ∧
      (∀ text other, text.length ≤ 32 → other.length ≤ 32 →
        (log text = log other ↔ letters text = letters other)) ∧
      ∀ s c, Stroke.character? s = some c ↔ Stroke.ofAscii? c = some s := by
  intro endless after log
  have hlog : ∀ text : List UInt8, text.length ≤ 32 → log text = typed t handle text := by
    intro text hle
    have hevents : log text = (act t handle text).events :=
      rig.eventsFrom_perform _ (w := endless) rfl
    rw [hevents, act_of_le hle]
  refine ⟨fun text hlong => ?_, fun text hle => ⟨?_, ?_, ?_⟩, fun text other hle hle' => ?_,
    fun s c => Stroke.character?_eq_some_iff⟩
  · have hafter : after text = rig.perform (act t handle text).events endless := rfl
    rw [hafter, act_of_lt hlong]
    exact ⟨rfl, rfl⟩
  · rw [act_of_le hle]
  · exact ⟨_, map_character?_strokes text, hlog text hle⟩
  · rw [hlog text hle, text_typed]
  · rw [hlog text hle, hlog other hle', typed_eq_iff]

/-- The dash in the first text and the blank in the second one are not typed. -/
theorem log_spells_text_specimen :
    let first : List UInt8 := [0x61, 0x2D, 0x42, 0x31]
    let second : List UInt8 := [0x61, 0x42, 0x20, 0x31]
    let long : List UInt8 := List.replicate 33 0x61
    let log := fun text =>
      (Specimen.rig.perform (act {} 1 text).events Specimen.world).eventsFrom 0
    (first.length ≤ 32 ∧ second.length ≤ 32 ∧
      Event.text (log first) = [0x61, 0x42, 0x31] ∧ log first = log second) ∧
      32 < long.length ∧ (act {} 1 long).ending = some .fail := by
  intro first second long log
  obtain ⟨hlong, hfits, hsame, -⟩ := log_spells_text Specimen.rig Specimen.world {} 1
  have hfirst : first.length ≤ 32 := by decide
  have hsecond : second.length ≤ 32 := by decide
  have hmany : 32 < long.length := by decide
  have hletters : letters first = letters second := by decide
  obtain ⟨-, -, htext⟩ := hfits first hfirst
  obtain ⟨hfail, -⟩ := hlong long hmany
  exact ⟨⟨hfirst, hsecond, htext, (hsame first second hfirst hsecond).mpr hletters⟩, hmany, hfail⟩

end Typing

end ButtonPad
