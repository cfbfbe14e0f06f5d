import ButtonPad.Proofs.Assurance
import ButtonPad.Proofs.Course

/-! # What the counts say

The counts of sent and of refused reports keep up with the journal through every flow
(`Flow.run_tallies`). -/
namespace ButtonPad

namespace History

/-- The reports sent, and which of them were taken. -/
def deliveries (h : History) : List (Report × Bool) := h.filterMap Item.delivery?

@[simp] theorem deliveries_append (g h : History) :
    deliveries (g ++ h) = deliveries g ++ deliveries h := List.filterMap_append

end History

/-! ## Counts -/

namespace World
variable {σ : Type}

/-- From the first world to the second one the counts grew by what was written meanwhile. -/
def Tallies (w w' : World σ) : Prop :=
  ∃ more : History, w'.history = w.history ++ more ∧
    w'.sends = w.sends + more.deliveries.length ∧
    w'.failed = w.failed + more.deliveries.countP fun d => !d.2

namespace Tallies
variable {w w' w'' : World σ}

theorem of_same (hist : w'.history = w.history) (sends : w'.sends = w.sends)
    (failed : w'.failed = w.failed) : w.Tallies w' :=
  ⟨[], by simpa using hist, by simpa [History.deliveries] using sends,
    by simpa [History.deliveries] using failed⟩

theorem refl (w : World σ) : w.Tallies w := .of_same rfl rfl rfl

theorem trans (h : w.Tallies w') (h' : w'.Tallies w'') : w.Tallies w'' := by
  obtain ⟨more, hist, sends, failed⟩ := h
  obtain ⟨more', hist', sends', failed'⟩ := h'
  refine ⟨more ++ more', ?_, ?_, ?_⟩
  · rw [hist', hist, List.append_assoc]
  · rw [sends', sends, History.deliveries_append, List.length_append, Nat.add_assoc]
  · rw [failed', failed, History.deliveries_append, List.countP_append, Nat.add_assoc]

theorem counts (h : w.Tallies w') {now : History} (hist : w'.history = w.history ++ now) :
    w'.sends = w.sends + now.deliveries.length ∧
      w'.failed = w.failed + now.deliveries.countP fun d => !d.2 := by
  obtain ⟨more, hmore, hcounts⟩ := h
  rw [hist] at hmore
  rwa [List.append_cancel_left hmore]

end Tallies

theorem tallies_write (w : World σ) {item : Item} (h : item.delivery? = none) :
    w.Tallies (w.write item) :=
  ⟨[item], history_write w item, by simp [History.deliveries, h, write],
    by simp [History.deliveries, h, write]⟩

theorem tallies_send (t : Transport σ) (r : Report) (w : World σ) : w.Tallies (w.send t r) := by
  refine ⟨[.sent r (t.deliver w.surroundings r w.transport).1.isOk], ?_, rfl, ?_⟩
  · simp [send, transmit, history, write]
  · cases h : (t.deliver w.surroundings r w.transport).1.isOk <;>
      simp [send, transmit, write, History.deliveries, Item.delivery?, h]

theorem course_tallies (rig : Rig σ) : Course rig Tallies where
  refl := .refl
  trans := .trans
  write w _ h _ := tallies_write w h
  enter w phase := tallies_write { w with phase } rfl
  send w r := tallies_send rig.transport r w
  reach _ _ := .of_same rfl rfl rfl
  bound _ _ := .of_same rfl rfl rfl
  lines _ := .of_same rfl rfl rfl
  call _ := .of_same rfl rfl rfl

end World

/-- **The counts keep up with the journal**, whatever the flow does and wherever it is cut off. -/
theorem Flow.run_tallies {σ α : Type} (rig : Rig σ) (p : Flow α) (w : World σ) :
    w.Tallies (p.run rig w).2 :=
  (World.course_tallies rig).run p w

end ButtonPad
