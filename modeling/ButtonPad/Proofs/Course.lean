import ButtonPad.World.Journal

/-! # What each move of a run keeps, every run keeps

A run is made of few kinds of moves. A relation that holds from before to behind each of them, and
goes on from one move to the next, holds from the beginning to the end of every run of every flow
(`World.Course.run`), on any clock and cut off anywhere. -/
namespace ButtonPad

/-- The phase that the item enters. -/
def Item.phase? : Item → Option Phase
  | .note (.entered phase) => some phase
  | _ => none

/-- A relation that every move of a run keeps. -/
structure World.Course {σ : Type} (rig : Rig σ) (R : World σ → World σ → Prop) : Prop where
  refl (w : World σ) : R w w
  trans {w w' w'' : World σ} (h : R w w') (h' : R w' w'') : R w w''
  write (w : World σ) {item : Item} (h : item.delivery? = none) (h' : item.phase? = none) :
    R w (w.write item)
  enter (w : World σ) (phase : Phase) : R w (w.tell (.entered phase))
  send (w : World σ) (r : Report) : R w (w.send rig.transport r)
  reach (w : World σ) (time : Nat) : R w (w.reach time)
  bound (w : World σ) (bound : Bound) : R w { w with bound }
  lines (w : World σ) : R w { w with surroundings := (w.surroundings.read rig.source).2 }
  call (w : World σ) : R w { w with calls := w.calls + 1 }

namespace World.Course
variable {σ : Type} {rig : Rig σ} {R : World σ → World σ → Prop}

theorem tell (h : Course rig R) (w : World σ) (n : Note) : R w (w.tell n) := by
  cases n with
  | entered phase => exact h.enter w phase
  | _ => exact h.write w rfl rfl

theorem waitUntil (h : Course rig R) (w : World σ) (time : Nat) : R w (w.waitUntil time).2 := by
  unfold World.waitUntil
  split
  · split <;> exact h.reach w _
  · exact h.reach w _

theorem waitForever (h : Course rig R) (w : World σ) : R w w.waitForever := by
  unfold World.waitForever
  split
  · exact h.reach w _
  · exact h.refl w

theorem beginPause (h : Course rig R) (ms : UInt32) (w : World σ) : R w (w.beginPause ms).2 := by
  unfold World.beginPause
  split
  · exact h.refl w
  · exact h.trans (h.bound w _) (h.write _ rfl rfl)
  · exact h.write w rfl rfl

theorem pause (h : Course rig R) (ms : UInt32) (w : World σ) : R w (w.pause rig.clock ms).2 := by
  have hbegun := h.beginPause ms w
  unfold World.pause
  generalize w.beginPause ms = begun at hbegun ⊢
  obtain ⟨_ | _, w'⟩ := begun
  · exact hbegun
  · dsimp only
    split
    · exact hbegun
    · exact h.trans hbegun (h.waitUntil w' _)

/-! ## Acts against the clock -/

theorem startTimer (h : Course rig R) (limit : UInt32) (deadline : Option Nat) (w : World σ) :
    R w (w.startTimer rig.clock limit deadline).2 := by
  unfold World.startTimer
  cases deadline with
  | some time => exact h.refl w
  | none =>
    have hbegun := h.beginPause limit w
    dsimp only
    generalize w.beginPause limit = begun at hbegun ⊢
    obtain ⟨_ | _, w'⟩ := begun <;> exact hbegun

theorem timeOut (h : Course rig R) (w : World σ) (deadline : Nat) :
    R w (w.timeOut deadline).2 := by
  have hwaited := h.waitUntil w deadline
  unfold World.timeOut
  generalize w.waitUntil deadline = waited at hwaited ⊢
  obtain ⟨_ | _, w'⟩ := waited <;> exact hwaited

theorem race (h : Course rig R) (limit : UInt32) (ending : Option Outcome) (events : List Event)
    (deadline : Option Nat) (w : World σ) : R w (race rig limit ending events deadline w).2 := by
  induction events generalizing deadline w with
  | nil =>
    cases ending with
    | some outcome => exact h.refl w
    | none =>
      have htimer := h.startTimer limit deadline w
      simp only [World.race]
      generalize w.startTimer rig.clock limit deadline = timer at htimer ⊢
      obtain ⟨_ | time, w'⟩ := timer
      · exact htimer
      · exact h.trans htimer (h.timeOut w' time)
  | cons e rest ih =>
    cases e with
    | report r => exact h.trans (h.send w r) (ih deadline _)
    | pause ms =>
      have hbegun := h.beginPause ms w
      simp only [World.race]
      generalize w.beginPause ms = begun at hbegun ⊢
      obtain ⟨_ | _, w₁⟩ := begun
      · exact hbegun
      dsimp only
      split
      · exact h.trans hbegun (ih deadline w₁)
      have htimer := h.trans hbegun (h.startTimer limit deadline w₁)
      generalize w₁.startTimer rig.clock limit deadline = timer at htimer ⊢
      obtain ⟨_ | time, w₂⟩ := timer
      · exact htimer
      dsimp only
      split
      · exact h.trans htimer (h.timeOut w₂ time)
      have hwaited := h.trans htimer (h.waitUntil w₂ (w₂.now + rig.clock.ticks ms))
      generalize w₂.waitUntil (w₂.now + rig.clock.ticks ms) = waited at hwaited ⊢
      obtain ⟨_ | _, w₃⟩ := waited
      · exact hwaited
      · exact h.trans hwaited (ih (some time) w₃)

/-! ## Flows -/

/-- **What each move keeps, every run keeps.** -/
theorem run {α : Type} (h : Course rig R) (p : Flow α) (w : World σ) : R w (p.run rig w).2 := by
  induction p generalizing w with
  | done a => exact h.refl w
  | note n next ih => exact h.trans (h.tell w n) (ih _)
  | emit e next ih =>
    cases e with
    | report r => exact h.trans (h.send w r) (ih _)
    | pause ms =>
      have hpause := h.pause ms w
      simp only [Flow.run]
      generalize w.pause rig.clock ms = paused at hpause ⊢
      obtain ⟨_ | _, w'⟩ := paused
      · exact hpause
      · exact h.trans hpause (ih w')
  | handle next ih | selected next ih => exact h.trans (h.write w rfl rfl) (ih _ _)
  | lines next ih => exact h.trans (h.lines w) (h.trans (h.write _ rfl rfl) (ih _ _))
  | sent next ih => exact ih w.sends w
  | race limit act next ih =>
    have hrace := h.trans (h.call w) (h.race limit (act w.calls).ending (act w.calls).events none
      { w with calls := w.calls + 1 })
    simp only [Flow.run]
    generalize World.race rig limit (act w.calls).ending (act w.calls).events none
      { w with calls := w.calls + 1 } = raced at hrace ⊢
    obtain ⟨_ | o, w'⟩ := raced
    · exact hrace
    · exact h.trans hrace (ih o w')
  | stall => exact h.waitForever w

end World.Course

end ButtonPad
