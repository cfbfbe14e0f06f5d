import ButtonPad.Player.Run
import ButtonPad.Proofs.Outlook
import ButtonPad.World.Journal

/-! # Whom a run addresses

A run notes each session that it looks up. On a clock that does not go back the session noted is
the one of the time of the note (`World.Candid`, `Flow.run_candid`), whatever the flow does,
whatever becomes of the session, and wherever the run is cut off. -/
namespace ButtonPad

namespace Clock

/-- No run ends before it begins. -/
def Forward (c : Clock) : Prop := ∀ now limit last, c.bound now limit = .until last → now ≤ last

theorem forward_instant : instant.Forward := by
  intro now limit last h
  cases h

theorem forward_milliseconds : milliseconds.Forward := by
  intro now limit last h
  cases h
  exact Nat.le_add_right _ _

theorem forward_board : board.Forward := by
  intro now limit last h
  cases h
  exact Nat.le_add_right _ _

end Clock

/-- If the entry tells of a session, it is the one of its time. -/
def Entry.Candid (session : Nat → Handle) (e : Entry) : Prop :=
  ∀ handle, e.item = .addressed handle → handle = session e.time

namespace World
variable {σ : Type}

/-- These sessions are to come, the run is not over, and what was noted from some entry on about
sessions is so. -/
structure Candid (session : Nat → Handle) (n : Nat) (w : World σ) : Prop where
  faces : w.Faces (·.link.handle) session
  going : ∀ last, w.bound = .until last → w.now ≤ last
  noted : ∀ e ∈ w.entriesFrom n, e.Candid session

namespace Candid
variable {session : Nat → Handle} {n : Nat} {w : World σ}

theorem noted_push (h : w.Candid session n) (item : Item)
    (hitem : Entry.Candid session ⟨w.now, item⟩) {journal : Array Entry}
    (hjournal : journal = w.journal.push ⟨w.now, item⟩) :
    ∀ e ∈ journal.toList.drop n, e.Candid session := by
  intro e he
  rw [hjournal, Array.toList_push, List.drop_append] at he
  rcases List.mem_append.mp he with hold | hnew
  · exact h.noted e hold
  · rwa [List.mem_singleton.mp (List.mem_of_mem_drop hnew)]

theorem write (h : w.Candid session n) {item : Item}
    (hitem : Entry.Candid session ⟨w.now, item⟩) : (w.write item).Candid session n where
  faces := ⟨h.faces.now, h.faces.later⟩
  going := h.going
  noted := h.noted_push item hitem rfl

theorem addressed (h : w.Candid session n) :
    (w.write (.addressed w.surroundings.link.handle)).Candid session n := by
  refine h.write ?_
  rintro handle ⟨⟩
  exact h.faces.now

theorem polled (h : w.Candid session n) (app : AppId) : (w.write (.polled app)).Candid session n :=
  h.write nofun

theorem tell (h : w.Candid session n) (note : Note) : (w.tell note).Candid session n := by
  cases note with
  | entered phase =>
    have hentered : World.Candid session n { w with phase } :=
      ⟨⟨h.faces.now, h.faces.later⟩, h.going, h.noted⟩
    exact hentered.write nofun
  | _ => exact h.write nofun

theorem send (h : w.Candid session n) (t : Transport σ) (r : Report) :
    (w.send t r).Candid session n where
  faces := ⟨h.faces.now, h.faces.later⟩
  going := h.going
  noted := h.noted_push (.sent r (t.deliver w.surroundings r w.transport).1.isOk) nofun rfl

theorem lines (h : w.Candid session n) (source : Source) (snapshot : Snapshot) :
    World.Candid session n
      ({ w with surroundings := (w.surroundings.read source).2 }.write (.read snapshot)) :=
  have hread : World.Candid session n { w with surroundings := (w.surroundings.read source).2 } :=
    ⟨h.faces.read source, h.going, h.noted⟩
  hread.write nofun

/-! ## Time -/

theorem reach (h : w.Candid session n) {time : Nat} (htime : w.now ≤ time)
    (hgoing : ∀ last, w.bound = .until last → time ≤ last) : (w.reach time).Candid session n where
  faces := h.faces.reach htime
  going := hgoing
  noted := h.noted

theorem waitUntil (h : w.Candid session n) {time : Nat} (htime : w.now ≤ time) :
    (w.waitUntil time).2.Candid session n ∧
      ((w.waitUntil time).1 = true → (w.waitUntil time).2.now = time) := by
  unfold World.waitUntil
  split
  next last hbound =>
    split
    next hover =>
      refine ⟨h.reach (h.going last hbound) ?_, nofun⟩
      rw [hbound]
      rintro _ ⟨⟩
      exact Nat.le_refl _
    next hin =>
      refine ⟨h.reach htime ?_, fun _ => rfl⟩
      rw [hbound]
      rintro _ ⟨⟩
      exact Nat.not_lt.mp hin
  next hbound => exact ⟨h.reach htime fun last hlast => absurd hlast (hbound last), fun _ => rfl⟩

theorem waitForever (h : w.Candid session n) : w.waitForever.Candid session n := by
  unfold World.waitForever
  split
  next last hbound =>
    refine h.reach (h.going last hbound) ?_
    rw [hbound]
    rintro _ ⟨⟩
    exact Nat.le_refl _
  next => exact h

theorem beginPause (h : w.Candid session n) (ms : UInt32) :
    (w.beginPause ms).2.Candid session n ∧ (w.beginPause ms).2.now = w.now := by
  unfold World.beginPause
  split
  next => exact ⟨h, rfl⟩
  next left hbound =>
    have hleft : World.Candid session n { w with bound := .pauses left } :=
      ⟨⟨h.faces.now, h.faces.later⟩, nofun, h.noted⟩
    exact ⟨hleft.write nofun, rfl⟩
  next => exact ⟨h.write nofun, rfl⟩

theorem pause (h : w.Candid session n) (c : Clock) (ms : UInt32) :
    (w.pause c ms).2.Candid session n := by
  obtain ⟨hbegun, -⟩ := h.beginPause ms
  unfold World.pause
  generalize w.beginPause ms = begun at hbegun ⊢
  obtain ⟨_ | _, w'⟩ := begun
  · exact hbegun
  · dsimp only
    split
    · exact hbegun
    · exact (hbegun.waitUntil (Nat.le_add_right _ _)).1

/-! ## Acts against the clock -/

theorem startTimer (h : w.Candid session n) (c : Clock) (limit : UInt32) {deadline : Option Nat}
    (hd : ∀ time, deadline = some time → w.now ≤ time) :
    (w.startTimer c limit deadline).2.Candid session n ∧
      (w.startTimer c limit deadline).2.now = w.now ∧
      ∀ time, (w.startTimer c limit deadline).1 = some time → w.now ≤ time := by
  unfold World.startTimer
  cases deadline with
  | some time => exact ⟨h, rfl, hd⟩
  | none =>
    obtain ⟨hbegun, hnow⟩ := h.beginPause limit
    dsimp only
    generalize w.beginPause limit = begun at hbegun hnow ⊢
    obtain ⟨_ | _, w'⟩ := begun
    · exact ⟨hbegun, hnow, nofun⟩
    · refine ⟨hbegun, hnow, ?_⟩
      rintro time ⟨⟩
      exact hnow ▸ Nat.le_add_right _ _

theorem timeOut (h : w.Candid session n) {deadline : Nat} (hd : w.now ≤ deadline) :
    (w.timeOut deadline).2.Candid session n := by
  obtain ⟨hwaited, -⟩ := h.waitUntil hd
  unfold World.timeOut
  generalize w.waitUntil deadline = waited at hwaited ⊢
  obtain ⟨_ | _, w'⟩ := waited <;> exact hwaited

theorem race (rig : Rig σ) (limit : UInt32) (ending : Option Outcome) (events : List Event)
    {deadline : Option Nat} {w : World σ} (h : w.Candid session n)
    (hd : ∀ time, deadline = some time → w.now ≤ time) :
    (World.race rig limit ending events deadline w).2.Candid session n := by
  -- the deadline lies ahead all the time
  induction events generalizing deadline w with
  | nil =>
    cases ending with
    | some outcome => exact h
    | none =>
      obtain ⟨htimer, hnow, htime⟩ := h.startTimer rig.clock limit hd
      simp only [World.race]
      generalize w.startTimer rig.clock limit deadline = timer at htimer hnow htime ⊢
      obtain ⟨_ | time, w'⟩ := timer
      · exact htimer
      · exact htimer.timeOut (hnow ▸ htime time rfl)
  | cons e rest ih =>
    cases e with
    | report r => exact ih (h.send rig.transport r) hd
    | pause ms =>
      obtain ⟨hbegun, hnow⟩ := h.beginPause ms
      simp only [World.race]
      generalize w.beginPause ms = begun at hbegun hnow ⊢
      obtain ⟨_ | _, w₁⟩ := begun
      · exact hbegun
      rw [← hnow] at hd
      dsimp only
      split
      · exact ih hbegun hd
      obtain ⟨htimer, hnow₂, htime⟩ := hbegun.startTimer rig.clock limit hd
      generalize w₁.startTimer rig.clock limit deadline = timer at htimer hnow₂ htime ⊢
      obtain ⟨_ | time, w₂⟩ := timer
      · exact htimer
      rw [← hnow₂] at htime
      dsimp only
      split
      · exact htimer.timeOut (htime time rfl)
      next hin =>
        obtain ⟨hwaited, hreached⟩ :=
          htimer.waitUntil (Nat.le_add_right w₂.now (rig.clock.ticks ms))
        generalize w₂.waitUntil (w₂.now + rig.clock.ticks ms) = waited at hwaited hreached ⊢
        obtain ⟨_ | _, w₃⟩ := waited
        · exact hwaited
        · refine ih hwaited ?_
          rintro _ ⟨⟩
          exact hreached rfl ▸ Nat.not_lt.mp (not_or.mp hin).1

end Candid

theorem candid_startRun (w : World σ) {c : Clock} (hc : c.Forward) (limit : Nat) :
    (w.startRun c limit).Candid w.sessionAt w.journal.size where
  faces := { w with bound := c.bound w.now limit }.sessionAt_faces w.now
  going last hlast := hc w.now limit last hlast
  noted e he := by
    have hnone : (w.startRun c limit).entriesFrom w.journal.size = [] :=
      List.drop_eq_nil_of_le (Nat.le_of_eq Array.length_toList)
    rw [hnone] at he
    cases he

end World

/-- **A run addresses the session of its time**: a session that it notes is the one that was begun
last by then. -/
theorem Flow.run_candid {σ α : Type} (rig : Rig σ) (p : Flow α) {session : Nat → Handle} {n : Nat}
    {w : World σ} (h : w.Candid session n) : (p.run rig w).2.Candid session n := by
  induction p generalizing w with
  | done a => exact h
  | note note next ih => exact ih (h.tell note)
  | emit e next ih =>
    cases e with
    | report r => exact ih (h.send rig.transport r)
    | pause ms =>
      have hpause := h.pause rig.clock ms
      simp only [Flow.run]
      generalize w.pause rig.clock ms = paused at hpause ⊢
      obtain ⟨_ | _, w'⟩ := paused
      · exact hpause
      · exact ih hpause
  | handle next ih => exact ih _ h.addressed
  | selected next ih => exact ih _ (h.polled _)
  | lines next ih => exact ih _ (h.lines rig.source _)
  | sent next ih => exact ih w.sends h
  | race limit act next ih =>
    have hcalled : World.Candid session n { w with calls := w.calls + 1 } :=
      ⟨⟨h.faces.now, h.faces.later⟩, h.going, h.noted⟩
    have hnone : ∀ time, none = some time → w.now ≤ time := by
      intro time htime
      cases htime
    have hrace := hcalled.race rig limit (act w.calls).ending (act w.calls).events hnone
    simp only [Flow.run]
    generalize World.race rig limit (act w.calls).ending (act w.calls).events none
      { w with calls := w.calls + 1 } = raced at hrace ⊢
    obtain ⟨_ | o, w'⟩ := raced
    · exact hrace
    · exact ih o hrace
  | stall => exact h.waitForever

end ButtonPad
