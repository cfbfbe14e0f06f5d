import ButtonPad.World.Basic

/-! # Runs up to a limit

A run that ends at some time does what an endless run does until then, and nothing else: it comes
to the same end if the endless run is over by that time, and else it has written what the endless
run writes up to it (`Flow.endless_run`). So whatever is known of endless runs is known of all. -/
namespace ButtonPad

namespace World
variable {σ : Type}

/-- The world in a run that ends at the given time. -/
def upTo (w : World σ) (last : Nat) : World σ := { w with bound := .until last }

/-- From the first world to the second one the clock does not go back, and what is written
meanwhile has times in between. -/
structure Later (w w' : World σ) : Prop where
  now : w.now ≤ w'.now
  bound : w'.bound = w.bound
  journal : ∃ more, w'.journal.toList = w.journal.toList ++ more ∧
    ∀ e ∈ more, w.now ≤ e.time ∧ e.time ≤ w'.now

theorem Later.refl (w : World σ) : w.Later w := ⟨Nat.le_refl _, rfl, [], by simp, by simp⟩

theorem Later.trans {w w' w'' : World σ} (h : w.Later w') (h' : w'.Later w'') : w.Later w'' := by
  obtain ⟨more, hj, hm⟩ := h.journal
  obtain ⟨more', hj', hm'⟩ := h'.journal
  refine ⟨Nat.le_trans h.now h'.now, h'.bound.trans h.bound, more ++ more', ?_, ?_⟩
  · rw [hj', hj, List.append_assoc]
  · intro e he
    rcases List.mem_append.mp he with he | he
    · exact ⟨(hm e he).1, Nat.le_trans (hm e he).2 h'.now⟩
    · exact ⟨Nat.le_trans h.now (hm' e he).1, (hm' e he).2⟩

theorem later_write (w : World σ) (item : Item) : w.Later (w.write item) :=
  ⟨Nat.le_refl _, rfl, [⟨w.now, item⟩], by simp [write], by simp [write]⟩

theorem later_tell (w : World σ) (n : Note) : w.Later (w.tell n) := by
  cases n with
  | entered phase =>
    have hwrite := later_write { w with phase } (.note (.entered phase))
    exact ⟨hwrite.now, hwrite.bound, hwrite.journal⟩
  | _ => exact later_write w _

theorem later_send (t : Transport σ) (r : Report) (w : World σ) : w.Later (w.send t r) :=
  ⟨Nat.le_refl _, rfl, [⟨w.now, .sent r (t.deliver w.surroundings r w.transport).1.isOk⟩],
    by simp [send, transmit, write], by simp [send, transmit, write]⟩

theorem later_reach {w : World σ} {time : Nat} (h : w.now ≤ time) : w.Later (w.reach time) :=
  ⟨h, rfl, [], by simp [reach], by simp⟩

/-- How a run that ends at `last` comes out when an endless one goes from the first world to the
second one with this result. -/
structure CutAt {α : Type} (last : Nat) (w w' : World σ) (a : α) (cut : Option α × World σ) :
    Prop where
  whole : w'.now ≤ last → cut = (some a, w'.upTo last)
  part : last < w'.now → cut.1 = none ∧ ∃ done late,
    w'.journal.toList = w.journal.toList ++ (done ++ late) ∧
    cut.2.journal.toList = w.journal.toList ++ done ∧
    (∀ e ∈ done, e.time ≤ last) ∧ ∀ e ∈ late, last < e.time

namespace CutAt
variable {α : Type} {last : Nat} {w w₁ w' : World σ} {a : α} {cut : Option α × World σ}

theorem behind (h : w.Later w₁) (hlast : w₁.now ≤ last) (hc : CutAt last w₁ w' a cut) :
    CutAt last w w' a cut := by
  refine ⟨hc.whole, fun hlt => ?_⟩
  obtain ⟨hnone, done, late, hw', hcut, hdone, hlate⟩ := hc.part hlt
  obtain ⟨more, hmore, htimes⟩ := h.journal
  refine ⟨hnone, more ++ done, late, ?_, ?_, ?_, hlate⟩
  · rw [hw', hmore, List.append_assoc, List.append_assoc]
  · rw [hcut, hmore, List.append_assoc]
  · intro e he
    rcases List.mem_append.mp he with he | he
    · exact Nat.le_trans (htimes e he).2 hlast
    · exact hdone e he

/-- A run that ends in a wait has written all that comes before the wait, and all the rest comes
too late. -/
theorem of_wait (h : w.Later w₁) (hnow : w₁.now ≤ last) {time : Nat} (htime : last < time)
    (hrest : (w₁.reach time).Later w') : CutAt last w w' a (none, (w₁.upTo last).reach last) := by
  have hnever : ¬ w'.now ≤ last := Nat.not_le.mpr (Nat.lt_of_lt_of_le htime hrest.now)
  refine ⟨fun hle => absurd hle hnever, fun _ => ⟨rfl, ?_⟩⟩
  obtain ⟨done, hdone, hdtimes⟩ := h.journal
  obtain ⟨late, hlate, hltimes⟩ := hrest.journal
  refine ⟨done, late, ?_, hdone, fun e he => Nat.le_trans (hdtimes e he).2 hnow,
    fun e he => Nat.lt_of_lt_of_le htime (hltimes e he).1⟩
  rw [hlate, ← List.append_assoc, ← hdone]
  rfl

end CutAt

/-! ## Endless runs and their parts -/

/-- How an endless run comes out, and the runs with a limit beside it. -/
structure Endless {α : Type} (run : World σ → Option α × World σ) (w w' : World σ) (a : α) :
    Prop where
  result : run w = (some a, w')
  later : w.Later w'
  cut : ∀ last, w.now ≤ last → CutAt last w w' a (run (w.upTo last))

namespace Endless
variable {α : Type} {run run' : World σ → Option α × World σ} {w w₁ w' : World σ} {a : α}

theorem done (hrun : ∀ v, run v = (some a, v)) : Endless run w w a where
  result := hrun w
  later := .refl w
  cut last hlast := by
    rw [hrun]
    exact ⟨fun _ => rfl, fun hlt => absurd hlast (Nat.not_le.mpr hlt)⟩

theorem behind (hc : Endless run' w₁ w' a) (h : w.Later w₁) (hnow : w₁.now = w.now)
    (hrun : run w = run' w₁) (hupTo : ∀ last, run (w.upTo last) = run' (w₁.upTo last)) :
    Endless run w w' a where
  result := hrun.trans hc.result
  later := h.trans hc.later
  cut last hlast := by
    rw [hupTo]
    exact (hc.cut last (hnow ▸ hlast)).behind h (hnow ▸ hlast)

theorem bind {β : Type} {f : World σ → Option β × World σ}
    {k : β → World σ → Option α × World σ} {b : β} (h : Endless f w w₁ b)
    (hc : Endless (k b) w₁ w' a) :
    Endless (fun v => match f v with
      | (none, v) => (none, v)
      | (some b, v) => k b v) w w' a where
  result := by
    rw [h.result]
    exact hc.result
  later := h.later.trans hc.later
  cut last hlast := by
    have hfirst := h.cut last hlast
    by_cases hle : w₁.now ≤ last
    · rw [hfirst.whole hle]
      exact (hc.cut last hle).behind h.later hle
    · rw [Nat.not_le] at hle
      obtain ⟨hnone, done, late, hj, hcut, hdone, hlate⟩ := hfirst.part hle
      obtain ⟨more, hmore, hmtimes⟩ := hc.later.journal
      rcases hr : f (w.upTo last) with ⟨_ | _, v⟩
      · rw [hr] at hcut
        refine ⟨fun hw' => absurd (Nat.le_trans hc.later.now hw') (Nat.not_le.mpr hle), fun _ =>
          ⟨rfl, done, late ++ more, ?_, hcut, hdone, fun e he => ?_⟩⟩
        · rw [hmore, hj]
          simp only [List.append_assoc]
        · rcases List.mem_append.mp he with he | he
          · exact hlate e he
          · exact Nat.lt_of_lt_of_le hle (hmtimes e he).1
      · rw [hr] at hnone
        cases hnone

end Endless

theorem beginPause_endless {w : World σ} (hb : w.bound = .none) (ms : UInt32) :
    w.beginPause ms = (true, w.write (.paused ms)) := by
  simp [beginPause, hb]

theorem beginPause_upTo (w : World σ) (ms : UInt32) (last : Nat) :
    (w.upTo last).beginPause ms = (true, (w.write (.paused ms)).upTo last) := rfl

theorem waitUntil_endless {w : World σ} (hb : w.bound = .none) (time : Nat) :
    w.waitUntil time = (true, w.reach time) := by
  simp [waitUntil, hb]

theorem waitUntil_upTo (w : World σ) (time last : Nat) :
    (w.upTo last).waitUntil time =
      if last < time then (false, (w.upTo last).reach last) else (true, (w.reach time).upTo last) :=
  rfl

theorem pause_endless {w : World σ} (hb : w.bound = .none) (c : Clock) (ms : UInt32) :
    w.pause c ms = if c.ticks ms = 0 then (true, w.write (.paused ms)) else
      (w.write (.paused ms)).waitUntil ((w.write (.paused ms)).now + c.ticks ms) := by
  simp only [pause, beginPause_endless hb]

theorem pause_upTo (w : World σ) (c : Clock) (ms : UInt32) (last : Nat) :
    (w.upTo last).pause c ms = if c.ticks ms = 0 then (true, (w.write (.paused ms)).upTo last) else
      ((w.write (.paused ms)).upTo last).waitUntil ((w.write (.paused ms)).now + c.ticks ms) :=
  rfl

/-- A run that first waits comes out as it does behind the wait, unless it ends in the wait. -/
theorem Endless.wait {α : Type} {run : World σ → Option α × World σ} {w w' : World σ} {a : α}
    {time : Nat} (hc : Endless run (w.reach time) w' a) (hb : w.bound = .none)
    (htime : w.now ≤ time) :
    Endless (fun v => match v.waitUntil time with
      | (false, v) => (none, v)
      | (true, v) => run v) w w' a where
  result := by
    rw [waitUntil_endless hb]
    exact hc.result
  later := (later_reach htime).trans hc.later
  cut last hlast := by
    rw [waitUntil_upTo]
    by_cases hd : last < time
    · rw [if_pos hd]
      exact .of_wait (.refl w) hlast hd hc.later
    · rw [if_neg hd]
      exact (hc.cut last (Nat.not_lt.mp hd)).behind (later_reach htime) (Nat.not_lt.mp hd)

/-! ## Acts against the clock -/

/-- An act's deadline and the world behind the start of its timer. -/
def timed (c : Clock) (limit : UInt32) (deadline : Option Nat) (w : World σ) : Nat × World σ :=
  match deadline with
  | some time => (time, w)
  | none => (w.now + c.ticks limit, w.write (.paused limit))

theorem later_timed (c : Clock) (limit : UInt32) (deadline : Option Nat) (w : World σ) :
    w.Later (w.timed c limit deadline).2 := by
  cases deadline with
  | some time => exact .refl w
  | none => exact later_write w _

theorem now_timed (c : Clock) (limit : UInt32) (deadline : Option Nat) (w : World σ) :
    (w.timed c limit deadline).2.now = w.now := by
  cases deadline <;> rfl

theorem now_le_timed (c : Clock) (limit : UInt32) {deadline : Option Nat} {w : World σ}
    (h : ∀ time, deadline = some time → w.now ≤ time) : w.now ≤ (w.timed c limit deadline).1 := by
  cases deadline with
  | some time => exact h time rfl
  | none => exact Nat.le_add_right _ _

theorem startTimer_endless {w : World σ} (hb : w.bound = .none) (c : Clock) (limit : UInt32)
    (deadline : Option Nat) :
    w.startTimer c limit deadline =
      (some (w.timed c limit deadline).1, (w.timed c limit deadline).2) := by
  cases deadline with
  | some time => rfl
  | none => simp [startTimer, timed, beginPause_endless hb, write]

theorem startTimer_upTo (c : Clock) (limit : UInt32) (deadline : Option Nat) (w : World σ)
    (last : Nat) :
    (w.upTo last).startTimer c limit deadline =
      (some (w.timed c limit deadline).1, (w.timed c limit deadline).2.upTo last) := by
  cases deadline <;> rfl

theorem endless_timeOut {w : World σ} (hb : w.bound = .none) {deadline : Nat}
    (h : w.now ≤ deadline) : Endless (·.timeOut deadline) w (w.reach deadline) none :=
  have hend : Endless (fun v => (some none, v)) (w.reach deadline) (w.reach deadline) none :=
    .done fun _ => rfl
  hend.wait hb h

/-- An endless race comes to an end, and a race with a limit comes out beside it. -/
theorem endless_race (rig : Rig σ) (limit : UInt32) (ending : Option Outcome)
    (events : List Event) {deadline : Option Nat} {w : World σ} (hb : w.bound = .none)
    (hd : ∀ time, deadline = some time → w.now ≤ time) :
    ∃ o w', Endless (race rig limit ending events deadline) w w' o := by
  induction events generalizing deadline w with
  | nil =>
    cases ending with
    | some outcome => exact ⟨some outcome, w, .done fun _ => rfl⟩
    | none =>
      have hl := later_timed rig.clock limit deadline w
      have hle : (w.timed rig.clock limit deadline).2.now ≤ (w.timed rig.clock limit deadline).1 :=
        Nat.le_trans (Nat.le_of_eq (now_timed ..)) (now_le_timed rig.clock limit hd)
      refine ⟨none, _, (endless_timeOut (hl.bound.trans hb) hle).behind hl (now_timed ..) ?_
        fun last => ?_⟩
      · simp only [race, startTimer_endless hb]
      · simp only [race, startTimer_upTo]
  | cons e rest ih =>
    cases e with
    | report r =>
      have hl := later_send rig.transport r w
      obtain ⟨o, w', hc⟩ := ih (hl.bound.trans hb) hd
      exact ⟨o, w', hc.behind hl rfl rfl fun _ => rfl⟩
    | pause ms =>
      have hl := later_write w (.paused ms)
      have hb₁ : (w.write (.paused ms)).bound = .none := hb
      by_cases hz : rig.clock.ticks ms = 0 ∧ (!rig.clock.yields) = true
      · obtain ⟨o, w', hc⟩ := ih hb₁ hd
        refine ⟨o, w', hc.behind hl rfl ?_ fun last => ?_⟩
        · simp only [race, beginPause_endless hb, if_pos hz]
        · simp only [race, beginPause_upTo, if_pos hz]
      -- both races start the timer behind the same entry, so both have the same deadline
      · have hl₂ := hl.trans (later_timed rig.clock limit deadline (w.write (.paused ms)))
        have hnow := now_timed rig.clock limit deadline (w.write (.paused ms))
        have hle := now_le_timed rig.clock limit (w := w.write (.paused ms)) hd
        have hstart := startTimer_endless hb₁ rig.clock limit deadline
        have hstartUpTo := startTimer_upTo rig.clock limit deadline (w.write (.paused ms))
        generalize (w.write (.paused ms)).timed rig.clock limit deadline = t at *
        obtain ⟨time, w₂⟩ := t
        dsimp only at hl₂ hnow hle hstart hstartUpTo
        have hb₂ : w₂.bound = .none := hl₂.bound.trans hb
        by_cases hover : time < w₂.now + rig.clock.ticks ms ∨ deadline = some w₂.now
        · refine ⟨none, _, (endless_timeOut hb₂ (hnow ▸ hle)).behind hl₂ hnow ?_ fun last => ?_⟩
          · simp only [race, beginPause_endless hb, if_neg hz, hstart, if_pos hover]
          · simp only [race, beginPause_upTo, if_neg hz, hstartUpTo]
            exact if_pos hover
        · have hin : w₂.now + rig.clock.ticks ms ≤ time := by
            rw [not_or] at hover
            exact Nat.not_lt.mp hover.1
          have hopen : ∀ t, some time = some t → w₂.now + rig.clock.ticks ms ≤ t := by
            rintro _ ⟨⟩
            exact hin
          obtain ⟨o, w', hc⟩ := ih (w := w₂.reach (w₂.now + rig.clock.ticks ms)) hb₂ hopen
          refine ⟨o, w', (hc.wait hb₂ (Nat.le_add_right _ _)).behind hl₂ hnow ?_ fun last => ?_⟩
          · simp only [race, beginPause_endless hb, if_neg hz, hstart]
            exact if_neg hover
          · simp only [race, beginPause_upTo, if_neg hz, hstartUpTo]
            exact if_neg hover

end World

/-- **A run up to a limit is an endless run, cut off.** -/
theorem Flow.endless_run {σ α : Type} (rig : Rig σ) {p : Flow α} {w w' : World σ} {a : α}
    (hb : w.bound = .none) (hrun : p.run rig w = (some a, w')) :
    World.Endless (p.run rig) w w' a := by
  induction p generalizing w with
  | done b =>
    cases hrun
    exact .done fun _ => rfl
  | note n next ih =>
    have hl := World.later_tell w n
    refine (ih (hl.bound.trans hb) hrun).behind hl ?_ rfl fun last => ?_ <;> cases n <;> rfl
  | emit e next ih =>
    cases e with
    | report r =>
      exact (ih (w := w.send rig.transport r) hb hrun).behind (World.later_send ..) rfl rfl
        fun _ => rfl
    | pause ms =>
      have hl := World.later_write w (.paused ms)
      have hb₁ : (w.write (.paused ms)).bound = .none := hb
      have hpause := World.pause_endless hb rig.clock ms
      have hupTo := World.pause_upTo w rig.clock ms
      -- how a run goes on behind a pause, in whatever world that is
      let resume : Bool × World σ → Option α × World σ
        | (false, v) => (none, v)
        | (true, v) => next.run rig v
      by_cases hz : rig.clock.ticks ms = 0
      · simp only [run, hpause, if_pos hz] at hrun
        exact (ih hb₁ hrun).behind hl rfl (congrArg resume (hpause.trans (if_pos hz)))
          fun last => congrArg resume ((hupTo last).trans (if_pos hz))
      · simp only [run, hpause, if_neg hz, World.waitUntil_endless hb₁] at hrun
        have hrest := ih (w := (w.write (.paused ms)).reach _) hb₁ hrun
        exact (hrest.wait hb₁ (Nat.le_add_right _ _)).behind hl rfl
          (congrArg resume (hpause.trans (if_neg hz)))
          fun last => congrArg resume ((hupTo last).trans (if_neg hz))
  | handle next ih | selected next ih =>
    exact (ih _ (w := w.write _) hb hrun).behind (World.later_write ..) rfl rfl fun _ => rfl
  | lines next ih =>
    let seen := w.surroundings.read rig.source
    have hl := World.later_write { w with surroundings := seen.2 } (.read seen.1)
    let w₁ : World σ := { w with surroundings := seen.2 }.write (.read seen.1)
    have hrest := ih seen.1 (w := w₁) hb hrun
    exact hrest.behind ⟨hl.now, hl.bound, hl.journal⟩ rfl rfl fun _ => rfl
  | sent next ih => exact (ih w.sends hb hrun).behind (.refl w) rfl rfl fun _ => rfl
  | race limit act next ih =>
    have hnone : ∀ time, none = some time → w.now ≤ time := by simp
    obtain ⟨o, w₁, hrace⟩ := World.endless_race rig limit (act w.calls).ending (act w.calls).events
      (w := { w with calls := w.calls + 1 }) hb hnone
    simp only [run, hrace.result] at hrun
    have hrest := ih o (hrace.later.bound.trans hb) hrun
    refine (hrace.bind (k := fun o v => (next o).run rig v) hrest).behind
      ⟨Nat.le_refl _, rfl, [], by simp, by simp⟩ rfl ?_ fun last => ?_
    · simp only [run]
      rcases World.race rig limit _ _ none _ with ⟨_ | _, _⟩ <;> rfl
    · simp only [run, World.upTo]
      rcases World.race rig limit _ _ none _ with ⟨_ | _, _⟩ <;> rfl
  | stall => cases hrun

/-- A run in this world goes on at least until `time`. -/
def World.LastsTo {σ : Type} (w : World σ) (time : Nat) : Prop :=
  match w.bound with
  | .none => True
  | .pauses _ => False
  | .until last => time ≤ last

/-- A run that goes on long enough comes out as an endless one does. -/
theorem Flow.run_lasting {σ α : Type} (rig : Rig σ) {p : Flow α} {w w' : World σ} {a : α}
    (hrun : p.run rig { w with bound := .none } = (some a, w')) (h : w.LastsTo w'.now) :
    p.run rig w = (some a, { w' with bound := w.bound }) := by
  have hend := Flow.endless_run rig rfl hrun
  have hbound : w'.bound = .none := hend.later.bound
  obtain ⟨now, around, upcoming, transport, sends, failed, calls, phase, bound, journal⟩ := w
  cases bound with
  | none =>
    rw [hrun]
    show (some a, w') = (some a, { w' with bound := .none })
    rw [← hbound]
  | pauses left => exact absurd h id
  | «until» last =>
    have hle : w'.now ≤ last := h
    exact (hend.cut last (Nat.le_trans hend.later.now hle)).whole hle

end ButtonPad
