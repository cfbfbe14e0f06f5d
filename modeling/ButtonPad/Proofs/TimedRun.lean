import ButtonPad.Proofs.Cutoff
import ButtonPad.Proofs.InstantRun
import ButtonPad.Proofs.Performance

/-! # Endless runs show the performance

On the clock of milliseconds a flow shows its sights each at its own time. `Flow.Shows` says what an
endless run comes to: this result, these sights, so many special actions called, and over at this
time. It composes along `>>=` as the times do, and a command of an accepted setup shows the
performance of its row and its summary (`Player.command_shows`). -/
namespace ButtonPad

/-- Entries in time and late ones are told apart by the times of their sights. -/
theorem sights_due {done late : List Entry} {last : Nat} (hdone : ∀ e ∈ done, e.time ≤ last)
    (hlate : ∀ e ∈ late, last < e.time) :
    ((done ++ late).filterMap Entry.sight?).filter (·.1 ≤ last) =
      done.filterMap Entry.sight? := by
  have htime : ∀ {entries : List Entry} {x}, x ∈ entries.filterMap Entry.sight? →
      ∃ e ∈ entries, x.1 = e.time := by
    intro entries x hx
    obtain ⟨e, he, hs⟩ := List.mem_filterMap.mp hx
    obtain ⟨sight, -, rfl⟩ := Option.map_eq_some_iff.mp hs
    exact ⟨e, he, rfl⟩
  rw [List.filterMap_append, List.filter_append, List.filter_eq_self.mpr,
    List.filter_eq_nil_iff.mpr, List.append_nil]
  · intro x hx
    obtain ⟨e, he, hxe⟩ := htime hx
    simpa [hxe] using hlate e he
  · intro x hx
    obtain ⟨e, he, hxe⟩ := htime hx
    simpa [hxe] using hdone e he

namespace World
variable {σ : Type}

/-- From the first world to the second one these sights were shown and so many special actions were
called. It `ends` then, and what is to come is still the same. -/
structure Passed (w w' : World σ) (sights : List (Nat × Sight)) (calls ends : Nat) : Prop where
  entries : ∃ more, w'.journal.toList = w.journal.toList ++ more ∧
    more.filterMap Entry.sight? = sights
  sends : w'.sends = w.sends + (Sight.reports sights).length
  calls : w'.calls = w.calls + calls
  now : w'.now = ends
  le : w.now ≤ ends
  faces : ∀ {β : Type} {view : Surroundings → β} {ahead : Nat → β}, w.Faces view ahead →
    w'.Faces view ahead
  bound : w'.bound = w.bound

theorem Passed.refl (w : World σ) : w.Passed w [] 0 w.now :=
  ⟨⟨[], by simp, rfl⟩, rfl, rfl, rfl, Nat.le_refl _, id, rfl⟩

theorem Passed.trans {w w' w'' : World σ} {sights sights' : List (Nat × Sight)}
    {calls calls' ends ends' : Nat} (h : w.Passed w' sights calls ends)
    (h' : w'.Passed w'' sights' calls' ends') :
    w.Passed w'' (sights ++ sights') (calls + calls') ends' := by
  obtain ⟨more, hj, hs⟩ := h.entries
  obtain ⟨more', hj', hs'⟩ := h'.entries
  refine ⟨⟨more ++ more', ?_, ?_⟩, ?_, ?_, h'.now, ?_, fun hf => h'.faces (h.faces hf), ?_⟩
  · rw [hj', hj, List.append_assoc]
  · rw [List.filterMap_append, hs, hs']
  · rw [h'.sends, h.sends, Sight.reports_append, List.length_append, Nat.add_assoc]
  · rw [h'.calls, h.calls, Nat.add_assoc]
  · exact Nat.le_trans h.le (h.now ▸ h'.le)
  · rw [h'.bound, h.bound]

theorem sightsFrom_behind {w w' : World σ} {more : List Entry}
    (h : w'.journal.toList = w.journal.toList ++ more) {n : Nat} (hn : n ≤ w.journal.size) :
    w'.sightsFrom n = w.sightsFrom n ++ more.filterMap Entry.sight? := by
  rw [sightsFrom, entriesFrom, h, List.drop_append_of_le_length (by simpa using hn),
    List.filterMap_append]
  rfl

theorem Passed.sightsFrom {w w' : World σ} {sights : List (Nat × Sight)} {calls ends : Nat}
    (h : w.Passed w' sights calls ends) {n : Nat} (hn : n ≤ w.journal.size) :
    w'.sightsFrom n = w.sightsFrom n ++ sights := by
  obtain ⟨more, hj, rfl⟩ := h.entries
  exact sightsFrom_behind hj hn

theorem Passed.size_le {w w' : World σ} {sights : List (Nat × Sight)} {calls ends : Nat}
    (h : w.Passed w' sights calls ends) : w.journal.size ≤ w'.journal.size := by
  obtain ⟨more, hj, -⟩ := h.entries
  rw [← Array.length_toList, ← Array.length_toList, hj, List.length_append]
  exact Nat.le_add_right _ _

theorem sightsFrom_size (w : World σ) : w.sightsFrom w.journal.size = [] := by
  rw [sightsFrom, entriesFrom, List.drop_eq_nil_of_le (by simp)]
  rfl

theorem Passed.reportsFrom {w w' : World σ} {sights : List (Nat × Sight)} {calls ends : Nat}
    (h : w.Passed w' sights calls ends) :
    w'.reportsFrom w.journal.size = Sight.reports sights := by
  rw [← reports_sightsFrom, h.sightsFrom (Nat.le_refl _), sightsFrom_size, List.nil_append]

theorem passed_write (w : World σ) (item : Item) (h : item.delivery? = none) :
    w.Passed (w.write item) (item.sight?.map (w.now, ·)).toList 0 w.now := by
  refine ⟨⟨[⟨w.now, item⟩], by simp [write], ?_⟩, ?_, rfl, rfl, Nat.le_refl _,
    fun hf => ⟨hf.now, hf.later⟩, rfl⟩
  · cases hs : item.sight? <;> simp [Entry.sight?, hs]
  · have hnone : ∀ r, item.sight? ≠ some (.report r) := by
      intro r hr
      cases item with
      | sent r accepted => cases h
      | note n =>
        cases n with
        | entered phase => cases phase <;> cases hr
        | _ => cases hr
      | _ => cases hr
    cases hs : item.sight? with
    | none => rfl
    | some sight =>
      cases sight with
      | report r => exact absurd hs (hnone r)
      | _ => rfl

theorem passed_tell (w : World σ) (n : Note) :
    w.Passed (w.tell n) ((Item.note n).sight?.map (w.now, ·)).toList 0 w.now := by
  have hwrite := w.passed_write (.note n) rfl
  cases n with
  | entered phase =>
    exact ⟨hwrite.entries, hwrite.sends, hwrite.calls, hwrite.now, hwrite.le,
      fun hf => ⟨hf.now, hf.later⟩, hwrite.bound⟩
  | _ => exact hwrite

theorem passed_send (t : Transport σ) (r : Report) (w : World σ) :
    w.Passed (w.send t r) [(w.now, .report r)] 0 w.now :=
  ⟨⟨[⟨w.now, .sent r (t.deliver w.surroundings r w.transport).1.isOk⟩],
    by simp [send, transmit, write], rfl⟩, rfl, rfl, rfl, Nat.le_refl _,
    fun hf => ⟨hf.now, hf.later⟩, rfl⟩

theorem passed_reach {w : World σ} {time : Nat} (h : w.now ≤ time) :
    w.Passed (w.reach time) [] 0 time :=
  ⟨⟨[], by simp [reach], rfl⟩, rfl, rfl, rfl, h, fun hf => hf.reach h, rfl⟩

theorem passed_pause (ms : UInt32) {w : World σ} (hb : w.bound = .none) :
    ∃ w', w.pause .milliseconds ms = (true, w') ∧ w.Passed w' [] 0 (w.now + ms.toNat) := by
  have hbegun := w.passed_write (.paused ms) rfl
  have hb₁ : (w.write (.paused ms)).bound = .none := hb
  have hpause := pause_endless hb .milliseconds ms
  by_cases hz : ms.toNat = 0
  · refine ⟨w.write (.paused ms), hpause.trans (if_pos hz), ?_⟩
    rw [hz]
    exact hbegun
  · refine ⟨(w.write (.paused ms)).reach (w.now + ms.toNat),
      (hpause.trans (if_neg hz)).trans (waitUntil_endless hb₁ _), ?_⟩
    exact hbegun.trans (passed_reach (Nat.le_add_right _ _))

/-! ## Acts against the clock -/

section Race
variable (transport : Transport σ) (source : Source) (limit : UInt32) (ending : Option Outcome)

theorem timeOut_endless {w : World σ} (hb : w.bound = .none) (deadline : Nat) :
    w.timeOut deadline = (some none, w.reach deadline) := by
  simp [timeOut, waitUntil_endless hb]

/-- What the timer writes is no sight. -/
theorem passed_timed (c : Clock) (limit : UInt32) (deadline : Option Nat) (w : World σ) :
    w.Passed (w.timed c limit deadline).2 [] 0 w.now := by
  cases deadline with
  | some time => exact .refl w
  | none => exact w.passed_write (.paused limit) rfl

/-- An act that would wait behind its deadline is given up there, and else it waits. -/
theorem race_pause {ms : UInt32} (hms : ms.toNat ≠ 0) (rest : List Event) {deadline : Option Nat}
    {w : World σ} (hb : w.bound = .none) {time : Nat}
    (htime : deadline.getD (w.now + limit.toNat) = time) :
    ∃ w' : World σ, (∀ later, w.now ≤ later → w.Passed (w'.reach later) [] 0 later) ∧
      race ⟨.milliseconds, transport, source⟩ limit ending (.pause ms :: rest) deadline w =
        if time < w.now + ms.toNat then (some none, w'.reach time)
        else race ⟨.milliseconds, transport, source⟩ limit ending rest (some time)
          (w'.reach (w.now + ms.toNat)) := by
  have hticks : Clock.milliseconds.ticks ms = ms.toNat := rfl
  have hb₁ : (w.write (.paused ms)).bound = .none := hb
  have hstart := startTimer_endless hb₁ .milliseconds limit deadline
  have htimed := passed_timed .milliseconds limit deadline (w.write (.paused ms))
  have hfirst : ((w.write (.paused ms)).timed .milliseconds limit deadline).1 = time := by
    rw [← htime]
    cases deadline <;> rfl
  rw [hfirst] at hstart
  generalize ((w.write (.paused ms)).timed .milliseconds limit deadline).2 = w₂ at hstart htimed
  have hb₂ : w₂.bound = .none := htimed.bound.trans hb
  have hnow : w₂.now = w.now := htimed.now
  have hbegun : w.Passed w₂ [] 0 w.now := (w.passed_write (.paused ms) rfl).trans htimed
  refine ⟨w₂, fun later hle => hbegun.trans (passed_reach (hnow ▸ hle)), ?_⟩
  simp only [race, beginPause_endless hb, hticks, hms, false_and, if_false, hstart, hnow]
  by_cases hlt : time < w.now + ms.toNat
  · rw [if_pos hlt, if_pos (.inl hlt), timeOut_endless hb₂]
  · have hopen : ¬(time < w.now + ms.toNat ∨ deadline = some w.now) := by
      rintro (h | rfl)
      · exact hlt h
      · simp only [Option.getD_some] at htime
        omega
    rw [if_neg hlt, if_neg hopen, waitUntil_endless hb₂]

/-- A pause of no time at all does not even start the timer. -/
theorem race_idle {ms : UInt32} (hms : ms.toNat = 0) (rest : List Event) (deadline : Option Nat)
    {w : World σ} (hb : w.bound = .none) :
    race ⟨.milliseconds, transport, source⟩ limit ending (.pause ms :: rest) deadline w =
      race ⟨.milliseconds, transport, source⟩ limit ending rest deadline
        (w.write (.paused ms)) := by
  have hticks : Clock.milliseconds.ticks ms = 0 := hms
  simp only [race, beginPause_endless hb, hticks]
  rfl

/-- An act that is over by its deadline shows all that it does, even what is due at the deadline
itself. -/
theorem race_inTime (outcome : Outcome) (events : List Event) (deadline : Option Nat)
    {w : World σ} (hb : w.bound = .none)
    (hin : w.now + Event.total events ≤ deadline.getD (w.now + limit.toNat)) :
    ∃ w', race ⟨.milliseconds, transport, source⟩ limit (some outcome) events deadline w =
        (some (some outcome), w') ∧
      w.Passed w' (Sight.sent (Event.stampFrom w.now events)) 0 (w.now + Event.total events) := by
  induction events generalizing deadline w with
  | nil => exact ⟨w, rfl, .refl w⟩
  | cons e rest ih =>
    cases e with
    | report r =>
      rw [Event.total_report] at hin ⊢
      obtain ⟨w', hrun, hp⟩ := ih deadline (w := w.send transport r) hb hin
      exact ⟨w', hrun, (passed_send transport r w).trans hp⟩
    | pause ms =>
      rw [Event.total_pause, ← Nat.add_assoc] at hin ⊢
      by_cases hms : ms.toNat = 0
      · simp only [Event.stampFrom, hms, Nat.add_zero] at hin ⊢
        obtain ⟨w', hrun, hp⟩ := ih deadline (w := w.write (.paused ms)) hb hin
        refine ⟨w', ?_, (w.passed_write (.paused ms) rfl).trans hp⟩
        rw [race_idle transport source limit _ hms rest deadline hb]
        exact hrun
      · obtain ⟨w₂, hreach, hpause⟩ :=
          race_pause transport source limit (some outcome) hms rest hb rfl
        have hwait := hreach (w.now + ms.toNat) (Nat.le_add_right _ _)
        obtain ⟨w', hrun, hp⟩ := ih (some _) (w := w₂.reach (w.now + ms.toNat))
          (hwait.bound.trans hb) hin
        refine ⟨w', ?_, hwait.trans hp⟩
        rw [hpause, if_neg (by omega)]
        exact hrun

/-- An act that is not over by its deadline shows what is due until then, the deadline included,
and nothing later. -/
theorem race_cutOff {ending : Option Outcome} (events : List Event) (deadline : Option Nat)
    {w : World σ} (hb : w.bound = .none) {time : Nat}
    (htime : deadline.getD (w.now + limit.toNat) = time) (hle : w.now ≤ time)
    (hlate : ending = none ∨ time < w.now + Event.total events) :
    ∃ w', race ⟨.milliseconds, transport, source⟩ limit ending events deadline w =
        (some none, w') ∧
      w.Passed w' (Sight.sent ((Event.stampFrom w.now events).filter (·.1 ≤ time))) 0 time := by
  induction events generalizing deadline w with
  | nil =>
    have hnone : ending = none := hlate.resolve_right (Nat.not_lt.mpr hle)
    subst hnone
    have htimed := passed_timed .milliseconds limit deadline w
    have hfirst : (w.timed .milliseconds limit deadline).1 = time := by
      rw [← htime]
      cases deadline <;> rfl
    refine ⟨(w.timed .milliseconds limit deadline).2.reach time, ?_, ?_⟩
    · simp only [race, startTimer_endless hb, hfirst]
      exact timeOut_endless (htimed.bound.trans hb) time
    · exact htimed.trans (passed_reach (by rw [htimed.now]; exact hle))
  | cons e rest ih =>
    cases e with
    | report r =>
      rw [Event.total_report] at hlate
      obtain ⟨w', hrun, hp⟩ := ih deadline (w := w.send transport r) hb htime hle hlate
      refine ⟨w', hrun, ?_⟩
      have hdue : (Event.stampFrom w.now (.report r :: rest)).filter (·.1 ≤ time) =
          (w.now, r) :: (Event.stampFrom w.now rest).filter (·.1 ≤ time) := by
        simp [Event.stampFrom, hle]
      rw [hdue]
      exact (passed_send transport r w).trans hp
    | pause ms =>
      rw [Event.total_pause, ← Nat.add_assoc] at hlate
      by_cases hms : ms.toNat = 0
      · simp only [Event.stampFrom, hms, Nat.add_zero] at hlate ⊢
        obtain ⟨w', hrun, hp⟩ := ih deadline (w := w.write (.paused ms)) hb htime hle hlate
        refine ⟨w', ?_, (w.passed_write (.paused ms) rfl).trans hp⟩
        rw [race_idle transport source limit _ hms rest deadline hb]
        exact hrun
      · obtain ⟨w₂, hreach, hpause⟩ := race_pause transport source limit ending hms rest hb htime
        rw [hpause]
        -- behind a pause that goes past the deadline nothing is due any more
        by_cases hlt : time < w.now + ms.toNat
        · have hnone : (Event.stampFrom w.now (.pause ms :: rest)).filter (·.1 ≤ time) = [] :=
            filter_late (fun x hx =>
              (Event.stampFrom_bounds (show x ∈ Event.stampFrom _ rest from hx)).1) hlt
          rw [if_pos hlt, hnone]
          exact ⟨_, rfl, hreach time hle⟩
        · have hwait := hreach (w.now + ms.toNat) (Nat.le_add_right _ _)
          obtain ⟨w', hrun, hp⟩ := ih (some time) (w := w₂.reach (w.now + ms.toNat))
            (hwait.bound.trans hb) rfl (Nat.not_lt.mp hlt) hlate
          rw [if_neg hlt]
          exact ⟨w', hrun, hwait.trans hp⟩

end Race

end World

/-! ## Flows -/

namespace Flow
variable {σ α β : Type} {transport : Transport σ} {source : Source}

/-- An endless run of the flow ends so. -/
def Shows (transport : Transport σ) (source : Source) (p : Flow α) (w : World σ) (a : α)
    (sights : List (Nat × Sight)) (calls ends : Nat) : Prop :=
  w.bound = .none →
    ∃ w', p.run ⟨.milliseconds, transport, source⟩ w = (some a, w') ∧ w.Passed w' sights calls ends

theorem Shows.bind {p : Flow α} {f : α → Flow β} {w : World σ} {a : α} {b : β}
    {sights sights' : List (Nat × Sight)} {calls calls' ends ends' : Nat}
    (hp : p.Shows transport source w a sights calls ends)
    (hf : ∀ w', w.Passed w' sights calls ends →
      (f a).Shows transport source w' b sights' calls' ends') :
    (p >>= f).Shows transport source w b (sights ++ sights') (calls + calls') ends' := by
  intro hb
  obtain ⟨w₁, hrun, h₁⟩ := hp hb
  obtain ⟨w', hrun', h'⟩ := hf w₁ h₁ (h₁.bound.trans hb)
  exact ⟨w', (run_bind_some hrun).trans hrun', h₁.trans h'⟩

/-- A flow that shows nothing may stand before another one. -/
theorem Shows.silent_bind {p : Flow α} {f : α → Flow β} {w : World σ} {a : α} {b : β}
    {sights : List (Nat × Sight)} {calls ends ends' : Nat}
    (hp : p.Shows transport source w a [] 0 ends)
    (hf : ∀ w', w.Passed w' [] 0 ends → (f a).Shows transport source w' b sights calls ends') :
    (p >>= f).Shows transport source w b sights calls ends' := by
  have h := hp.bind hf
  rwa [List.nil_append, Nat.zero_add] at h

theorem Shows.free_bind {p : Flow α} {f : α → Flow β} {w : World σ} {a : α} {b : β}
    {sights sights' : List (Nat × Sight)} {calls ends ends' : Nat}
    (hp : p.Shows transport source w a sights 0 ends)
    (hf : ∀ w', w.Passed w' sights 0 ends →
      (f a).Shows transport source w' b sights' calls ends') :
    (p >>= f).Shows transport source w b (sights ++ sights') calls ends' := by
  have h := hp.bind hf
  rwa [Nat.zero_add] at h

theorem Shows.bind_silent {p : Flow α} {f : α → Flow β} {w : World σ} {a : α} {b : β}
    {sights : List (Nat × Sight)} {calls ends ends' : Nat}
    (hp : p.Shows transport source w a sights calls ends)
    (hf : ∀ w', w.Passed w' sights calls ends → (f a).Shows transport source w' b [] 0 ends') :
    (p >>= f).Shows transport source w b sights calls ends' := by
  have h := hp.bind hf
  rwa [List.append_nil, Nat.add_zero] at h

theorem shows_pure (w : World σ) (a : α) {ends : Nat} (h : w.now = ends) :
    (pure a : Flow α).Shows transport source w a [] 0 ends := by
  subst h
  exact fun _ => ⟨w, rfl, .refl w⟩

theorem shows_tell (w : World σ) (n : Note) :
    (tell n).Shows transport source w () ((Item.note n).sight?.map (w.now, ·)).toList 0 w.now :=
  fun _ => ⟨w.tell n, rfl, w.passed_tell n⟩

theorem shows_enter (w : World σ) {phase : Phase} (h : phase.resting = false) :
    (enter phase).Shows transport source w () [(w.now, .step)] 0 w.now := by
  have hstep : (Item.note (.entered phase)).sight? = some .step := by simp [Item.sight?, h]
  have htell : (enter phase).Shows transport source w () _ 0 w.now := shows_tell w (.entered phase)
  rw [hstep] at htell
  exact htell

theorem shows_readHandle (w : World σ) :
    readHandle.Shows transport source w w.surroundings.link.handle [] 0 w.now :=
  fun _ => ⟨_, rfl, w.passed_write _ rfl⟩

theorem shows_readSent (w : World σ) : readSent.Shows transport source w w.sends [] 0 w.now :=
  fun _ => ⟨w, rfl, .refl w⟩

theorem shows_pause (w : World σ) (ms : UInt32) :
    (pause ms).Shows transport source w () [] 0 (w.now + ms.toNat) := by
  intro hb
  obtain ⟨w', hp, h⟩ := World.passed_pause ms hb
  refine ⟨w', ?_, h⟩
  simp [pause, run, hp]

theorem shows_perform (w : World σ) (events : List Event) :
    (perform events).Shows transport source w () (Sight.sent (Event.stampFrom w.now events)) 0
      (w.now + Event.total events) := by
  induction events generalizing w with
  | nil => exact shows_pure w () rfl
  | cons e rest ih =>
    cases e with
    | report r =>
      intro hb
      have hsent := World.passed_send transport r w
      obtain ⟨w', hrun, h⟩ := ih (w.send transport r) hb
      rw [Event.total_report]
      exact ⟨w', hrun, hsent.trans h⟩
    | pause ms =>
      rw [Event.total_pause, ← Nat.add_assoc]
      show (pause ms >>= fun _ => perform rest).Shows transport source w () _ 0 _
      refine (shows_pause w ms).silent_bind fun w₁ h₁ => ?_
      have hrest := ih w₁
      rw [h₁.now] at hrest
      exact hrest

theorem shows_raceAct_inTime (w : World σ) (limit : UInt32) {act : Nat → Act} {a : Act}
    (ha : act w.calls = a) {outcome : Outcome} (hend : a.ending = some outcome)
    (hin : Event.total a.events ≤ limit.toNat) :
    (raceAct limit act).Shows transport source w (some outcome)
      (Sight.sent (Event.stampFrom w.now a.events)) 1 (w.now + Event.total a.events) := by
  intro hb
  obtain ⟨w', hrun, h⟩ := World.race_inTime transport source limit outcome a.events none
    (w := { w with calls := w.calls + 1 }) hb (Nat.add_le_add_left hin w.now)
  refine ⟨w', ?_, h.entries, h.sends, h.calls, h.now, h.le, ?_, h.bound⟩
  · simp only [raceAct, run, ha, hend, hrun]
  · exact fun hf => h.faces ⟨hf.now, hf.later⟩

theorem shows_raceAct_late (w : World σ) (limit : UInt32) {act : Nat → Act} {a : Act}
    (ha : act w.calls = a) (hlate : a.ending = none ∨ limit.toNat < Event.total a.events) :
    (raceAct limit act).Shows transport source w none
      (Sight.sent ((Event.stampFrom w.now a.events).filter (·.1 ≤ w.now + limit.toNat))) 1
      (w.now + limit.toNat) := by
  intro hb
  have hlate' : a.ending = none ∨ w.now + limit.toNat < w.now + Event.total a.events :=
    hlate.imp_right fun h => Nat.add_lt_add_left h w.now
  obtain ⟨w', hrun, h⟩ := World.race_cutOff transport source limit a.events none
    (w := { w with calls := w.calls + 1 }) hb rfl (Nat.le_add_right _ _) hlate'
  refine ⟨w', ?_, h.entries, h.sends, h.calls, h.now, h.le, ?_, h.bound⟩
  · simp only [raceAct, run, ha, hrun]
  · exact fun hf => h.faces ⟨hf.now, hf.later⟩

/-- A run with a limit shows what the endless run shows up to it. -/
theorem Shows.cut {p : Flow α} {w : World σ} {a : α} {sights : List (Nat × Sight)}
    {calls ends : Nat} (h : p.Shows transport source w a sights calls ends)
    (hb : w.bound = .none) {last : Nat} (hlast : w.now ≤ last) :
    (ends ≤ last → ∃ w', p.run ⟨.milliseconds, transport, source⟩ (w.upTo last) =
        (some a, w'.upTo last) ∧ w.Passed w' sights calls ends) ∧
      (last < ends → (p.run ⟨.milliseconds, transport, source⟩ (w.upTo last)).1 = none) ∧
      ∀ n ≤ w.journal.size,
        (p.run ⟨.milliseconds, transport, source⟩ (w.upTo last)).2.sightsFrom n =
          w.sightsFrom n ++ sights.filter (·.1 ≤ last) := by
  obtain ⟨w', hrun, hp⟩ := h hb
  have hend := endless_run _ hb hrun
  have hcut := hend.cut last hlast
  have hnow := hp.now
  subst hnow
  obtain ⟨more, hmore, hsights⟩ := hp.entries
  refine ⟨fun hle => ⟨w', hcut.whole hle, hp⟩, fun hlt => (hcut.part hlt).1, fun n hn => ?_⟩
  by_cases hle : w'.now ≤ last
  · obtain ⟨done, hdone, htimes⟩ := hend.later.journal
    obtain rfl : more = done := List.append_cancel_left (hmore.symm.trans hdone)
    have hdue : ((more ++ []).filterMap Entry.sight?).filter (·.1 ≤ last) =
        more.filterMap Entry.sight? :=
      sights_due (fun e he => Nat.le_trans (htimes e he).2 hle) (by simp)
    rw [List.append_nil, hsights] at hdue
    rw [hcut.whole hle, hdue, ← hsights]
    exact World.sightsFrom_behind hmore hn
  · obtain ⟨-, done, late, hj, hdone, htimes, hlate⟩ := hcut.part (Nat.not_le.mp hle)
    obtain rfl : more = done ++ late := List.append_cancel_left (hmore.symm.trans hj)
    rw [← hsights, sights_due htimes hlate]
    exact World.sightsFrom_behind hdone hn

/-- What an endless run shows, every run shows that goes on long enough. -/
theorem Shows.lasting {p : Flow α} {w : World σ} {a : α} {sights : List (Nat × Sight)}
    {calls ends : Nat} (h : p.Shows transport source { w with bound := .none } a sights calls ends)
    (hl : w.LastsTo ends) :
    ∃ w', p.run ⟨.milliseconds, transport, source⟩ w = (some a, w') ∧
      w.Passed w' sights calls ends := by
  obtain ⟨w', hrun, hp⟩ := h rfl
  refine ⟨{ w' with bound := w.bound }, run_lasting _ hrun (hp.now ▸ hl), hp.entries, hp.sends,
    hp.calls, hp.now, hp.le, ?_, rfl⟩
  intro β view ahead hf
  have hf' : w'.Faces view ahead := hp.faces ⟨hf.now, hf.later⟩
  exact ⟨hf'.now, hf'.later⟩

end Flow

/-! ## Scripts -/

namespace Player
variable {σ A : Type} [Behaviour A] {transport : Transport σ} {source : Source} {s : Setup A}
open ButtonPad.Flow

/-- A special action shows the feat of its act, in time or not. -/
theorem callSpecial_shows (w : World σ) (call : Invocation) (slot : Slot A) {feat : Feat}
    (hfeat : (Behaviour.act slot.action call s.timing w.calls).feat s.timing.actionLimit
      call.handle w.now = feat) :
    (callSpecial s call slot).Shows transport source w feat.outcome (Sight.sent feat.reports) 1
      feat.ends := by
  subst hfeat
  refine (shows_tell w _).silent_bind fun w₁ h₁ => ?_
  have hcalls : w₁.calls = w.calls := h₁.calls
  rw [← hcalls, ← h₁.now]
  generalize ha : Behaviour.act slot.action call s.timing w₁.calls = a
  rcases a.inTime_or_late s.timing.actionLimit with ⟨outcome, hend, hle⟩ | hlate
  · rw [Act.feat_inTime hend hle]
    exact (shows_raceAct_inTime w₁ _ ha hend hle).bind_silent fun w₂ h₂ =>
      shows_pure w₂ outcome h₂.now
  · rw [Act.feat_late hlate]
    have hletGo : ∀ w₂, w₂.now = w₁.now + s.timing.actionLimit.toNat →
        (do
          perform (Gesture.letGo call.handle)
          return .fail : Flow Outcome).Shows transport source w₂ .fail
          [(w₁.now + s.timing.actionLimit.toNat, .report (.key call.handle 0 0 false)),
            (w₁.now + s.timing.actionLimit.toNat, .report (.mouse call.handle 0 0 0))] 0
          (w₁.now + s.timing.actionLimit.toNat) := by
      intro w₂ hnow
      rw [← hnow]
      exact (shows_perform w₂ _).bind_silent fun w₃ h₃ => shows_pure w₃ Outcome.fail h₃.now
    have hsights : Sight.sent (a.cutOff (w₁.now + s.timing.actionLimit.toNat) call.handle
        w₁.now).reports = Sight.sent ((Event.stampFrom w₁.now a.events).filter
          (·.1 ≤ w₁.now + s.timing.actionLimit.toNat)) ++
        [(w₁.now + s.timing.actionLimit.toNat, .report (.key call.handle 0 0 false)),
          (w₁.now + s.timing.actionLimit.toNat, .report (.mouse call.handle 0 0 0))] := by
      simp [Act.cutOff, Sight.sent]
    rw [hsights]
    show Flow.Shows transport source _ w₁ _ _ (1 + 0) _
    exact (shows_raceAct_late w₁ _ ha hlate).bind fun w₂ h₂ => hletGo w₂ h₂.now

theorem gesture_shows (w : World σ) {phase : Phase} (hphase : phase.resting = false)
    (events : List Event) :
    (do enter phase; perform events; return .goOn : Flow Verdict).Shows transport source w .goOn
      ((w.now, .step) :: Sight.sent (Event.stampFrom w.now events)) 0
      (w.now + Event.total events) := by
  refine (shows_enter w hphase).free_bind fun w₁ h₁ => ?_
  rw [← h₁.now]
  exact (shows_perform w₁ events).bind_silent fun w₂ h₂ => shows_pure w₂ Verdict.goOn h₂.now

theorem playStep_shows {app : AppId} {row : Row} {cursor : Nat} {handle : Handle} {step : Step}
    (hfinish : step ≠ .finish)
    (hslot : ∀ index, step = .special index → s.repertoire.slot? app index ≠ none) (w : World σ)
    {feat : Feat} (hfeat : (s.stage app row handle).feat w.calls cursor w.now step = feat) :
    (playStep s app row cursor handle step).Shows transport source w (.ofOutcome feat.outcome)
      ((w.now, .step) :: Sight.sent feat.reports) step.calls feat.ends := by
  subst hfeat
  cases step with
  | finish => exact absurd rfl hfinish
  | key usage => exact gesture_shows w rfl _
  | combo keys => exact gesture_shows w rfl _
  | click button => exact gesture_shows w rfl _
  | special index =>
    cases hs : s.repertoire.slot? app index with
    | none => exact absurd hs (hslot index rfl)
    | some slot =>
      simp only [playStep, hs]
      show Flow.Shows transport source _ w _ ([(w.now, Sight.step)] ++ _) 1 _
      refine (shows_enter w rfl).free_bind fun w₁ h₁ => ?_
      refine (callSpecial_shows w₁ _ slot ?_).bind_silent fun w₂ h₂ => shows_pure w₂ _ h₂.now
      rw [h₁.calls, h₁.now, Nat.add_zero]
      simp only [Stage.feat, Setup.stage, hs]

theorem execute_shows {app : AppId} {row : Row} {cursor : Nat} {step : Step}
    (hfinish : step ≠ .finish)
    (hslot : ∀ index, step = .special index → s.repertoire.slot? app index ≠ none) (w : World σ)
    {feat : Feat}
    (hfeat : (s.stage app row w.surroundings.link.handle).feat w.calls cursor w.now step = feat) :
    (execute s app row cursor step).Shows transport source w (.ofOutcome feat.outcome)
      ((w.now, .step) :: Sight.sent feat.reports) step.calls
      (feat.ends + s.timing.gap.toNat) := by
  refine (shows_readHandle w).silent_bind fun w₁ h₁ => ?_
  have hfeat₁ : (s.stage app row w.surroundings.link.handle).feat w₁.calls cursor w₁.now step =
      feat := by
    rw [h₁.calls, h₁.now, Nat.add_zero, hfeat]
  rw [← h₁.now]
  refine (playStep_shows hfinish hslot w₁ hfeat₁).bind_silent fun w₂ h₂ => ?_
  refine (shows_tell w₂ (.entered .reading)).silent_bind fun w₃ h₃ => ?_
  rw [← h₂.now, ← h₃.now]
  exact (shows_pause w₃ _).silent_bind fun w₄ h₄ => shows_pure w₄ _ h₄.now

theorem playItems_shows {app : AppId} {row : Row} {session : Nat → Handle}
    {steps : List (Nat × Step)}
    (hslots : ∀ entry ∈ steps, ∀ index, entry.2 = .special index →
      s.repertoire.slot? app index ≠ none)
    (skip : Bool) (p : Progress) {w : World σ} (hw : w.Faces (·.link.handle) session)
    {perf : Performance}
    (hperf : s.performSteps session app row w.calls p.lastSlot w.now skip steps = perf) :
    (playItems s app row (steps.map .ok) skip p).Shows transport source w
      (⟨p.steps + perf.passages.length, p.skipped + perf.skipped, perf.lastSlot⟩, perf.ending)
      perf.sights perf.calls perf.ends := by
  induction steps generalizing skip p w perf with
  | nil =>
    subst hperf
    exact shows_pure w (p, Ending.ranOut) rfl
  | cons entry rest ih =>
    obtain ⟨slot, step⟩ := entry
    have hrest := fun entry he => hslots entry (List.mem_cons_of_mem _ he)
    rw [Setup.performSteps] at hperf
    rw [List.map_cons]
    by_cases hfinish : step = .finish
    · rw [if_pos hfinish] at hperf
      subst hperf
      rw [playItems, if_pos hfinish]
      exact shows_pure w _ rfl
    rw [if_neg hfinish] at hperf
    cases skip with
    | true =>
      rw [if_pos rfl] at hperf
      subst hperf
      rw [playItems, if_neg hfinish, if_pos rfl]
      have h := ih hrest false
        { p with skipped := p.skipped + 1, lastSlot := slot + step.width - 1 } hw rfl
      simpa [Nat.add_assoc, Nat.add_comm 1] using h
    | false =>
      rw [if_neg Bool.false_ne_true] at hperf
      subst hperf
      rw [playItems_execute hfinish, ← hw.now, Performance.passages_behind, List.length_cons,
        Performance.skipped_behind, Performance.lastSlot_behind, Performance.ending_behind,
        Performance.sights_behind, Performance.calls_behind, Performance.ends_behind,
        ← Nat.add_assoc, Nat.add_right_comm]
      refine (execute_shows hfinish (hslots (slot, step) List.mem_cons_self) w rfl).bind ?_
      intro w' h'
      -- the rest begins in the world behind the step, and its steps look the session up there
      have hgo : ∀ skip, (playItems s app row (rest.map .ok) skip
          ⟨p.steps + 1, p.skipped, slot + step.width - 1⟩).Shows transport source w' _ _ _ _ :=
        fun skip => ih hrest skip _ (h'.faces hw) rfl
      rw [h'.calls, h'.now] at hgo
      cases ((s.stage app row w.surroundings.link.handle).feat w.calls slot w.now step).outcome with
      | ok => exact hgo false
      | skipNext => exact hgo true
      | fail => exact shows_pure w' _ h'.now
      | endScript => exact shows_pure w' _ h'.now

theorem playRow_shows {app : AppId} {row : Row} (h : row.Playable s.repertoire app) (cmd : UInt8)
    {session : Nat → Handle} {w : World σ} (hw : w.Faces (·.link.handle) session)
    {perf : Performance} (hperf : s.performance session app row w.calls w.now = perf) :
    (playRow s app cmd row).Shows transport source w (perf.summary app cmd) perf.sights perf.calls
      perf.ends := by
  have hitems : ∀ w₁, w.Passed w₁ [] 0 w.now →
      (playItems s app row row.items false {}).Shows transport source w₁
        (⟨0 + perf.passages.length, 0 + perf.skipped, perf.lastSlot⟩, perf.ending)
        perf.sights perf.calls perf.ends := by
    intro w₁ h₁
    rw [h.items_eq]
    refine playItems_shows h.slots false {} (h₁.faces hw) ?_
    rw [h₁.calls, h₁.now]
    exact hperf
  rw [Nat.zero_add, Nat.zero_add] at hitems
  unfold playRow
  refine (shows_readSent w).silent_bind fun w₁ h₁ => ?_
  refine (shows_tell w₁ (.entered .reading)).silent_bind fun w₂ h₂ => ?_
  rw [h₁.now] at h₂
  refine (hitems w₂ (h₁.trans h₂)).bind_silent fun w₃ h₃ => ?_
  refine (shows_readSent w₃).silent_bind fun w₄ h₄ => ?_
  have hsends : w₃.sends - w.sends = (Sight.reports perf.sights).length := by
    rw [((h₁.trans h₂).trans h₃).sends]
    exact Nat.add_sub_cancel_left _ _
  rw [hsends]
  exact shows_pure w₄ _ (h₄.now.trans h₃.now)

theorem command_shows {app : AppId} {cmd : UInt8} {row : Row} (hlook : lookup s app cmd = .ok row)
    (h : row.Playable s.repertoire app) {session : Nat → Handle} {w : World σ}
    (hw : w.Faces (·.link.handle) session) {perf : Performance}
    (hperf : s.performance session app row w.calls w.now = perf) :
    (command s app cmd).Shows transport source w (.ok (perf.summary app cmd))
      (perf.sights ++ [(perf.ends + s.timing.settle.toNat, .summary (perf.summary app cmd))])
      perf.calls (perf.ends + s.timing.settle.toNat) := by
  simp only [command, hlook]
  show Flow.Shows transport source _ w _ _ (perf.calls + 0) _
  refine (playRow_shows h cmd hw hperf).bind fun w₁ h₁ => ?_
  refine (shows_tell w₁ (.entered .settling)).silent_bind fun w₂ h₂ => ?_
  refine (shows_pause w₂ s.timing.settle).silent_bind fun w₃ h₃ => ?_
  refine (shows_tell w₃ (.entered .polling)).silent_bind fun w₄ h₄ => ?_
  have hnow : w₄.now = perf.ends + s.timing.settle.toNat := by
    rw [h₄.now, h₃.now, h₂.now, h₁.now]
  rw [← hnow]
  exact (shows_tell w₄ (.finished (perf.summary app cmd))).bind_silent fun w₅ h₅ =>
    shows_pure w₅ _ h₅.now

end Player

end ButtonPad
