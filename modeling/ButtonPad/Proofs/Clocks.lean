import ButtonPad.Proofs.Duration

/-! # One command on two clocks

What an instant run logs stands for a run in time, if one session lasts and the special actions are
prompt. Then the performance of a script is its score, begun at some time (`Performance.Begins`),
and each clock's run is known by one of the two. -/
namespace ButtonPad

/-! ## Stamps -/

namespace Event

theorem stampFrom_add (now start : Nat) (events : List Event) :
    stampFrom (now + start) events =
      (stampFrom start events).map fun (time, r) => (now + time, r) := by
  induction events generalizing start with
  | nil => rfl
  | cons e rest ih =>
    cases e with
    | report r => exact congrArg ((now + start, r) :: ·) (ih start)
    | pause ms =>
      show stampFrom (now + start + ms.toNat) rest = _
      rw [Nat.add_assoc]
      exact ih _

theorem stampFrom_paused (now : Nat) (events : List Event) (ms : UInt32) :
    stampFrom now (events ++ [.pause ms]) = stampFrom now events := by
  rw [stampFrom_append]
  exact List.append_nil _

theorem total_paused (events : List Event) (ms : UInt32) :
    total (events ++ [.pause ms]) = total events + ms.toNat :=
  total_append events [.pause ms]

end Event

/-! ## Prompt acts -/

/-- The act is over within the limit, or does nothing and never ends. -/
def Act.Prompt (limit : UInt32) (a : Act) : Prop :=
  match a.ending with
  | some _ => Event.total a.events ≤ limit.toNat
  | none => a.events = []

/-- A prompt act takes in time what it logs. -/
theorem Act.Prompt.feat_eq {limit : UInt32} {a : Act} (h : a.Prompt limit) (handle : Handle)
    (now : Nat) : a.feat limit handle now = (a.deed limit handle).feat now := by
  unfold Prompt at h
  cases hend : a.ending with
  | some outcome =>
    rw [hend] at h
    rw [feat_inTime hend h, deed, hend]
  | none =>
    rw [hend] at h
    rw [feat_late (.inl hend), deed, hend, cutOff, h]
    rfl

def Stage.Prompt (stage : Stage) : Prop :=
  ∀ slot index calls, (stage.act slot index calls).Prompt stage.timing.actionLimit

theorem Stage.Prompt.feat_eq {stage : Stage} (h : stage.Prompt) (calls slot now : Nat)
    (step : Step) : stage.feat calls slot now step = (stage.deed calls slot step).feat now := by
  cases step with
  | special index => exact (h slot index calls).feat_eq stage.handle now
  | _ => rfl

/-! ## Scores in time -/

/-- The performance is the score, begun at `now`. -/
structure Performance.Begins (now : Nat) (gap : UInt32) (score : Score) (p : Performance) :
    Prop where
  reports : Sight.reports p.sights = Event.stampFrom now (score.events gap)
  ends : p.ends = now + Event.total (score.events gap)
  steps : p.passages.length = score.steps
  skipped : p.skipped = score.skipped
  lastSlot : p.lastSlot = score.lastSlot
  ending : p.ending = score.ending

namespace Performance.Begins
variable {now : Nat} {gap : UInt32} {score : Score} {p : Performance}

theorem stop (now : Nat) (gap : UInt32) (lastSlot : Nat) (ending : Ending) :
    Begins now gap ⟨[], lastSlot, ending⟩ ⟨[], 0, lastSlot, ending, now⟩ :=
  ⟨rfl, rfl, rfl, rfl, rfl, rfl⟩

theorem behind {deed : Deed} (h : p.Begins (now + Event.total deed.events + gap.toNat) gap score)
    (step : Step) :
    (p.behind ⟨now, step, deed.feat now⟩).Begins now gap (score.behind (.played step deed)) where
  reports := by
    have hreports : Sight.reports (Passage.sights ⟨now, step, deed.feat now⟩) =
        Event.stampFrom now deed.events := Sight.reports_sent _
    rw [sights_behind, Sight.reports_append, hreports, h.reports, Score.events_behind, Part.events,
      Event.stampFrom_append, Event.stampFrom_paused, Event.total_paused, Nat.add_assoc]
  ends := by
    rw [ends_behind, h.ends, Score.events_behind, Part.events, Event.total_append,
      Event.total_paused, Nat.add_assoc, Nat.add_assoc, Nat.add_assoc]
  steps := by rw [Score.steps_behind_played, ← h.steps]; rfl
  skipped := by rw [Score.skipped_behind_played, ← h.skipped]; rfl
  lastSlot := h.lastSlot
  ending := h.ending

theorem leavingOut (h : p.Begins now gap score) :
    p.leavingOut.Begins now gap (score.behind .leftOut) where
  reports := by rw [Score.events_behind]; exact h.reports
  ends := by rw [Score.events_behind]; exact h.ends
  steps := by rw [Score.steps_behind_leftOut]; exact h.steps
  skipped := by rw [Score.skipped_behind_leftOut, ← h.skipped]; rfl
  lastSlot := h.lastSlot
  ending := h.ending

theorem proceed {rest : (skip : Bool) → Performance} {scores : (skip : Bool) → Score}
    (h : ∀ skip, (rest skip).Begins now gap (scores skip)) (outcome : Outcome) (lastSlot : Nat) :
    (outcome.proceed lastSlot now rest).Begins now gap (outcome.next lastSlot scores) := by
  cases outcome with
  | ok => exact h false
  | skipNext => exact h true
  | fail => exact .stop now gap lastSlot .actionFailed
  | endScript => exact .stop now gap lastSlot .actionEnded

theorem summary_eq (h : p.Begins now gap score) (app : AppId) (cmd : UInt8) :
    p.summary app cmd = score.summary app cmd gap := by
  have hsends : (Sight.reports p.sights).length = score.sends gap := by
    rw [h.reports, Score.sends, ← Event.reports_stampFrom now, List.length_map]
  rw [Performance.summary, Score.summary, h.steps, h.skipped, hsends, h.lastSlot, h.ending]

end Performance.Begins

namespace Setup
variable {A : Type} [Behaviour A] (s : Setup A) {app : AppId} {row : Row} {handle : Handle}
  {session : Nat → Handle} {now : Nat}

/-- Steps that are performed towards one session, with prompt acts, are their score. -/
theorem performSteps_begins (hprompt : (s.stage app row handle).Prompt)
    (hfixed : ∀ time, now ≤ time → session time = handle) (calls lastSlot : Nat) (skip : Bool)
    (steps : List (Nat × Step)) :
    (s.performSteps session app row calls lastSlot now skip steps).Begins now s.timing.gap
      ((s.stage app row handle).score calls lastSlot skip steps) := by
  induction steps generalizing calls lastSlot now skip with
  | nil => exact .stop now _ lastSlot .ranOut
  | cons entry rest ih =>
    obtain ⟨slot, step⟩ := entry
    rw [performSteps, Stage.score]
    by_cases hfinish : step = .finish
    · rw [if_pos hfinish, if_pos hfinish]
      exact .stop now _ _ .finished
    rw [if_neg hfinish, if_neg hfinish]
    cases skip with
    | true =>
      rw [if_pos rfl, if_pos rfl]
      exact (ih hfixed calls _ false).leavingOut
    | false =>
      rw [if_neg Bool.false_ne_true, if_neg Bool.false_ne_true, hfixed now (Nat.le_refl _),
        hprompt.feat_eq]
      -- the next step looks the session up again, behind this one and its pause
      have hlater : ∀ deed : Deed, ∀ time,
          now + Event.total deed.events + s.timing.gap.toNat ≤ time → session time = handle :=
        fun _ time htime => hfixed time (by omega)
      refine .behind (.proceed (fun skip => ?_) _ _) step
      exact ih (hlater _) (calls + step.calls) _ skip

theorem performance_begins (hprompt : (s.stage app row handle).Prompt)
    (hfixed : ∀ time, now ≤ time → session time = handle) (calls : Nat) :
    (s.performance session app row calls now).Begins now s.timing.gap
      (s.score app row handle calls) :=
  s.performSteps_begins hprompt hfixed calls 0 false row.steps

end Setup

/-! ## Runs -/

namespace Rig
variable {σ A : Type} [Behaviour A] {s : Setup A} {app : AppId} {cmd : UInt8} {row : Row}

/-- On the instant clock, a run of a command that has room for its pauses logs the score. -/
theorem command_logs (hs : s.Playable) (hlook : Player.lookup s app cmd = .ok row)
    (transport : Transport σ) (source : Source) {w : World σ}
    (hstill : ∀ c ∈ w.upcoming, w.now < c.1) {score : Score}
    (hscore : s.score app row w.surroundings.link.handle w.calls = score) {limit : Nat}
    (hlimit : Event.pauses (score.events s.timing.gap ++ [.pause s.timing.settle]) ≤ limit) :
    ∃ w', Rig.command ⟨.instant, transport, source⟩ s app cmd limit w =
        (some (.ok (score.summary app cmd s.timing.gap)), w') ∧
      w'.eventsFrom w.journal.size =
        score.events s.timing.gap ++ [.pause s.timing.settle] := by
  let begun : World σ := { w with bound := .pauses limit }
  have hready : begun.Ready limit := ⟨hstill, by rintro left ⟨⟩; exact Nat.le_refl _, by rintro _ ⟨⟩⟩
  have hstart : w.startRun .instant limit = begun :=
    World.reach_now (hready.mono (Nat.zero_le _))
  have hplays : (Player.command s app cmd).Plays transport source begun _ _ _ :=
    Player.command_plays hlook (hs.rows hlook) begun hscore
  obtain ⟨w', hrun, hd⟩ := hplays (hready.mono hlimit)
  exact ⟨w', by rw [Rig.command, hstart, hrun], hd.eventsFrom⟩

end Rig

/-- **Both clocks tell the same.** A command of an accepted setup with prompt actions is run on the
instant clock, and on a clock that counts milliseconds while the same session lasts. Both runs tell
the same of it. The reports of the run in time are those that the other run logged, each sent as
late after the start as the pauses logged before it take, and the run takes as long as all logged
pauses together. -/
theorem clocks_tell_the_same {σ σ' A : Type} [Behaviour A] {capacity : Nat}
    {qs : List Catalog.Registration} {r : Repertoire A} {buttons : List (AppId × ButtonMap)}
    {t : Timing} {s : Setup A} (h : Setup.assemble (.after capacity qs) r buttons t = .ok s)
    {app : AppId} {a : Application} (ha : s.appFor? app = some a) {cmd : UInt8} {row : Row}
    (hrow : a.script? cmd = some row) {w : World σ} (hstill : ∀ c ∈ w.upcoming, w.now < c.1)
    {v : World σ'} (hcalls : v.calls = w.calls)
    (hfixed : ∀ time, v.now ≤ time → v.sessionAt time = w.surroundings.link.handle)
    (hprompt : (s.stage app row w.surroundings.link.handle).Prompt)
    (transport : Transport σ) (transport' : Transport σ') (source source' : Source) :
    let score := s.score app row w.surroundings.link.handle w.calls
    let log := score.events t.gap ++ [.pause t.settle]
    let told := Except.ok (score.summary app cmd t.gap)
    (∀ limit, Event.pauses log ≤ limit →
      ∃ w', Rig.command ⟨.instant, transport, source⟩ s app cmd limit w = (some told, w') ∧
        w'.eventsFrom w.journal.size = log) ∧
    ∀ limit, Event.total log ≤ limit →
      ∃ v', Rig.command ⟨.milliseconds, transport', source'⟩ s app cmd limit v = (some told, v') ∧
        v'.now = v.now + Event.total log ∧
        v'.reportsFrom v.journal.size = (Event.stamp log).map fun (time, r) => (v.now + time, r) := by
  intro score log told
  have hplay := Setup.playable_of_assemble h
  have hlook := Player.lookup_eq_ok ha hrow
  obtain rfl : s.timing = t := by rw [(Setup.assemble_eq_ok_iff.mp h).1]
  have hbegins := s.performance_begins hprompt hfixed v.calls
  rw [hcalls] at hbegins
  have hends : v.now + Event.total (score.events s.timing.gap) + s.timing.settle.toNat =
      v.now + Event.total log := by
    rw [Event.total_paused, Nat.add_assoc]
  have hstamp : Event.stampFrom v.now (score.events s.timing.gap) =
      (Event.stamp log).map fun (time, r) => (v.now + time, r) := by
    rw [Event.stamp, Event.stampFrom_paused]
    exact Event.stampFrom_add v.now 0 _
  refine ⟨fun limit hlimit => ?_, fun limit hlimit => ?_⟩
  · exact Rig.command_logs hplay hlook transport source hstill rfl hlimit
  · have hperf : s.performance v.sessionAt app row v.calls v.now =
        s.performance v.sessionAt app row w.calls v.now := by rw [hcalls]
    have hroom := hends ▸ Nat.add_le_add_left hlimit v.now
    rw [← hbegins.ends] at hroom hends
    obtain ⟨v', hrun, hnow, hreports⟩ :=
      Rig.command_performs hplay hlook transport' source' v hperf hroom
    rw [hbegins.summary_eq] at hrun
    exact ⟨v', hrun, hnow.trans hends, hreports.trans (hbegins.reports.trans hstamp)⟩

/-- An action that has the next step left out, a shortcut that is over when its time is, and an
action that never ends. -/
def Specimen.prompt : Setup Action where
  catalog := .after 1 [⟨0, "prompt", 9, [[0, 232, 0, 4, 232, 1, 232, 2, 5]], by decide⟩]
  repertoire := ⟨[(0, [⟨.returns .skipNext, [], []⟩, ⟨.builtin .shortcut, [], [4, 5]⟩,
    ⟨.hangs, [], []⟩])]⟩
  buttons := []
  timing := { actionLimit := 400 }

/-- The session is over at 600 ms, and no other one begins. -/
def Specimen.lasting : World Unit :=
  { surroundings := { link := Link.connect {} 1 }
    upcoming := [(600, .disconnect)]
    transport := () }

theorem Specimen.sessionAt_lasting (time : Nat) : lasting.sessionAt time = 1 := by
  unfold World.sessionAt lasting
  by_cases h : 600 ≤ time <;> simp [h, Link.connect, Change.session?]

theorem Specimen.prompt_stage (row : Row) : (prompt.stage 0 row 1).Prompt := by
  intro slot index calls
  simp only [Setup.stage]
  cases hslot : prompt.repertoire.slot? 0 index with
  | none => exact Nat.zero_le _
  | some found =>
    rcases List.mem_cons.mp (List.mem_of_getElem? hslot) with rfl | hrest
    · exact Nat.zero_le _
    rcases List.mem_cons.mp hrest with rfl | hrest
    · show Event.total (Gesture.chord prompt.timing 1 0 [4, 5]) ≤ 400
      decide
    · obtain rfl := List.mem_singleton.mp hrest
      rfl

/-- The run in time is over after 2800 ms: two actions take 400 ms each, and there are four pauses
of 500 ms. -/
theorem clocks_tell_the_same_specimen :
    let told := some (.ok ⟨0, 0, 3, 1, 6, 7, .actionFailed⟩)
    (∀ c ∈ Specimen.lasting.upcoming, Specimen.lasting.now < c.1) ∧
    (∀ time, Specimen.lasting.now ≤ time → Specimen.lasting.sessionAt time = 1) ∧
    (Specimen.prompt.stage 0 [0, 232, 0, 4, 232, 1, 232, 2, 5] 1).Prompt ∧
    (∃ w', Rig.command ⟨.instant, .recording, .bank⟩ Specimen.prompt 0 0 9 Specimen.lasting =
        (told, w') ∧
      w'.eventsFrom 0 = [.pause 500] ++ Gesture.chord {} 1 0 [4, 5] ++
        [.pause 500, .pause 400] ++ Gesture.letGo 1 ++ [.pause 500, .pause 500]) ∧
    ∃ v', Rig.command ⟨.milliseconds, .recording, .bank⟩ Specimen.prompt 0 0 2800
        Specimen.lasting = (told, v') ∧
      v'.now = 2800 ∧
      v'.reportsFrom 0 = [(500, .key 1 0 4 true), (600, .key 1 0 5 true), (700, .key 1 0 4 false),
        (800, .key 1 0 5 false), (1800, .key 1 0 0 false), (1800, .mouse 1 0 0 0)] := by
  intro told
  have hstill : ∀ c ∈ Specimen.lasting.upcoming, Specimen.lasting.now < c.1 := by decide
  have hprompt := Specimen.prompt_stage [0, 232, 0, 4, 232, 1, 232, 2, 5]
  have hprompted : Setup.assemble Specimen.prompt.catalog Specimen.prompt.repertoire []
      { actionLimit := 400 } = .ok Specimen.prompt := rfl
  have hrow : (⟨0, "prompt", 8, [[0, 232, 0, 4, 232, 1, 232, 2, 5]]⟩ : Application).script? 0 =
    some [0, 232, 0, 4, 232, 1, 232, 2, 5] := rfl
  obtain ⟨hinstant, htimed⟩ := clocks_tell_the_same hprompted rfl hrow hstill rfl
    (fun time _ => Specimen.sessionAt_lasting time) hprompt .recording .recording .bank .bank
  exact ⟨hstill, fun time _ => Specimen.sessionAt_lasting time, hprompt,
    hinstant 9 (by decide), htimed 2800 (by decide)⟩

end ButtonPad
