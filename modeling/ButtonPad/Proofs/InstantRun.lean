import ButtonPad.Proofs.Assurance
import ButtonPad.Proofs.Score
import ButtonPad.Proofs.Setup

/-! # Instant runs log the score

On the instant clock no time passes, so nothing changes around a flow, and the flow alone says what
is logged. `Flow.Plays` is that: the flow ends, with this result, these events and so many special
actions called. It composes along `>>=`, and a row of an accepted setup plays its score
(`Player.command_plays`). -/
namespace ButtonPad

/-! ## Worlds that stand still -/

def Event.pauses (events : List Event) : Nat := (events.filterMap Event.pause?).length

@[simp] theorem Event.pauses_append (xs ys : List Event) :
    pauses (xs ++ ys) = pauses xs + pauses ys := by
  simp [pauses]

theorem Event.pauses_cons (e : Event) (rest : List Event) :
    pauses (e :: rest) = pauses [e] + pauses rest :=
  pauses_append [e] rest

def Bound.spend (pauses : Nat) : Bound → Bound
  | .pauses left => .pauses (left - pauses)
  | bound => bound

theorem Bound.spend_zero (bound : Bound) : bound.spend 0 = bound := by
  cases bound <;> rfl

namespace World
variable {σ : Type}

/-- No change is due, and the run's bound leaves room for so many pauses. -/
structure Ready (w : World σ) (pauses : Nat) : Prop where
  still : ∀ c ∈ w.upcoming, w.now < c.1
  room : ∀ left, w.bound = .pauses left → pauses ≤ left
  time : ∀ last, w.bound = .until last → w.now ≤ last

/-- From the first world to the second one, the events were logged, so many special actions were
called, and nothing else around the pad changed. -/
structure Did (w w' : World σ) (events : List Event) (calls : Nat) : Prop where
  history : ∃ items : History, w'.history = w.history ++ items ∧ items.events = events
  sends : w'.sends = w.sends + (events.filterMap Event.report?).length
  calls : w'.calls = w.calls + calls
  now : w'.now = w.now
  surroundings : w'.surroundings = w.surroundings
  upcoming : w'.upcoming = w.upcoming
  bound : w'.bound = w.bound.spend (Event.pauses events)

theorem Did.refl (w : World σ) : w.Did w [] 0 :=
  ⟨⟨[], by simp, rfl⟩, rfl, rfl, rfl, rfl, rfl, (Bound.spend_zero _).symm⟩

theorem Did.trans {w w' w'' : World σ} {events events' : List Event} {calls calls' : Nat}
    (h : w.Did w' events calls) (h' : w'.Did w'' events' calls') :
    w.Did w'' (events ++ events') (calls + calls') := by
  obtain ⟨items, hist, he⟩ := h.history
  obtain ⟨items', hist', he'⟩ := h'.history
  refine ⟨⟨items ++ items', ?_, ?_⟩, ?_, ?_, ?_, ?_, ?_, ?_⟩
  · rw [hist', hist, List.append_assoc]
  · rw [History.events_append, he, he']
  · rw [h'.sends, h.sends, List.filterMap_append, List.length_append, Nat.add_assoc]
  · rw [h'.calls, h.calls, Nat.add_assoc]
  · rw [h'.now, h.now]
  · rw [h'.surroundings, h.surroundings]
  · rw [h'.upcoming, h.upcoming]
  · rw [h'.bound, h.bound, Event.pauses_append]
    cases w.bound <;> simp [Bound.spend, Nat.sub_sub]

theorem Ready.mono {w : World σ} {m n : Nat} (h : w.Ready n) (hle : m ≤ n) : w.Ready m :=
  ⟨h.still, fun left hb => Nat.le_trans hle (h.room left hb), h.time⟩

theorem Did.ready {w w' : World σ} {events : List Event} {calls pauses : Nat}
    (h : w.Did w' events calls) (hw : w.Ready (Event.pauses events + pauses)) :
    w'.Ready pauses := by
  refine ⟨?_, ?_, ?_⟩
  · rw [h.upcoming, h.now]
    exact hw.still
  · intro left hb
    rw [h.bound] at hb
    cases hbound : w.bound with
    | pauses before =>
      rw [hbound] at hb
      have hroom := hw.room before hbound
      simp only [Bound.spend, Bound.pauses.injEq] at hb
      omega
    | _ => simp [hbound, Bound.spend] at hb
  · intro last hb
    rw [h.bound] at hb
    rw [h.now]
    cases hbound : w.bound with
    | «until» before =>
      rw [hbound] at hb
      have hopen := hw.time before hbound
      simp only [Bound.spend, Bound.until.injEq] at hb
      omega
    | _ => simp [hbound, Bound.spend] at hb

theorem did_write (w : World σ) {item : Item} (h : item.event? = none) :
    w.Did (w.write item) [] 0 :=
  ⟨⟨[item], history_write w item, by simp [History.events, h]⟩, rfl, rfl, rfl, rfl, rfl,
    (Bound.spend_zero _).symm⟩

theorem did_tell (w : World σ) (n : Note) : w.Did (w.tell n) [] 0 := by
  have hwrite : w.Did (w.write (.note n)) [] 0 := w.did_write rfl
  cases n with
  | entered phase =>
    exact ⟨hwrite.history, hwrite.sends, hwrite.calls, hwrite.now, hwrite.surroundings,
      hwrite.upcoming, hwrite.bound⟩
  | _ => exact hwrite

theorem did_send (t : Transport σ) (r : Report) (w : World σ) :
    w.Did (w.send t r) [.report r] 0 := by
  obtain ⟨accepted, hist⟩ := history_send t r w
  exact ⟨⟨_, hist, rfl⟩, rfl, rfl, rfl, rfl, rfl, (Bound.spend_zero _).symm⟩

theorem did_beginPause (ms : UInt32) {w : World σ} (hw : w.Ready 1) :
    ∃ w', w.beginPause ms = (true, w') ∧ w.Did w' [.pause ms] 0 := by
  unfold beginPause
  cases hb : w.bound with
  | pauses left =>
    cases left with
    | zero => exact absurd (hw.room 0 hb) (by simp)
    | succ left =>
      refine ⟨_, rfl, ⟨[.paused ms], by simp [history, write], rfl⟩, rfl, rfl, rfl, rfl, rfl, ?_⟩
      rw [hb]
      rfl
  | _ =>
    refine ⟨_, rfl, ⟨[.paused ms], by simp [history, write], rfl⟩, rfl, rfl, rfl, rfl, rfl, ?_⟩
    rw [hb]
    exact hb

theorem did_pause (ms : UInt32) {w : World σ} (hw : w.Ready 1) :
    ∃ w', w.pause .instant ms = (true, w') ∧ w.Did w' [.pause ms] 0 := by
  obtain ⟨w', hb, hd⟩ := did_beginPause ms hw
  refine ⟨w', ?_, hd⟩
  simp [pause, hb, Clock.instant]

/-- Where no change is due, reaching the present changes nothing. -/
theorem reach_now {w : World σ} (hw : w.Ready 0) : w.reach w.now = w := by
  have hnone : ∀ c ∈ w.upcoming, ¬ c.1 ≤ w.now := by
    intro c hc
    have := hw.still c hc
    omega
  have htake : w.upcoming.takeWhile (·.1 ≤ w.now) = [] := by
    cases hu : w.upcoming with
    | nil => rfl
    | cons c rest => simp [hnone c (hu ▸ List.mem_cons_self)]
  have hdrop : w.upcoming.dropWhile (·.1 ≤ w.now) = w.upcoming := by
    cases hu : w.upcoming with
    | nil => rfl
    | cons c rest => simp [hnone c (hu ▸ List.mem_cons_self)]
  simp only [reach, htake, hdrop]
  rfl

theorem timeOut_now {w : World σ} (hw : w.Ready 0) : w.timeOut w.now = (some none, w) := by
  have hwait : w.waitUntil w.now = (true, w) := by
    unfold waitUntil
    cases hb : w.bound with
    | «until» last =>
      have hopen := hw.time last hb
      simp [Nat.not_lt.mpr hopen, reach_now hw]
    | _ => simp [reach_now hw]
  simp [timeOut, hwait]

/-- A race on the instant clock: the act comes to its end, whatever the limit is, or it is waited
for when it has none. -/
theorem did_race (transport : Transport σ) (source : Source) (limit : UInt32)
    (ending : Option Outcome) (events : List Event) {w : World σ}
    (hw : w.Ready (Event.pauses (events ++ if ending = none then [.pause limit] else []))) :
    ∃ w', race ⟨.instant, transport, source⟩ limit ending events none w = (some ending, w') ∧
      w.Did w' (events ++ if ending = none then [.pause limit] else []) 0 := by
  induction events generalizing w with
  | nil =>
    cases ending with
    | some outcome => exact ⟨w, rfl, .refl w⟩
    | none =>
      obtain ⟨w', hb, hd⟩ := did_beginPause limit hw
      have hready : w'.Ready 0 := hd.ready hw
      refine ⟨w', ?_, hd⟩
      simp [race, startTimer, hb, Clock.instant, timeOut_now hready]
  | cons e rest ih =>
    rw [List.cons_append, Event.pauses_cons] at hw
    cases e with
    | report r =>
      have hd := did_send transport r w
      obtain ⟨w', hr, hd'⟩ := ih (hd.ready hw)
      exact ⟨w', hr, hd.trans hd'⟩
    | pause ms =>
      obtain ⟨w₁, hb, hd⟩ := did_beginPause ms (hw.mono (Nat.le_add_right _ _))
      obtain ⟨w', hr, hd'⟩ := ih (hd.ready hw)
      refine ⟨w', ?_, hd.trans hd'⟩
      rw [← hr]
      simp [race, hb, Clock.instant]

end World

/-! ## Flows -/

namespace Flow
variable {σ α β : Type} {transport : Transport σ} {source : Source}

/-- On the instant clock the flow ends so, if the run's bound leaves room for its pauses. -/
def Plays (transport : Transport σ) (source : Source) (p : Flow α) (w : World σ) (a : α)
    (events : List Event) (calls : Nat) : Prop :=
  w.Ready (Event.pauses events) →
    ∃ w', p.run ⟨.instant, transport, source⟩ w = (some a, w') ∧ w.Did w' events calls

theorem Plays.bind {p : Flow α} {f : α → Flow β} {w : World σ} {a : α} {b : β}
    {events events' : List Event} {calls calls' : Nat}
    (hp : p.Plays transport source w a events calls)
    (hf : ∀ w', w.Did w' events calls → (f a).Plays transport source w' b events' calls') :
    (p >>= f).Plays transport source w b (events ++ events') (calls + calls') := by
  intro hw
  rw [Event.pauses_append] at hw
  obtain ⟨w₁, hrun, hd⟩ := hp (hw.mono (Nat.le_add_right _ _))
  obtain ⟨w', hrun', hd'⟩ := hf w₁ hd (hd.ready hw)
  refine ⟨w', ?_, hd.trans hd'⟩
  show (p.bind f).run _ w = _
  rw [run_bind, hrun]
  exact hrun'

/-- A flow that does nothing the host could see may stand before another one. -/
theorem Plays.silent_bind {p : Flow α} {f : α → Flow β} {w : World σ} {a : α} {b : β}
    {events : List Event} {calls : Nat} (hp : p.Plays transport source w a [] 0)
    (hf : ∀ w', w.Did w' [] 0 → (f a).Plays transport source w' b events calls) :
    (p >>= f).Plays transport source w b events calls := by
  have h := hp.bind hf
  rwa [List.nil_append, Nat.zero_add] at h

theorem Plays.free_bind {p : Flow α} {f : α → Flow β} {w : World σ} {a : α} {b : β}
    {events events' : List Event} {calls : Nat} (hp : p.Plays transport source w a events 0)
    (hf : ∀ w', w.Did w' events 0 → (f a).Plays transport source w' b events' calls) :
    (p >>= f).Plays transport source w b (events ++ events') calls := by
  have h := hp.bind hf
  rwa [Nat.zero_add] at h

theorem Plays.bind_silent {p : Flow α} {f : α → Flow β} {w : World σ} {a : α} {b : β}
    {events : List Event} {calls : Nat} (hp : p.Plays transport source w a events calls)
    (hf : ∀ w', w.Did w' events calls → (f a).Plays transport source w' b [] 0) :
    (p >>= f).Plays transport source w b events calls := by
  have h := hp.bind hf
  rwa [List.append_nil, Nat.add_zero] at h

theorem plays_pure (w : World σ) (a : α) :
    (pure a : Flow α).Plays transport source w a [] 0 :=
  fun _ => ⟨w, rfl, .refl w⟩

theorem plays_tell (w : World σ) (n : Note) : (tell n).Plays transport source w () [] 0 :=
  fun _ => ⟨w.tell n, rfl, w.did_tell n⟩

theorem plays_readHandle (w : World σ) :
    readHandle.Plays transport source w w.surroundings.link.handle [] 0 :=
  fun _ => ⟨_, rfl, w.did_write rfl⟩

theorem plays_readSent (w : World σ) : readSent.Plays transport source w w.sends [] 0 :=
  fun _ => ⟨w, rfl, .refl w⟩

theorem plays_pause (w : World σ) (ms : UInt32) :
    (pause ms).Plays transport source w () [.pause ms] 0 := by
  intro hw
  obtain ⟨w', hp, hd⟩ := World.did_pause ms hw
  refine ⟨w', ?_, hd⟩
  simp [pause, run, hp]

theorem plays_perform (w : World σ) (events : List Event) :
    (perform events).Plays transport source w () events 0 := by
  induction events generalizing w with
  | nil => exact plays_pure w ()
  | cons e rest ih =>
    cases e with
    | report r =>
      intro hw
      rw [Event.pauses_cons] at hw
      have hd := World.did_send transport r w
      obtain ⟨w', hr, hd'⟩ := ih (w.send transport r) (hd.ready hw)
      exact ⟨w', hr, hd.trans hd'⟩
    | pause ms =>
      show (pause ms >>= fun _ => perform rest).Plays transport source w () ([.pause ms] ++ rest) 0
      exact (plays_pause w ms).free_bind fun w' _ => ih w'

theorem plays_raceAct (w : World σ) (limit : UInt32) {act : Nat → Act} {a : Act}
    (ha : act w.calls = a) :
    (raceAct limit act).Plays transport source w a.ending
      (a.events ++ if a.ending = none then [.pause limit] else []) 1 := by
  intro hw
  have hcalled : World.Ready { w with calls := w.calls + 1 } _ := ⟨hw.still, hw.room, hw.time⟩
  obtain ⟨w', hr, hd⟩ := World.did_race transport source limit a.ending a.events hcalled
  refine ⟨w', ?_, hd.history, hd.sends, hd.calls, hd.now, hd.surroundings, hd.upcoming, hd.bound⟩
  simp [raceAct, run, ha, hr]

end Flow

/-! ## Scripts -/

namespace Row.Playable
variable {A : Type} {r : Repertoire A} {app : AppId} {row : Row}

/-- A playable row decodes to its steps alone. -/
theorem items_eq (h : row.Playable r app) : row.items = row.steps.map .ok := by
  have hall : ∀ item ∈ row.items, ∃ entry, item = .ok entry := by
    intro item hi
    obtain ⟨slot, step, he, -, -⟩ := h item hi
    exact ⟨_, he⟩
  unfold Row.steps
  generalize row.items = items at hall
  induction items with
  | nil => rfl
  | cons item rest ih =>
    obtain ⟨entry, rfl⟩ := hall item List.mem_cons_self
    have hrest := ih fun item hi => hall item (List.mem_cons_of_mem _ hi)
    exact congrArg (.ok entry :: ·) hrest

theorem slots (h : row.Playable r app) :
    ∀ entry ∈ row.steps, ∀ index, entry.2 = .special index → r.slot? app index ≠ none := by
  intro entry he
  have hi : .ok entry ∈ row.items := by
    rw [h.items_eq]
    exact List.mem_map_of_mem he
  obtain ⟨slot, step, heq, -, hslot⟩ := h _ hi
  cases heq
  exact hslot

end Row.Playable

namespace Player
variable {σ A : Type} [Behaviour A] {transport : Transport σ} {source : Source} {s : Setup A}
open ButtonPad.Flow

theorem callSpecial_plays (w : World σ) (call : Invocation) (slot : Slot A) {a : Act}
    (ha : Behaviour.act slot.action call s.timing w.calls = a) :
    (callSpecial s call slot).Plays transport source w
      (a.deed s.timing.actionLimit call.handle).outcome
      (a.deed s.timing.actionLimit call.handle).events 1 := by
  have hrace : ∀ w₁, w.Did w₁ [] 0 →
      (raceAct s.timing.actionLimit (Behaviour.act slot.action call s.timing)).Plays transport
        source w₁ a.ending
        (a.events ++ if a.ending = none then [.pause s.timing.actionLimit] else []) 1 := by
    intro w₁ hd
    refine plays_raceAct w₁ _ ?_
    rw [hd.calls, Nat.add_zero, ha]
  cases he : a.ending with
  | some outcome =>
    rw [he] at hrace
    have hdeed : a.deed s.timing.actionLimit call.handle = ⟨a.events ++ [], outcome⟩ := by
      simp [Act.deed, he]
    rw [hdeed]
    exact (plays_tell w _).silent_bind fun w₁ hd =>
      (hrace w₁ hd).bind_silent fun w₂ _ => plays_pure w₂ outcome
  | none =>
    rw [he] at hrace
    have hdeed : a.deed s.timing.actionLimit call.handle =
        ⟨a.events ++ [.pause s.timing.actionLimit] ++ Gesture.letGo call.handle, .fail⟩ := by
      simp [Act.deed, he, Gesture.letGo, Report.allKeysUp, Report.allButtonsUp]
    rw [hdeed]
    show (callSpecial s call slot).Plays transport source w _ _ (1 + 0)
    exact (plays_tell w _).silent_bind fun w₁ hd => (hrace w₁ hd).bind fun w₂ _ =>
      (plays_perform w₂ _).bind_silent fun w₃ _ => plays_pure w₃ Outcome.fail

theorem gesture_plays (w : World σ) (phase : Phase) (events : List Event) :
    (do enter phase; perform events; return .goOn : Flow Verdict).Plays transport source w
      .goOn events 0 :=
  (plays_tell w _).silent_bind fun w₁ _ =>
    (plays_perform w₁ _).bind_silent fun w₂ _ => plays_pure w₂ _

theorem playStep_plays {app : AppId} {row : Row} {cursor : Nat} {handle : Handle} {step : Step}
    (hfinish : step ≠ .finish)
    (hslot : ∀ index, step = .special index → s.repertoire.slot? app index ≠ none) (w : World σ)
    {deed : Deed} (hdeed : (s.stage app row handle).deed w.calls cursor step = deed) :
    (playStep s app row cursor handle step).Plays transport source w (.ofOutcome deed.outcome)
      deed.events step.calls := by
  subst hdeed
  cases step with
  | finish => exact absurd rfl hfinish
  | key usage => exact gesture_plays w .key _
  | combo keys => exact gesture_plays w .combo _
  | click button => exact gesture_plays w .click _
  | special index =>
    cases hs : s.repertoire.slot? app index with
    | none => exact absurd hs (hslot index rfl)
    | some slot =>
      have hcall : ∀ w₁, w.Did w₁ [] 0 →
          (callSpecial s ⟨app, index, row, cursor, handle, slot.arg1, slot.arg2⟩ slot).Plays
            transport source w₁
            ((s.stage app row handle).deed w.calls cursor (.special index)).outcome
            ((s.stage app row handle).deed w.calls cursor (.special index)).events 1 := by
        intro w₁ hd
        simp only [Stage.deed, Setup.stage, hs]
        exact callSpecial_plays w₁ _ slot (by rw [hd.calls, Nat.add_zero])
      simp only [playStep, hs]
      exact (plays_tell w _).silent_bind fun w₁ hd =>
        (hcall w₁ hd).bind_silent fun w₂ _ => plays_pure w₂ _

/-- An executed step: its deed, then one gap, then what its verdict leads to. -/
theorem executed_plays {app : AppId} {row : Row} {cursor : Nat} {step : Step}
    (hfinish : step ≠ .finish)
    (hslot : ∀ index, step = .special index → s.repertoire.slot? app index ≠ none) (w : World σ)
    {deed : Deed}
    (hdeed : (s.stage app row w.surroundings.link.handle).deed w.calls cursor step = deed)
    {α : Type} {k : Verdict → Flow α} {a : α} {events : List Event} {calls : Nat}
    (hk : ∀ w', w.Did w' (deed.events ++ [.pause s.timing.gap]) step.calls →
      (k (.ofOutcome deed.outcome)).Plays transport source w' a events calls) :
    (do
      let handle ← readHandle
      let verdict ← playStep s app row cursor handle step
      enter .reading
      pause s.timing.gap
      k verdict).Plays transport source w a
        (deed.events ++ [Event.pause s.timing.gap] ++ events) (step.calls + calls) := by
  have hplay : ∀ w₁, w.Did w₁ [] 0 →
      (playStep s app row cursor w.surroundings.link.handle step).Plays transport source w₁
        (.ofOutcome deed.outcome) deed.events step.calls := by
    intro w₁ h₁
    refine playStep_plays hfinish hslot w₁ ?_
    rw [h₁.calls, Nat.add_zero, hdeed]
  rw [List.append_assoc]
  refine (plays_readHandle w).silent_bind fun w₁ h₁ => (hplay w₁ h₁).bind fun w₂ h₂ => ?_
  refine (plays_tell w₂ _).silent_bind fun w₃ h₃ => (plays_pause w₃ _).free_bind fun w₄ h₄ => ?_
  have hd := h₁.trans (h₂.trans (h₃.trans h₄))
  simp only [List.nil_append, Nat.zero_add, Nat.add_zero] at hd
  exact hk w₄ hd

theorem playItems_plays {app : AppId} {row : Row} {handle : Handle} {steps : List (Nat × Step)}
    (hslots : ∀ entry ∈ steps, ∀ index, entry.2 = .special index →
      s.repertoire.slot? app index ≠ none)
    (skip : Bool) (p : Progress) {w : World σ} (hw : w.surroundings.link.handle = handle)
    {score : Score}
    (hscore : (s.stage app row handle).score w.calls p.lastSlot skip steps = score) :
    (playItems s app row (steps.map .ok) skip p).Plays transport source w
      (⟨p.steps + score.steps, p.skipped + score.skipped, score.lastSlot⟩, score.ending)
      (score.events s.timing.gap) score.calls := by
  induction steps generalizing skip p w score with
  | nil =>
    subst hscore
    exact plays_pure w (p, Ending.ranOut)
  | cons entry rest ih =>
    obtain ⟨slot, step⟩ := entry
    have hrest := fun entry he => hslots entry (List.mem_cons_of_mem _ he)
    rw [Stage.score] at hscore
    rw [List.map_cons, playItems]
    by_cases hfinish : step = .finish
    · rw [if_pos hfinish] at hscore ⊢
      subst hscore
      exact plays_pure w _
    rw [if_neg hfinish] at hscore ⊢
    cases skip with
    | true =>
      rw [if_pos rfl] at hscore ⊢
      subst hscore
      have h := ih hrest false
        { p with skipped := p.skipped + 1, lastSlot := slot + step.width - 1 } hw rfl
      simpa [Part.events, Part.calls, Nat.add_assoc, Nat.add_comm 1] using h
    | false =>
      rw [if_neg Bool.false_ne_true] at hscore ⊢
      subst hw hscore
      rw [Score.events_behind, Score.calls_behind, Score.steps_behind_played,
        Score.skipped_behind_played, Score.lastSlot_behind, Score.ending_behind, ← Nat.add_assoc,
        Nat.add_right_comm]
      refine executed_plays hfinish (hslots (slot, step) List.mem_cons_self) w rfl ?_
      intro w' hd
      -- the step leaves the session alone, so the rest is scored on the same stage
      have hgo : ∀ skip, (playItems s app row (rest.map .ok) skip
          ⟨p.steps + 1, p.skipped, slot + step.width - 1⟩).Plays transport source w' _ _ _ :=
        fun skip => ih hrest skip _ (by rw [hd.surroundings]) rfl
      rw [hd.calls] at hgo
      cases ((s.stage app row w.surroundings.link.handle).deed w.calls slot step).outcome with
      | ok => exact hgo false
      | skipNext => exact hgo true
      | fail => exact plays_pure w' _
      | endScript => exact plays_pure w' _

theorem playRow_plays {app : AppId} {row : Row} (h : row.Playable s.repertoire app) (cmd : UInt8)
    (w : World σ) {score : Score}
    (hscore : s.score app row w.surroundings.link.handle w.calls = score) :
    (playRow s app cmd row).Plays transport source w (score.summary app cmd s.timing.gap)
      (score.events s.timing.gap) score.calls := by
  have hitems : ∀ w₁, w.Did w₁ [] 0 →
      (playItems s app row row.items false {}).Plays transport source w₁
        (⟨0 + score.steps, 0 + score.skipped, score.lastSlot⟩, score.ending)
        (score.events s.timing.gap) score.calls := by
    intro w₁ hd
    rw [h.items_eq]
    refine playItems_plays h.slots false {} (congrArg (·.link.handle) hd.surroundings) ?_
    rw [hd.calls]
    exact hscore
  rw [Nat.zero_add, Nat.zero_add] at hitems
  unfold playRow
  refine (plays_readSent w).silent_bind fun w₁ h₁ => (plays_tell w₁ _).silent_bind fun w₂ h₂ => ?_
  refine (hitems w₂ (h₁.trans h₂)).bind_silent fun w₃ h₃ => ?_
  refine (plays_readSent w₃).silent_bind fun w₄ _ => ?_
  have hsends : w₃.sends - w.sends = score.sends s.timing.gap := by
    rw [((h₁.trans h₂).trans h₃).sends, Nat.add_sub_cancel_left]
    rfl
  rw [hsends]
  exact plays_pure w₄ _

theorem command_plays {app : AppId} {cmd : UInt8} {row : Row} (hlook : lookup s app cmd = .ok row)
    (h : row.Playable s.repertoire app) (w : World σ) {score : Score}
    (hscore : s.score app row w.surroundings.link.handle w.calls = score) :
    (command s app cmd).Plays transport source w (.ok (score.summary app cmd s.timing.gap))
      (score.events s.timing.gap ++ [.pause s.timing.settle]) score.calls := by
  simp only [command, hlook]
  show Flow.Plays transport source _ w _ _ (score.calls + 0)
  exact (playRow_plays h cmd w hscore).bind fun w₁ _ => (plays_tell w₁ _).silent_bind fun w₂ _ =>
    (plays_pause w₂ _).bind_silent fun w₃ _ => (plays_tell w₃ _).silent_bind fun w₄ _ =>
      (plays_tell w₄ _).silent_bind fun w₅ _ => plays_pure w₅ _

end Player

theorem World.Did.eventsFrom {σ : Type} {w w' : World σ} {events : List Event} {calls : Nat}
    (h : w.Did w' events calls) : w'.eventsFrom w.journal.size = events := by
  obtain ⟨items, hist, rfl⟩ := h.history
  rw [← World.events_drop_history, hist, ← World.length_history, List.drop_left]

/-- **A command logs its score.** On the instant clock, whatever the transport takes and whatever
the special actions do, a command of an accepted setup comes to an end: what it logs is the score
of its row and the pause behind it, and so is what it tells. -/
theorem command_logs_score {σ A : Type} [Behaviour A] {capacity : Nat}
    {qs : List Catalog.Registration} {r : Repertoire A} {buttons : List (AppId × ButtonMap)}
    {t : Timing} {s : Setup A} (h : Setup.assemble (.after capacity qs) r buttons t = .ok s)
    {app : AppId} {a : Application} (ha : s.appFor? app = some a) {cmd : UInt8} {row : Row}
    (hrow : a.script? cmd = some row) (transport : Transport σ) (source : Source) {w : World σ}
    (hw : w.Ready (Event.pauses
      ((s.score app row w.surroundings.link.handle w.calls).events t.gap) + 1)) :
    ∃ w', (Player.command s app cmd).run ⟨.instant, transport, source⟩ w =
        (some (.ok ((s.score app row w.surroundings.link.handle w.calls).summary app cmd t.gap)),
          w') ∧
      w'.eventsFrom w.journal.size =
        (s.score app row w.surroundings.link.handle w.calls).events t.gap ++ [.pause t.settle] := by
  obtain ⟨rfl, hacc⟩ := Setup.assemble_eq_ok_iff.mp h
  obtain ⟨hplay, -⟩ := hacc.playable rfl ha (List.mem_of_getElem? hrow)
  have hlook : Player.lookup ⟨.after capacity qs, r, buttons, t⟩ app cmd = .ok row := by
    simp [Player.lookup, ha, hrow]
  have hplays : (Player.command _ app cmd).Plays transport source w _ _ _ :=
    Player.command_plays hlook hplay w rfl
  obtain ⟨w', hrun, hd⟩ := hplays (by rw [Event.pauses_append]; exact hw)
  exact ⟨w', hrun, hd.eventsFrom⟩

theorem Specimen.ready (pauses : Nat) : Specimen.world.Ready pauses where
  still := by decide
  room left h := by cases h
  time last h := by cases h

/-- The key behind the first special action is left out, and the shortcut has all the time it
takes. -/
theorem command_logs_score_specimen :
    Specimen.world.Ready
        (Event.pauses ((Specimen.setup.score 0 Specimen.row 1 0).events 500) + 1) ∧
      ∃ w', (Player.command Specimen.setup 0 0).run ⟨.instant, .recording, .bank⟩ Specimen.world =
          (some (.ok ⟨0, 0, 4, 1, 10, 9, .ranOut⟩), w') ∧
        w'.eventsFrom 0 =
          [.pause 500] ++ Gesture.chord {} 1 0 [4, 5] ++ [.pause 500] ++
            Gesture.chord {} 1 0 [224, 6] ++ [.pause 500] ++ Gesture.click {} 1 .left ++
            [.pause 500, .pause 500] := by
  have hready := Specimen.ready
    (Event.pauses ((Specimen.setup.score 0 Specimen.row 1 0).events 500) + 1)
  exact ⟨hready, command_logs_score Specimen.assemble_setup rfl rfl .recording .bank hready⟩

end ButtonPad
