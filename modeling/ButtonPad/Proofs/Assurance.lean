import ButtonPad.World.Journal

/-! # What every run of a flow keeps

A flow is assured of a property if the property holds of all that it may write into a journal,
whatever it is told of its surroundings and wherever an act is given up. `Flow.Assures` computes
that from the flow alone, and `Flow.run_assures` carries it to every run in every world. -/
namespace ButtonPad

/-! ## Histories -/

/-- What a journal holds, oldest first. -/
abbrev History := List Item

namespace History

def events (h : History) : List Event := h.filterMap Item.event?

def reports (h : History) : List Report := h.events.filterMap Event.report?

@[simp] theorem events_append (g h : History) : events (g ++ h) = events g ++ events h :=
  List.filterMap_append

@[simp] theorem reports_append (g h : History) : reports (g ++ h) = reports g ++ reports h := by
  simp [reports]

theorem reports_prefix {g h : History} (hp : g <+: h) : reports g <+: reports h := by
  obtain ⟨rest, rfl⟩ := hp
  rw [reports_append]
  exact List.prefix_append _ _

/-- Nothing but reports and pauses. -/
def Outward (h : History) : Prop := ∀ item ∈ h, item.event?.isSome

/-- Nothing but pauses. -/
def Idle (h : History) : Prop := ∀ item ∈ h, ∃ ms, item = .paused ms

theorem Idle.reports {h : History} (hi : h.Idle) : History.reports h = [] := by
  induction h with
  | nil => rfl
  | cons item rest ih =>
    obtain ⟨ms, rfl⟩ := hi item (by simp)
    exact ih fun item hm => hi item (List.mem_cons_of_mem _ hm)

/-- The property holds at every moment that the history tells of. -/
def Kept (safe : History → Prop) (h : History) : Prop := ∀ g, g <+: h → safe g

theorem Kept.nil {safe : History → Prop} (h : safe []) : Kept safe [] := by
  intro g hg
  rwa [List.prefix_nil.mp hg]

theorem Kept.append {safe : History → Prop} {past items : History} (hp : Kept safe past)
    (hs : ∀ front, front <+: items → safe (past ++ front)) : Kept safe (past ++ items) := by
  intro g hg
  obtain ⟨rest, hg⟩ := hg
  rcases List.append_eq_append_iff.mp hg with ⟨more, he, -⟩ | ⟨front, rfl, hf⟩
  · exact hp g ⟨more, he.symm⟩
  · exact hs front ⟨rest, hf.symm⟩

theorem Kept.concat {safe : History → Prop} {past : History} {item : Item}
    (hp : Kept safe past) (hs : safe (past ++ [item])) : Kept safe (past ++ [item]) := by
  intro g hg
  rcases List.prefix_concat_iff.mp hg with rfl | hg
  · exact hs
  · exact hp g hg

end History

def Act.reports (a : Act) : List Report := a.events.filterMap Event.report?

/-- Items that an act leaves in a journal as far as it comes: reports and pauses alone, and of its
reports none before an earlier one. -/
structure Act.Leaves (a : Act) (items : History) : Prop where
  events : ∀ item ∈ items, item.event?.isSome
  reports : items.reports <+: a.reports

theorem Act.Leaves.of_idle (a : Act) {items : History} (h : items.Idle) : a.Leaves items where
  events item hm := by
    obtain ⟨ms, rfl⟩ := h item hm
    rfl
  reports := h.reports ▸ List.nil_prefix

/-- An act's items are still its items with pauses before them. -/
theorem Act.Leaves.idle_append {a : Act} {pauses items : History} (hp : pauses.Idle)
    (h : a.Leaves items) : a.Leaves (pauses ++ items) where
  events item hm := by
    rcases List.mem_append.mp hm with hm | hm
    · exact (Act.Leaves.of_idle a hp).events item hm
    · exact h.events item hm
  reports := by
    rw [History.reports_append, hp.reports]
    exact h.reports

theorem Act.Leaves.sent {events : List Event} {ending : Option Outcome} {items : History}
    (h : Act.Leaves ⟨events, ending⟩ items) (r : Report) (accepted : Bool) :
    Act.Leaves ⟨.report r :: events, ending⟩ (.sent r accepted :: items) where
  events := List.forall_mem_cons.mpr ⟨rfl, h.events⟩
  reports := List.cons_prefix_cons.mpr ⟨rfl, h.reports⟩

/-- A pause of the act itself is no report. -/
theorem Act.Leaves.of_rest {events : List Event} {ending : Option Outcome} {items : History}
    (h : Act.Leaves ⟨events, ending⟩ items) (ms : UInt32) :
    Act.Leaves ⟨.pause ms :: events, ending⟩ items :=
  ⟨h.events, h.reports⟩

theorem Act.Leaves.of_prefix {a : Act} {items front : History} (h : a.Leaves items)
    (hp : front <+: items) : a.Leaves front :=
  ⟨fun item hi => h.events item (hp.subset hi),
    (History.reports_prefix hp).trans h.reports⟩

namespace World
variable {σ : Type}

def history (w : World σ) : History := w.journal.toList.map (·.item)

theorem events_drop_history (w : World σ) (n : Nat) :
    History.events (w.history.drop n) = w.eventsFrom n := by
  rw [history, ← List.map_drop, History.events, List.filterMap_map]
  rfl

@[simp] theorem length_history (w : World σ) : w.history.length = w.journal.size := by
  simp [history]

@[simp] theorem history_write (w : World σ) (item : Item) :
    (w.write item).history = w.history ++ [item] := by
  simp [history, write]

@[simp] theorem history_tell (w : World σ) (n : Note) :
    (w.tell n).history = w.history ++ [.note n] := by
  cases n <;> simp [tell, history, write]

theorem history_send (t : Transport σ) (r : Report) (w : World σ) :
    ∃ accepted, (w.send t r).history = w.history ++ [.sent r accepted] :=
  ⟨(t.deliver w.surroundings r w.transport).1.isOk, by simp [send, transmit, history, write]⟩

@[simp] theorem history_waitUntil (w : World σ) (time : Nat) :
    (w.waitUntil time).2.history = w.history := by
  unfold waitUntil
  split
  · split <;> rfl
  · rfl

@[simp] theorem history_waitForever (w : World σ) : w.waitForever.history = w.history := by
  unfold waitForever
  split <;> rfl

theorem history_beginPause (ms : UInt32) (w : World σ) :
    (w.beginPause ms).2.history =
      if (w.beginPause ms).1 then w.history ++ [.paused ms] else w.history := by
  unfold beginPause
  split <;> simp [history, write]

theorem history_behind {w w' : World σ} {base past items : History}
    (h : w.history = base ++ past) (h' : w'.history = w.history ++ items) :
    w'.history = base ++ (past ++ items) := by
  rw [h', h, List.append_assoc]

/-- A whole pause writes at most itself, and itself if the run goes on behind it. -/
theorem history_pause (c : Clock) (ms : UInt32) (w : World σ) :
    (w.pause c ms).2.history = w.history ++ [.paused ms] ∨
      (w.pause c ms).1 = false ∧ (w.pause c ms).2.history = w.history := by
  have hist := history_beginPause ms w
  unfold pause
  rcases hb : w.beginPause ms with ⟨_ | _, w'⟩
  · rw [hb] at hist
    exact .inr ⟨rfl, hist⟩
  · rw [hb] at hist
    refine .inl ?_
    dsimp only
    split
    · exact hist
    · rw [history_waitUntil]
      exact hist

/-! ## Acts against the clock -/

theorem history_startTimer (c : Clock) (limit : UInt32) (deadline : Option Nat) (w : World σ) :
    ∃ pauses : History, (w.startTimer c limit deadline).2.history = w.history ++ pauses ∧
      pauses.Idle := by
  unfold startTimer
  cases deadline with
  | some time => exact ⟨[], by simp, by simp [History.Idle]⟩
  | none =>
    have hist := history_beginPause limit w
    rcases hb : w.beginPause limit with ⟨_ | _, w'⟩
    · rw [hb] at hist
      exact ⟨[], by simpa using hist, by simp [History.Idle]⟩
    · rw [hb] at hist
      exact ⟨[.paused limit], by simpa using hist, by simp [History.Idle]⟩

@[simp] theorem history_timeOut (w : World σ) (deadline : Nat) :
    (w.timeOut deadline).2.history = w.history := by
  have hist := history_waitUntil w deadline
  unfold timeOut
  rcases hw : w.waitUntil deadline with ⟨_ | _, w'⟩ <;> rw [hw] at hist <;> exact hist

theorem timeOut_ne_outcome (w : World σ) (deadline : Nat) (o : Outcome) :
    (w.timeOut deadline).1 ≠ some (some o) := by
  unfold timeOut
  rcases w.waitUntil deadline with ⟨_ | _, w'⟩ <;> simp

/-- What a race leaves is a part of its act, and all that the act sends if the act had an outcome
in time. -/
theorem history_race (rig : Rig σ) (limit : UInt32) (ending : Option Outcome)
    (events : List Event) (deadline : Option Nat) (w : World σ) :
    ∃ items, (race rig limit ending events deadline w).2.history = w.history ++ items ∧
      Act.Leaves ⟨events, ending⟩ items ∧
      ∀ o, (race rig limit ending events deadline w).1 = some (some o) →
        ending = some o ∧ items.reports = Act.reports ⟨events, ending⟩ := by
  -- what the act did so far is in the history already; the induction is on the rest
  induction events generalizing deadline w with
  | nil =>
    cases ending with
    | some outcome =>
      refine ⟨[], by simp [race], .of_idle _ (by simp [History.Idle]), fun o ho => ?_⟩
      simp only [race, Option.some.injEq] at ho
      exact ⟨congrArg some ho, rfl⟩
    | none =>
      obtain ⟨pauses, hist, hp⟩ := history_startTimer rig.clock limit deadline w
      refine ⟨pauses, ?_, .of_idle _ hp, fun o ho => ?_⟩
      · simp only [race]
        rcases ht : w.startTimer rig.clock limit deadline with ⟨_ | _, w'⟩ <;>
          simpa [ht] using hist
      · simp only [race] at ho
        rcases ht : w.startTimer rig.clock limit deadline with ⟨_ | time, w'⟩
        · simp [ht] at ho
        · rw [ht] at ho
          exact absurd ho (timeOut_ne_outcome w' time o)
  | cons e rest ih =>
    cases e with
    | report r =>
      obtain ⟨accepted, hist⟩ := history_send rig.transport r w
      obtain ⟨items, hrest, hl, ho⟩ := ih deadline (w.send rig.transport r)
      refine ⟨.sent r accepted :: items, ?_, hl.sent r accepted, fun o h => ?_⟩
      · rw [race, hrest, hist, List.append_assoc, List.singleton_append]
      · obtain ⟨he, hr⟩ := ho o h
        exact ⟨he, congrArg (r :: ·) hr⟩
    | pause ms =>
      have hist := history_beginPause ms w
      rcases hb : w.beginPause ms with ⟨_ | _, w₁⟩
      · rw [hb] at hist
        refine ⟨[], ?_, .of_idle _ (by simp [History.Idle]), fun o ho => ?_⟩
        · simpa [race, hb] using hist
        · simp [race, hb] at ho
      · rw [hb] at hist
        have hist₁ : w₁.history = w.history ++ [.paused ms] := hist
        -- what stands behind the pause and the timer's start is the rest of the act
        have hrest : ∀ (pauses : History) (w₂ : World σ) (d : Option Nat), pauses.Idle →
            w₂.history = w.history ++ pauses →
            ∃ items, (race rig limit ending rest d w₂).2.history = w.history ++ items ∧
              Act.Leaves ⟨.pause ms :: rest, ending⟩ items ∧
              ∀ o, (race rig limit ending rest d w₂).1 = some (some o) →
                ending = some o ∧ items.reports = Act.reports ⟨.pause ms :: rest, ending⟩ := by
          intro pauses w₂ d hp hist₂
          obtain ⟨items, h, hl, ho⟩ := ih d w₂
          refine ⟨pauses ++ items, ?_, (hl.of_rest ms).idle_append hp, fun o h => ?_⟩
          · rw [h, hist₂, List.append_assoc]
          · rw [History.reports_append, hp.reports]
            exact ho o h
        by_cases hz : rig.clock.ticks ms = 0 ∧ (!rig.clock.yields) = true
        · simp only [race, hb, if_pos hz]
          exact hrest [.paused ms] w₁ deadline (by simp [History.Idle]) hist₁
        · simp only [race, hb, if_neg hz]
          obtain ⟨pauses, hist₂, hp⟩ := history_startTimer rig.clock limit deadline w₁
          rw [hist₁, List.append_assoc] at hist₂
          have hidle : History.Idle ([.paused ms] ++ pauses) := by
            intro item hm
            rcases List.mem_append.mp hm with hm | hm
            · exact ⟨ms, List.mem_singleton.mp hm⟩
            · exact hp item hm
          have hcut : Act.Leaves ⟨.pause ms :: rest, ending⟩ ([.paused ms] ++ pauses) :=
            .of_idle _ hidle
          rcases ht : w₁.startTimer rig.clock limit deadline with ⟨_ | time, w₂⟩
          · rw [ht] at hist₂
            exact ⟨_, hist₂, hcut, by simp⟩
          · rw [ht] at hist₂
            dsimp only
            split
            · exact ⟨_, by rw [history_timeOut]; exact hist₂, hcut,
                fun o ho => absurd ho (timeOut_ne_outcome w₂ time o)⟩
            · have hist₃ := history_waitUntil w₂ (w₂.now + rig.clock.ticks ms)
              rcases hw : w₂.waitUntil (w₂.now + rig.clock.ticks ms) with ⟨_ | _, w₃⟩
              · rw [hw] at hist₃
                exact ⟨_, hist₃.trans hist₂, hcut, by simp⟩
              · rw [hw] at hist₃
                exact hrest _ w₃ (some time) hidle (hist₃.trans hist₂)

end World

/-! ## Flows -/

namespace Flow
variable {α β : Type} {safe : History → Prop}

/-- The property holds of all that the flow may write behind the past, and at the end `post`. -/
def Assures (safe : History → Prop) : Flow α → History → (α → History → Prop) → Prop
  | .done a, past, post => post a past
  | .note n next, past, post =>
    safe (past ++ [.note n]) ∧ next.Assures safe (past ++ [.note n]) post
  | .emit (.report r) next, past, post =>
    ∀ accepted, safe (past ++ [.sent r accepted]) ∧
      next.Assures safe (past ++ [.sent r accepted]) post
  | .emit (.pause ms) next, past, post =>
    safe (past ++ [.paused ms]) ∧ next.Assures safe (past ++ [.paused ms]) post
  | .handle next, past, post =>
    ∀ handle, safe (past ++ [.addressed handle]) ∧
      (next handle).Assures safe (past ++ [.addressed handle]) post
  | .selected next, past, post =>
    ∀ app, safe (past ++ [.polled app]) ∧ (next app).Assures safe (past ++ [.polled app]) post
  | .lines next, past, post =>
    ∀ s, safe (past ++ [.read s]) ∧ (next s).Assures safe (past ++ [.read s]) post
  | .sent next, past, post => ∀ n, (next n).Assures safe past post
  | .race _ act next, past, post =>
    ∀ n items, (act n).Leaves items →
      safe (past ++ items) ∧ (next none).Assures safe (past ++ items) post ∧
        ∀ o, (act n).ending = some o → items.reports = (act n).reports →
          (next (some o)).Assures safe (past ++ items) post
  | .stall, _, _ => True

theorem assures_bind (p : Flow α) (f : α → Flow β) (past : History) (post : β → History → Prop) :
    (p >>= f).Assures safe past post ↔
      p.Assures safe past fun a past => (f a).Assures safe past post := by
  show (p.bind f).Assures safe past post ↔ _
  induction p generalizing past with
  | done a => rfl
  | emit e next ih => cases e <;> simp [Flow.bind, Assures, ih]
  | stall => simp [Flow.bind, Assures]
  | _ => simp_all [Flow.bind, Assures]

theorem Assures.mono {p : Flow α} {past : History} {post post' : α → History → Prop}
    (h : p.Assures safe past post) (hpost : ∀ a past, post a past → post' a past) :
    p.Assures safe past post' := by
  induction p generalizing past with
  | done a => exact hpost a past h
  | note n next ih => exact ⟨h.1, ih h.2⟩
  | emit e next ih =>
    cases e with
    | report r => exact fun accepted => ⟨(h accepted).1, ih (h accepted).2⟩
    | pause ms => exact ⟨h.1, ih h.2⟩
  | handle next ih | selected next ih | lines next ih => exact fun x => ⟨(h x).1, ih x (h x).2⟩
  | sent next ih => exact fun n => ih n (h n)
  | race limit act next ih =>
    intro n items hl
    obtain ⟨hs, hnone, hsome⟩ := h n items hl
    exact ⟨hs, ih none hnone, fun o ho hr => ih (some o) (hsome o ho hr)⟩
  | stall => trivial

/-- What a flow comes to in any case it also comes to where the property is kept. -/
theorem Assures.and {p : Flow α} {past : History} {post post' : α → History → Prop}
    (h : p.Assures safe past post) (h' : p.Assures (fun _ => True) past post') :
    p.Assures safe past fun a past => post a past ∧ post' a past := by
  induction p generalizing past with
  | done a => exact ⟨h, h'⟩
  | note n next ih => exact ⟨h.1, ih h.2 h'.2⟩
  | emit e next ih =>
    cases e with
    | report r => exact fun accepted => ⟨(h accepted).1, ih (h accepted).2 (h' accepted).2⟩
    | pause ms => exact ⟨h.1, ih h.2 h'.2⟩
  | handle next ih | selected next ih | lines next ih =>
    exact fun x => ⟨(h x).1, ih x (h x).2 (h' x).2⟩
  | sent next ih => exact fun n => ih n (h n) (h' n)
  | race limit act next ih =>
    intro n items hl
    obtain ⟨hs, hnone, hsome⟩ := h n items hl
    obtain ⟨-, hnone', hsome'⟩ := h' n items hl
    exact ⟨hs, ih none hnone hnone', fun o ho hr => ih (some o) (hsome o ho hr) (hsome' o ho hr)⟩
  | stall => trivial

/-- Runs keep what their flow assures, behind any past. -/
theorem run_assures_behind {σ : Type} (rig : Rig σ) {p : Flow α} {w : World σ}
    {base past : History} {post : α → History → Prop} (hist : w.history = base ++ past)
    (h : p.Assures safe past post) (hk : past.Kept safe) :
    ∃ now, (p.run rig w).2.history = base ++ now ∧ now.Kept safe ∧
      ∀ a, (p.run rig w).1 = some a → post a now := by
  -- the past grows along the flow, and the property is kept of all that it grew by
  induction p generalizing w past with
  | done a =>
    refine ⟨past, hist, hk, fun b hb => ?_⟩
    cases hb
    exact h
  | note n next ih =>
    exact ih (World.history_behind hist (World.history_tell w n)) h.2 (hk.concat h.1)
  | emit e next ih =>
    cases e with
    | report r =>
      obtain ⟨accepted, hsend⟩ := World.history_send rig.transport r w
      exact ih (World.history_behind hist hsend) (h accepted).2 (hk.concat (h accepted).1)
    | pause ms =>
      have hpause := World.history_pause rig.clock ms w
      simp only [run]
      rcases hp : w.pause rig.clock ms with ⟨_ | _, w'⟩
      · rw [hp] at hpause
        rcases hpause with hpause | ⟨-, hpause⟩
        · exact ⟨_, World.history_behind hist hpause, hk.concat h.1, by simp⟩
        · exact ⟨_, hpause.trans hist, hk, by simp⟩
      · rw [hp] at hpause
        rcases hpause with hpause | ⟨hf, -⟩
        · exact ih (World.history_behind hist hpause) h.2 (hk.concat h.1)
        · cases hf
  | handle next ih =>
    exact ih _ (World.history_behind hist (World.history_write w _)) (h _).2 (hk.concat (h _).1)
  | selected next ih =>
    exact ih _ (World.history_behind hist (World.history_write w _)) (h _).2 (hk.concat (h _).1)
  | lines next ih =>
    have hread := World.history_write
      { w with surroundings := (w.surroundings.read rig.source).2 }
      (.read (w.surroundings.read rig.source).1)
    exact ih _ (World.history_behind hist hread) (h _).2 (hk.concat (h _).1)
  | sent next ih => exact ih _ hist (h _) hk
  | race limit act next ih =>
    obtain ⟨items, hrace, hl, ho⟩ := World.history_race rig limit (act w.calls).ending
      (act w.calls).events none { w with calls := w.calls + 1 }
    obtain ⟨-, hnone, hsome⟩ := h w.calls items hl
    have hnow := World.history_behind hist hrace
    have hkept := hk.append fun front hf => (h w.calls front (hl.of_prefix hf)).1
    simp only [run]
    rcases hr : World.race rig limit (act w.calls).ending (act w.calls).events none
      { w with calls := w.calls + 1 } with ⟨_ | outcome, w'⟩
    · rw [hr] at hnow
      exact ⟨_, hnow, hkept, by simp⟩
    · rw [hr] at hnow ho
      cases outcome with
      | none => exact ih none hnow hnone hkept
      | some o =>
        obtain ⟨he, hreports⟩ := ho o rfl
        exact ih (some o) hnow (hsome o he hreports) hkept
  | stall => exact ⟨past, (World.history_waitForever w).trans hist, hk, by simp [run]⟩

/-- **Runs keep what their flow assures.** A run writes a history behind the journal that it finds;
the property holds of every stretch of it from its beginning on, and the result is as assured. -/
theorem run_assures {σ : Type} (rig : Rig σ) {p : Flow α} (w : World σ)
    {post : α → History → Prop} (h : p.Assures safe [] post) (hs : safe []) :
    ∃ now, (p.run rig w).2.history = w.history ++ now ∧ now.Kept safe ∧
      ∀ a, (p.run rig w).1 = some a → post a now :=
  run_assures_behind rig (List.append_nil _).symm h (.nil hs)

/-! ## Rules -/

theorem assures_pure (a : α) (past : History) (post : α → History → Prop) :
    (pure a : Flow α).Assures safe past post ↔ post a past := .rfl

theorem assures_tell (n : Note) (past : History) (post : Unit → History → Prop) :
    (tell n).Assures safe past post ↔ safe (past ++ [.note n]) ∧ post () (past ++ [.note n]) :=
  .rfl

theorem assures_enter (phase : Phase) (past : History) (post : Unit → History → Prop) :
    (enter phase).Assures safe past post ↔
      safe (past ++ [.note (.entered phase)]) ∧ post () (past ++ [.note (.entered phase)]) := .rfl

theorem assures_pause (ms : UInt32) (past : History) (post : Unit → History → Prop) :
    (pause ms).Assures safe past post ↔
      safe (past ++ [.paused ms]) ∧ post () (past ++ [.paused ms]) := .rfl

theorem assures_readHandle (past : History) (post : Handle → History → Prop) :
    readHandle.Assures safe past post ↔
      ∀ handle, safe (past ++ [.addressed handle]) ∧ post handle (past ++ [.addressed handle]) :=
  .rfl

theorem assures_readSelected (past : History) (post : AppId → History → Prop) :
    readSelected.Assures safe past post ↔
      ∀ app, safe (past ++ [.polled app]) ∧ post app (past ++ [.polled app]) := .rfl

theorem assures_readLines (past : History) (post : Snapshot → History → Prop) :
    readLines.Assures safe past post ↔
      ∀ s, safe (past ++ [.read s]) ∧ post s (past ++ [.read s]) := .rfl

theorem assures_readSent (past : History) (post : Nat → History → Prop) :
    readSent.Assures safe past post ↔ ∀ n, post n past := .rfl

theorem assures_raceAct (limit : UInt32) (act : Nat → Act) (past : History)
    (post : Option Outcome → History → Prop) :
    (raceAct limit act).Assures safe past post ↔
      ∀ n items, (act n).Leaves items → safe (past ++ items) ∧ post none (past ++ items) ∧
        ∀ o, (act n).ending = some o → items.reports = (act n).reports →
          post (some o) (past ++ items) := .rfl

theorem assures_events {events : List Event} {past : History} {post : Unit → History → Prop}
    (h : ∀ items : History, items.Outward → items.events <+: events → safe (past ++ items) ∧
      (items.events = events → post () (past ++ items))) :
    (perform events).Assures safe past post := by
  induction events generalizing past with
  | nil =>
    have hend := (h [] (List.forall_mem_nil _) (List.prefix_refl [])).2 rfl
    rwa [List.append_nil] at hend
  | cons e rest ih =>
    -- whatever the event is written down as
    have hfirst : ∀ item : Item, item.event? = some e → safe (past ++ [item]) ∧
        (perform rest).Assures safe (past ++ [item]) post := by
      intro item hitem
      have houtward : History.Outward [item] := by simp [History.Outward, hitem]
      have hevents : History.events [item] = [e] := by simp [History.events, hitem]
      refine ⟨(h [item] houtward (hevents ▸ List.cons_prefix_cons.mpr ⟨rfl, List.nil_prefix⟩)).1,
        ih fun items ho hp => ?_⟩
      have hmore := h ([item] ++ items) (List.forall_mem_append.mpr ⟨houtward, ho⟩)
      rw [History.events_append, hevents] at hmore
      obtain ⟨hsafe, hpost⟩ := hmore (List.cons_prefix_cons.mpr ⟨rfl, hp⟩)
      rw [List.append_assoc]
      exact ⟨hsafe, fun hall => hpost (congrArg (e :: ·) hall)⟩
    cases e with
    | report r => exact fun accepted => hfirst (.sent r accepted) rfl
    | pause ms => exact hfirst (.paused ms) rfl

/-- Going through events leaves what an act of these events leaves. -/
theorem assures_perform {events : List Event} {past : History} {post : Unit → History → Prop}
    (h : ∀ items, Act.Leaves ⟨events, none⟩ items → safe (past ++ items) ∧
      (items.reports = Act.reports ⟨events, none⟩ → post () (past ++ items))) :
    (perform events).Assures safe past post := by
  refine assures_events fun items ho hp => ?_
  obtain ⟨hsafe, hpost⟩ := h items ⟨ho, hp.filterMap Event.report?⟩
  exact ⟨hsafe, fun hall => hpost (congrArg (List.filterMap Event.report?) hall)⟩

end Flow

end ButtonPad
