import ButtonPad.Proofs.Held
import ButtonPad.Proofs.Outlook
import ButtonPad.Proofs.Score

/-! # What a pad should show in time

A performance is a score with times: when each step begins, towards which session it is played,
when each of its reports is due and when the step is over. A timetable is the same for a pad that
polls for ever. Both are read off the surroundings as a function of time; they know of no world and
no journal. -/
namespace ButtonPad

/-! ## Sights -/

/-- What a run shows: its reports and polls, the beginnings of its steps and what came of its
commands. -/
inductive Sight where
  | report (r : Report)
  | poll (app : AppId)
  | step
  | summary (m : Summary)
  deriving DecidableEq

def Sight.report? : Sight → Option Report
  | .report r => some r
  | _ => none

/-- A step begins when the player enters a phase in which it does not rest. -/
def Item.sight? : Item → Option Sight
  | .sent r _ => some (.report r)
  | .polled app => some (.poll app)
  | .note (.entered phase) => if phase.resting then none else some .step
  | .note (.finished m) => some (.summary m)
  | _ => none

def Entry.sight? (e : Entry) : Option (Nat × Sight) := e.item.sight?.map (e.time, ·)

def World.sightsFrom {σ : Type} (w : World σ) (n : Nat) : List (Nat × Sight) :=
  (w.entriesFrom n).filterMap Entry.sight?

def World.reportsFrom {σ : Type} (w : World σ) (n : Nat) : List (Nat × Report) :=
  (w.deliveriesFrom n).map fun (time, r, _) => (time, r)

def Sight.reports (sights : List (Nat × Sight)) : List (Nat × Report) :=
  sights.filterMap fun (time, sight) => sight.report?.map (time, ·)

/-- Of what begins only behind `last`, nothing is in time. -/
theorem filter_late {β : Type} {timed : List (Nat × β)} {last start : Nat}
    (h : ∀ x ∈ timed, start ≤ x.1) (hlast : last < start) :
    timed.filter (·.1 ≤ last) = [] := by
  rw [List.filter_eq_nil_iff]
  intro x hx
  simpa using Nat.lt_of_lt_of_le hlast (h x hx)

def Sight.sent (reports : List (Nat × Report)) : List (Nat × Sight) :=
  reports.map fun (time, r) => (time, .report r)

@[simp] theorem Sight.reports_append (xs ys : List (Nat × Sight)) :
    reports (xs ++ ys) = reports xs ++ reports ys :=
  List.filterMap_append

@[simp] theorem Sight.reports_sent (rs : List (Nat × Report)) : reports (sent rs) = rs := by
  induction rs with
  | nil => rfl
  | cons r rest ih => exact congrArg (r :: ·) ih

theorem World.reports_sightsFrom {σ : Type} (w : World σ) (n : Nat) :
    Sight.reports (w.sightsFrom n) = w.reportsFrom n := by
  simp only [Sight.reports, sightsFrom, reportsFrom, deliveriesFrom, List.filterMap_filterMap,
    List.map_filterMap]
  congr 1
  funext ⟨time, item⟩
  cases item with
  | note n =>
    cases n with
    | entered phase => cases phase <;> rfl
    | _ => rfl
  | _ => rfl

/-! ## Steps in time -/

namespace Event

theorem stampFrom_bounds {now : Nat} {events : List Event} {x : Nat × Report}
    (h : x ∈ stampFrom now events) : now ≤ x.1 ∧ x.1 ≤ now + total events := by
  induction events generalizing now with
  | nil => cases h
  | cons e rest ih =>
    cases e with
    | report r =>
      rcases List.mem_cons.mp h with rfl | h
      · exact ⟨Nat.le_refl _, Nat.le_add_right _ _⟩
      · have hrest := ih h
        simp only [total, List.foldr_cons, duration] at hrest ⊢
        omega
    | pause ms =>
      have hrest := ih h
      simp only [total, List.foldr_cons, duration] at hrest ⊢
      omega

theorem reports_stampFrom (now : Nat) (events : List Event) :
    (stampFrom now events).map (·.2) = events.filterMap report? := by
  induction events generalizing now with
  | nil => rfl
  | cons e rest ih =>
    cases e with
    | report r => exact congrArg (r :: ·) (ih now)
    | pause ms => exact ih _

theorem mem_of_stampFrom {now : Nat} {events : List Event} {x : Nat × Report}
    (h : x ∈ stampFrom now events) : x.2 ∈ events.filterMap report? := by
  rw [← reports_stampFrom now]
  exact List.mem_map_of_mem h

theorem total_pause (ms : UInt32) (rest : List Event) :
    total (.pause ms :: rest) = ms.toNat + total rest := rfl

theorem total_report (r : Report) (rest : List Event) : total (.report r :: rest) = total rest :=
  Nat.zero_add _

theorem total_append (xs ys : List Event) : total (xs ++ ys) = total xs + total ys := by
  induction xs with
  | nil => exact (Nat.zero_add _).symm
  | cons e rest ih =>
    show e.duration + total (rest ++ ys) = e.duration + total rest + total ys
    rw [ih, Nat.add_assoc]

end Event

/-- A step as it is played from a time on. -/
structure Feat where
  reports : List (Nat × Report)
  ends : Nat
  outcome : Outcome

/-- A deed that nothing cuts off. -/
def Deed.feat (now : Nat) (deed : Deed) : Feat :=
  ⟨Event.stampFrom now deed.events, now + Event.total deed.events, deed.outcome⟩

/-- An act that is not over by its deadline has failed. What is due by then is done; then all is
released. -/
def Act.cutOff (deadline : Nat) (handle : Handle) (now : Nat) (a : Act) : Feat :=
  ⟨(Event.stampFrom now a.events).filter (·.1 ≤ deadline) ++
    [(deadline, .key handle 0 0 false), (deadline, .mouse handle 0 0 0)], deadline, .fail⟩

def Act.feat (limit : UInt32) (handle : Handle) (now : Nat) (a : Act) : Feat :=
  match a.ending with
  | some outcome =>
    if Event.total a.events ≤ limit.toNat then Deed.feat now ⟨a.events, outcome⟩
    else a.cutOff (now + limit.toNat) handle now
  | none => a.cutOff (now + limit.toNat) handle now

theorem Act.inTime_or_late (a : Act) (limit : UInt32) :
    (∃ outcome, a.ending = some outcome ∧ Event.total a.events ≤ limit.toNat) ∨
      (a.ending = none ∨ limit.toNat < Event.total a.events) := by
  cases hend : a.ending with
  | none => exact .inr (.inl rfl)
  | some outcome =>
    rcases Nat.lt_or_ge limit.toNat (Event.total a.events) with hlt | hle
    · exact .inr (.inr hlt)
    · exact .inl ⟨outcome, rfl, hle⟩

theorem Act.feat_inTime {a : Act} {outcome : Outcome} (hend : a.ending = some outcome)
    {limit : UInt32} (hle : Event.total a.events ≤ limit.toNat) (handle : Handle) (now : Nat) :
    a.feat limit handle now = Deed.feat now ⟨a.events, outcome⟩ := by
  rw [feat, hend]
  exact if_pos hle

theorem Act.feat_late {a : Act} {limit : UInt32}
    (hlate : a.ending = none ∨ limit.toNat < Event.total a.events) (handle : Handle) (now : Nat) :
    a.feat limit handle now = a.cutOff (now + limit.toNat) handle now := by
  rw [feat]
  cases hend : a.ending with
  | none => rfl
  | some outcome =>
    have hlt := hlate.resolve_left (by simp [hend])
    exact if_neg (Nat.not_le.mpr hlt)

def Stage.feat (stage : Stage) (calls slot now : Nat) : Step → Feat
  | .special index => (stage.act slot index calls).feat stage.timing.actionLimit stage.handle now
  | step => (stage.deed calls slot step).feat now

theorem Act.feat_bounds (a : Act) (limit : UInt32) (handle : Handle) (now : Nat) :
    now ≤ (a.feat limit handle now).ends ∧
      ∀ x ∈ (a.feat limit handle now).reports, now ≤ x.1 := by
  rcases a.inTime_or_late limit with ⟨outcome, hend, hle⟩ | hlate
  · rw [feat_inTime hend hle]
    exact ⟨Nat.le_add_right _ _, fun x hx => (Event.stampFrom_bounds hx).1⟩
  · rw [feat_late hlate]
    refine ⟨Nat.le_add_right _ _, fun x hx => ?_⟩
    rcases List.mem_append.mp hx with hx | hx
    · exact (Event.stampFrom_bounds (List.mem_filter.mp hx).1).1
    · rcases List.mem_cons.mp hx with rfl | hx
      · exact Nat.le_add_right _ _
      · obtain rfl := List.mem_singleton.mp hx
        exact Nat.le_add_right _ _

/-- A feat takes no negative time, and none of its reports comes before it. -/
theorem Stage.feat_bounds (stage : Stage) (calls slot now : Nat) (step : Step) :
    now ≤ (stage.feat calls slot now step).ends ∧
      ∀ x ∈ (stage.feat calls slot now step).reports, now ≤ x.1 := by
  cases step with
  | special index => exact Act.feat_bounds _ _ _ _
  | _ => exact ⟨Nat.le_add_right _ _, fun x hx => (Event.stampFrom_bounds hx).1⟩

/-! ## Scripts in time -/

/-- A step that is executed. -/
structure Passage where
  start : Nat
  step : Step
  feat : Feat

def Passage.sights (x : Passage) : List (Nat × Sight) :=
  (x.start, .step) :: Sight.sent x.feat.reports

structure Performance where
  passages : List Passage
  skipped : Nat
  lastSlot : Nat
  ending : Ending
  /-- When the pause behind the last step is over. -/
  ends : Nat

namespace Performance

def sights (p : Performance) : List (Nat × Sight) := p.passages.flatMap Passage.sights

def calls (p : Performance) : Nat := p.passages.foldr (fun x calls => x.step.calls + calls) 0

def summary (app : AppId) (command : UInt8) (p : Performance) : Summary where
  app := app
  command := command
  steps := p.passages.length
  skipped := p.skipped
  sends := (Sight.reports p.sights).length
  lastSlot := p.lastSlot
  ending := p.ending

def behind (x : Passage) (p : Performance) : Performance := { p with passages := x :: p.passages }

def leavingOut (p : Performance) : Performance := { p with skipped := p.skipped + 1 }

section
variable (x : Passage) (p : Performance)

@[simp] theorem passages_behind : (p.behind x).passages = x :: p.passages := rfl

@[simp] theorem sights_behind : (p.behind x).sights = x.sights ++ p.sights := rfl

@[simp] theorem calls_behind : (p.behind x).calls = x.step.calls + p.calls := rfl

@[simp] theorem skipped_behind : (p.behind x).skipped = p.skipped := rfl

@[simp] theorem lastSlot_behind : (p.behind x).lastSlot = p.lastSlot := rfl

@[simp] theorem ending_behind : (p.behind x).ending = p.ending := rfl

@[simp] theorem ends_behind : (p.behind x).ends = p.ends := rfl

@[simp] theorem passages_leavingOut : p.leavingOut.passages = p.passages := rfl

@[simp] theorem sights_leavingOut : p.leavingOut.sights = p.sights := rfl

@[simp] theorem calls_leavingOut : p.leavingOut.calls = p.calls := rfl

@[simp] theorem skipped_leavingOut : p.leavingOut.skipped = p.skipped + 1 := rfl

@[simp] theorem lastSlot_leavingOut : p.leavingOut.lastSlot = p.lastSlot := rfl

@[simp] theorem ending_leavingOut : p.leavingOut.ending = p.ending := rfl

@[simp] theorem ends_leavingOut : p.leavingOut.ends = p.ends := rfl

end

end Performance

/-- How a script goes on at `ends` behind a step with this outcome, if it does at all. -/
def Outcome.proceed (outcome : Outcome) (lastSlot ends : Nat)
    (rest : (skip : Bool) → Performance) : Performance :=
  match outcome with
  | .ok => rest false
  | .skipNext => rest true
  | .fail => ⟨[], 0, lastSlot, .actionFailed, ends⟩
  | .endScript => ⟨[], 0, lastSlot, .actionEnded, ends⟩

/-- The performance shows nothing before `now`, and is not over before. -/
structure Performance.From (now : Nat) (p : Performance) : Prop where
  ends : now ≤ p.ends
  sights : ∀ x ∈ p.sights, now ≤ x.1

theorem Performance.From.stop (now skipped lastSlot : Nat) (ending : Ending) :
    From now ⟨[], skipped, lastSlot, ending, now⟩ :=
  ⟨Nat.le_refl _, by simp [Performance.sights]⟩

theorem Performance.From.behind {p : Performance} {now later : Nat} (hp : p.From later)
    (hlater : now ≤ later) {step : Step} {feat : Feat} (hreports : ∀ x ∈ feat.reports, now ≤ x.1) :
    (p.behind ⟨now, step, feat⟩).From now where
  ends := Nat.le_trans hlater hp.ends
  sights x hx := by
    rcases List.mem_append.mp hx with hx | hx
    · rcases List.mem_cons.mp hx with rfl | hx
      · exact Nat.le_refl _
      · obtain ⟨y, hy, rfl⟩ := List.mem_map.mp hx
        exact hreports y hy
    · exact Nat.le_trans hlater (hp.sights x hx)

/-- What holds of every way to go on, and of stopping, holds behind any outcome. -/
theorem Outcome.proceed_of {motive : Performance → Prop} {lastSlot ends : Nat}
    {rest : (skip : Bool) → Performance} (hrest : ∀ skip, motive (rest skip))
    (hstop : ∀ ending, motive ⟨[], 0, lastSlot, ending, ends⟩) (outcome : Outcome) :
    motive (outcome.proceed lastSlot ends rest) := by
  cases outcome with
  | ok => exact hrest false
  | skipNext => exact hrest true
  | fail => exact hstop .actionFailed
  | endScript => exact hstop .actionEnded

namespace Setup
variable {A : Type} [Behaviour A]

/-- Performs decoded steps from `now` on. The session is looked up once a step, when the step
begins. -/
def performSteps (s : Setup A) (session : Nat → Handle) (app : AppId) (row : Row) :
    (calls lastSlot now : Nat) → (skip : Bool) → List (Nat × Step) → Performance
  | _, lastSlot, now, _, [] => ⟨[], 0, lastSlot, .ranOut, now⟩
  | calls, _, now, skip, (slot, step) :: rest =>
    let lastSlot := slot + step.width - 1
    if step = .finish then ⟨[], 0, lastSlot, .finished, now⟩
    else if skip then (s.performSteps session app row calls lastSlot now false rest).leavingOut
    else
      let feat := (s.stage app row (session now)).feat calls slot now step
      let ends := feat.ends + s.timing.gap.toNat
      let next := feat.outcome.proceed lastSlot ends fun skip =>
        s.performSteps session app row (calls + step.calls) lastSlot ends skip rest
      next.behind ⟨now, step, feat⟩

/-- Performs a row from `now` on, with `calls` special actions called before. -/
def performance (s : Setup A) (session : Nat → Handle) (app : AppId) (row : Row)
    (calls now : Nat) : Performance :=
  s.performSteps session app row calls 0 now false row.steps

theorem performSteps_from (s : Setup A) (session : Nat → Handle) (app : AppId) (row : Row)
    (calls lastSlot now : Nat) (skip : Bool) (steps : List (Nat × Step)) :
    (s.performSteps session app row calls lastSlot now skip steps).From now := by
  induction steps generalizing calls lastSlot now skip with
  | nil => exact .stop now 0 lastSlot .ranOut
  | cons entry rest ih =>
    obtain ⟨slot, step⟩ := entry
    rw [performSteps]
    by_cases hfinish : step = .finish
    · rw [if_pos hfinish]
      exact .stop now 0 _ .finished
    rw [if_neg hfinish]
    cases skip with
    | true =>
      have hrest := ih calls (slot + step.width - 1) now false
      exact ⟨hrest.ends, hrest.sights⟩
    | false =>
      rw [if_neg Bool.false_ne_true]
      obtain ⟨hends, hreports⟩ :=
        (s.stage app row (session now)).feat_bounds calls slot now step
      have hlater := Nat.le_trans hends (Nat.le_add_right _ s.timing.gap.toNat)
      refine Performance.From.behind ?_ hlater hreports
      exact Outcome.proceed_of (fun skip => ih _ _ _ skip) (fun ending => .stop _ 0 _ ending) _

/-! ## Polls in time -/

/-- The command of the lowest pressed line that the selected application maps, and its row. -/
def started? (s : Setup A) (around : Surroundings) : Option (UInt8 × Row) := do
  let map ← s.mapFor? around.selected
  let press ← map.firstPress around.bank
  let a ← s.appFor? around.selected
  let row ← a.script? press.command
  return (press.command, row)

/-- What a pad shows that polls at `time`, up to so many polls. -/
def timetable (s : Setup A) (outlook : Nat → Surroundings) :
    (polls calls time : Nat) → List (Nat × Sight)
  | 0, _, _ => []
  | polls + 1, calls, time =>
    (time, .poll (outlook time).selected) ::
      match s.started? (outlook time) with
      | none => s.timetable outlook polls calls (time + s.timing.pollEvery.toNat)
      | some (command, row) =>
        let p := s.performance (fun time => (outlook time).link.handle) (outlook time).selected row
          calls time
        let ends := p.ends + s.timing.settle.toNat
        p.sights ++ (ends, .summary (p.summary (outlook time).selected command)) ::
          s.timetable outlook polls (calls + p.calls) (ends + s.timing.pollEvery.toNat)

theorem le_of_mem_timetable (s : Setup A) (outlook : Nat → Surroundings) (polls calls time : Nat)
    {x : Nat × Sight} (hx : x ∈ s.timetable outlook polls calls time) : time ≤ x.1 := by
  induction polls generalizing calls time with
  | zero => cases hx
  | succ polls ih =>
    rw [timetable] at hx
    rcases List.mem_cons.mp hx with rfl | hx
    · exact Nat.le_refl _
    cases hstart : s.started? (outlook time) with
    | none =>
      rw [hstart] at hx
      exact Nat.le_trans (Nat.le_add_right _ _) (ih _ _ hx)
    | some found =>
      obtain ⟨cmd, row⟩ := found
      rw [hstart] at hx
      have hfrom := s.performSteps_from (fun time => (outlook time).link.handle)
        (outlook time).selected row calls 0 time false row.steps
      rcases List.mem_append.mp hx with hx | hx
      · exact hfrom.sights x hx
      have hlater := Nat.le_trans hfrom.ends (Nat.le_add_right _ s.timing.settle.toNat)
      rcases List.mem_cons.mp hx with rfl | hx
      · exact hlater
      · exact Nat.le_trans (Nat.le_trans hlater (Nat.le_add_right _ _)) (ih _ _ hx)

/-- Nothing of it is in time if the first poll is not. -/
theorem timetable_late (s : Setup A) (outlook : Nat → Surroundings) (polls calls : Nat)
    {last time : Nat} (h : last < time) :
    (s.timetable outlook polls calls time).filter (·.1 ≤ last) = [] :=
  filter_late (fun _ hx => s.le_of_mem_timetable outlook polls calls time hx) h

/-- Nor is anything behind a command that is over too late. -/
theorem timetable_overdue (s : Setup A) (outlook : Nat → Surroundings) (polls calls : Nat)
    (sights : List (Nat × Sight)) (sight : Sight) {last ends time : Nat} (h : last < ends)
    (htime : ends ≤ time) :
    (sights ++ (ends, sight) :: s.timetable outlook polls calls time).filter (·.1 ≤ last) =
      sights.filter (·.1 ≤ last) := by
  have hnot : ¬ends ≤ last := Nat.not_le.mpr h
  rw [List.filter_append, List.filter_cons_of_neg (by simpa using hnot),
    s.timetable_late _ _ _ (Nat.lt_of_lt_of_le h htime), List.append_nil]

end Setup

end ButtonPad
