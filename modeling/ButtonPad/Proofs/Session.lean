import ButtonPad.Proofs.Schedule

/-! # Reports keep to the session of their step

A step looks up the session once, when it begins. So all its reports, those included that release
what an action has left held, address the session that was begun last by then, whatever becomes of
the link meanwhile. A new session is addressed from the next step on. -/
namespace ButtonPad

/-- Every report belongs to a step, and addresses the session of the time when that step began. -/
def Sight.ToSessions (session : Nat → Handle) (sights : List (Nat × Sight)) : Prop :=
  ∀ front time r back, sights = front ++ (time, .report r) :: back →
    ∃ before start inside, front = before ++ (start, .step) :: Sight.sent inside ∧
      start ≤ time ∧ r.handle = session start

namespace Sight.ToSessions
variable {session : Nat → Handle}

theorem append {xs ys : List (Nat × Sight)} (hx : ToSessions session xs)
    (hy : ToSessions session ys) : ToSessions session (xs ++ ys) := by
  intro front time r back he
  rcases List.append_eq_append_iff.mp he with ⟨more, rfl, hys⟩ | ⟨more, hxs, hback⟩
  · obtain ⟨before, start, inside, rfl, hle, hr⟩ := hy more time r back hys
    exact ⟨xs ++ before, start, inside, (List.append_assoc ..).symm, hle, hr⟩
  · cases more with
    | nil =>
      obtain ⟨before, start, inside, hnil, -⟩ := hy [] time r back hback.symm
      simp at hnil
    | cons x rest =>
      obtain ⟨rfl, -⟩ := List.cons.inj hback
      exact hx front time r rest hxs

/-- Sights that are no reports belong to no session. -/
theorem of_silent {sights : List (Nat × Sight)} (h : Sight.reports sights = []) :
    ToSessions session sights := by
  rintro front time r back rfl
  rw [Sight.reports_append] at h
  have hback := List.append_eq_nil_iff.mp h
  cases hback.2

theorem step {start : Nat} {reports : List (Nat × Report)}
    (h : ∀ x ∈ reports, start ≤ x.1 ∧ x.2.handle = session start) :
    ToSessions session ((start, .step) :: Sight.sent reports) := by
  intro front time r back he
  cases front with
  | nil => cases he
  | cons x front =>
    obtain ⟨rfl, hsent⟩ := List.cons.inj he
    obtain ⟨inside, late, rfl, rfl, hlate⟩ := List.map_eq_append_iff.mp hsent
    obtain ⟨y, rest, rfl, hy, -⟩ := List.map_eq_cons_iff.mp hlate
    cases hy
    obtain ⟨hle, hr⟩ := h y (by simp)
    exact ⟨[], start, inside, rfl, hle, hr⟩

theorem filter {sights : List (Nat × Sight)} (h : ToSessions session sights) (last : Nat) :
    ToSessions session (sights.filter (·.1 ≤ last)) := by
  intro front time r back he
  obtain ⟨xs, ys, rfl, rfl, hys⟩ := List.filter_eq_append_iff.mp he
  obtain ⟨late, rest, rfl, hlate, hdue, -⟩ := List.filter_eq_cons_iff.mp hys
  obtain ⟨before, start, inside, hfront, hle, hr⟩ := h (xs ++ late) time r rest (by simp)
  have htime : start ≤ last := Nat.le_trans hle (by simpa using hdue)
  refine ⟨before.filter (·.1 ≤ last), start, inside.filter (·.1 ≤ last), ?_, hle, hr⟩
  have hnone : late.filter (·.1 ≤ last) = [] := List.filter_eq_nil_iff.mpr hlate
  have hsent : (Sight.sent inside).filter (·.1 ≤ last) =
      Sight.sent (inside.filter (·.1 ≤ last)) := List.filter_map
  have hboth := congrArg (List.filter (·.1 ≤ last)) hfront
  rw [List.filter_append, hnone, List.append_nil, List.filter_append,
    List.filter_cons_of_pos (by simpa using htime), hsent] at hboth
  exact hboth

end Sight.ToSessions

/-! ## Steps -/

/-- If an act addresses one session, so does its feat, in time or not. -/
theorem Act.feat_own {a : Act} {handle : Handle} (h : ∀ r ∈ a.reports, r.handle = handle)
    (limit : UInt32) (now : Nat) :
    ∀ x ∈ (a.feat limit handle now).reports, x.2.handle = handle := by
  intro x hx
  rcases a.inTime_or_late limit with ⟨outcome, hend, hle⟩ | hlate
  · rw [feat_inTime hend hle] at hx
    exact h _ (Event.mem_of_stampFrom hx)
  · rw [feat_late hlate] at hx
    rcases List.mem_append.mp hx with hx | hx
    · exact h _ (Event.mem_of_stampFrom (List.mem_filter.mp hx).1)
    · rcases List.mem_cons.mp hx with rfl | hx
      · rfl
      · obtain rfl := List.mem_singleton.mp hx
        rfl

namespace Setup
variable {A : Type} [Behaviour A] {s : Setup A}

theorem Tame.feat_own (hs : s.Tame) (app : AppId) (row : Row) (handle : Handle)
    (calls slot now : Nat) (step : Step) :
    ∀ x ∈ ((s.stage app row handle).feat calls slot now step).reports, x.2.handle = handle := by
  have hdeed : ∀ {events : List Event}, Tidy handle (Act.reports ⟨events, none⟩) →
      ∀ x ∈ Event.stampFrom now events, x.2.handle = handle :=
    fun ht x hx => ht.own _ (Event.mem_of_stampFrom hx)
  cases step with
  | finish => exact hdeed .nil
  | key usage => exact hdeed (Gesture.tidy_tap s.timing handle 0 usage none)
  | combo keys => exact hdeed (Gesture.tidy_chord s.timing handle 0 keys none)
  | click button => exact hdeed (Gesture.tidy_click s.timing handle button none)
  | special index =>
    refine Act.feat_own ?_ _ _
    unfold stage
    cases hslot : s.repertoire.slot? app index with
    | none => simp [hslot, Act.reports]
    | some action =>
      simp only [hslot]
      exact ((hs.of_slot? hslot).tidy _ _ _).own

theorem Tame.performSteps_toSessions (hs : s.Tame) (session : Nat → Handle) (app : AppId)
    (row : Row) (calls lastSlot now : Nat) (skip : Bool) (steps : List (Nat × Step)) :
    Sight.ToSessions session
      (s.performSteps session app row calls lastSlot now skip steps).sights := by
  induction steps generalizing calls lastSlot now skip with
  | nil => exact .of_silent rfl
  | cons entry rest ih =>
    obtain ⟨slot, step⟩ := entry
    rw [performSteps]
    by_cases hfinish : step = .finish
    · rw [if_pos hfinish]
      exact .of_silent rfl
    rw [if_neg hfinish]
    cases skip with
    | true => exact ih _ _ _ false
    | false =>
      rw [if_neg Bool.false_ne_true]
      have hown := hs.feat_own app row (session now) calls slot now step
      obtain ⟨-, htimes⟩ := (s.stage app row (session now)).feat_bounds calls slot now step
      have hstep := Sight.ToSessions.step fun x hx => ⟨htimes x hx, hown x hx⟩
      exact hstep.append (Outcome.proceed_of (motive := fun p => Sight.ToSessions session p.sights)
        (fun skip => ih _ _ _ skip) (fun ending => .of_silent rfl) _)

end Setup

/-! ## Runs -/

/-- The run is not over, and these sessions are to come. -/
structure World.Attentive {σ : Type} (session : Nat → Handle) (last : Nat) (w : World σ) :
    Prop where
  endless : w.bound = .none
  time : w.now ≤ last
  faces : w.Faces (·.link.handle) session

namespace Flow
variable {σ α β : Type} {transport : Transport σ} {source : Source} {session : Nat → Handle}
  {last : Nat}

/-- Every run of the flow that ends at `last` keeps each step to its session. If it does not end
before the flow, it may go on. -/
def Attends (transport : Transport σ) (source : Source) (session : Nat → Handle) (last : Nat)
    (p : Flow α) : Prop :=
  ∀ w : World σ, w.Attentive session last →
    (∀ i ≤ w.journal.size, ∃ sights,
      (p.run ⟨.milliseconds, transport, source⟩ (w.upTo last)).2.sightsFrom i =
        w.sightsFrom i ++ sights ∧ Sight.ToSessions session sights) ∧
    ∀ a, (p.run ⟨.milliseconds, transport, source⟩ (w.upTo last)).1 = some a →
      ∃ w' : World σ,
        p.run ⟨.milliseconds, transport, source⟩ (w.upTo last) = (some a, w'.upTo last) ∧
        w'.Attentive session last ∧ w.journal.size ≤ w'.journal.size

theorem Attends.of_shows {p : Flow α}
    (h : ∀ w : World σ, w.Attentive session last → ∃ a sights calls ends,
      p.Shows transport source w a sights calls ends ∧ Sight.ToSessions session sights) :
    p.Attends transport source session last := by
  intro w hw
  obtain ⟨a, sights, calls, ends, hshows, hsessions⟩ := h w hw
  obtain ⟨hin, hout, hshown⟩ := hshows.cut hw.endless hw.time
  refine ⟨fun i hi => ⟨_, hshown i hi, hsessions.filter last⟩, fun b hb => ?_⟩
  by_cases hle : ends ≤ last
  · obtain ⟨w', hrun, hp⟩ := hin hle
    rw [hrun] at hb
    cases hb
    have hnow : w'.now = ends := hp.now
    exact ⟨w', hrun, ⟨hp.bound.trans hw.endless, hnow ▸ hle, hp.faces hw.faces⟩, hp.size_le⟩
  · rw [hout (Nat.not_le.mp hle)] at hb
    cases hb

theorem Attends.bind {p : Flow α} {f : α → Flow β} (hp : p.Attends transport source session last)
    (hf : ∀ a, (f a).Attends transport source session last) :
    (p >>= f).Attends transport source session last := by
  intro w hw
  obtain ⟨hshown, hgoes⟩ := hp w hw
  cases hrun : (p.run ⟨.milliseconds, transport, source⟩ (w.upTo last)).1 with
  | none =>
    rw [run_bind_none f hrun]
    exact ⟨hshown, fun b hb => by cases hb⟩
  | some a =>
    obtain ⟨w₁, hrun₁, hw₁, hsize₁⟩ := hgoes a hrun
    obtain ⟨hshown₁, hgoes₁⟩ := hf a w₁ hw₁
    rw [run_bind_some hrun₁]
    constructor
    · intro i hi
      obtain ⟨sights, hfirst, hsights⟩ := hshown i hi
      obtain ⟨sights₁, hsecond, hsights₁⟩ := hshown₁ i (Nat.le_trans hi hsize₁)
      rw [hrun₁] at hfirst
      have hfirst' : w₁.sightsFrom i = w.sightsFrom i ++ sights := hfirst
      refine ⟨sights ++ sights₁, ?_, hsights.append hsights₁⟩
      rw [hsecond, hfirst', List.append_assoc]
    · intro b hb
      obtain ⟨w', hrun', hw', hsize'⟩ := hgoes₁ b hb
      exact ⟨w', hrun', hw', Nat.le_trans hsize₁ hsize'⟩

theorem attends_pure (a : α) : (pure a : Flow α).Attends transport source session last :=
  .of_shows fun w _ => ⟨a, [], 0, w.now, shows_pure w a rfl, .of_silent rfl⟩

theorem attends_pause (ms : UInt32) : (pause ms).Attends transport source session last :=
  .of_shows fun w _ => ⟨(), [], 0, _, shows_pause w ms, .of_silent rfl⟩

theorem attends_tell (n : Note) : (tell n).Attends transport source session last := by
  refine .of_shows fun w _ => ⟨(), _, 0, w.now, shows_tell w n, .of_silent ?_⟩
  cases n with
  | entered phase => cases phase <;> rfl
  | _ => rfl

theorem attends_readSelected : readSelected.Attends transport source session last :=
  .of_shows fun w _ => ⟨w.surroundings.selected, _, 0, w.now,
    fun _ => ⟨_, rfl, w.passed_write _ rfl⟩, .of_silent rfl⟩

/-- Reading the lines may change what is to be read next, but never a session. -/
theorem attends_readLines : readLines.Attends transport source session last := by
  intro w hw
  let seen := w.surroundings.read source
  let w₁ : World σ := { w with surroundings := seen.2 }.write (.read seen.1)
  have hrun : readLines.run ⟨.milliseconds, transport, source⟩ (w.upTo last) =
      (some seen.1, w₁.upTo last) := rfl
  have hjournal : w₁.journal.toList = w.journal.toList ++ [⟨w.now, .read seen.1⟩] := by
    simp [w₁, World.write]
  have hfaces := hw.faces.read source
  rw [hrun]
  refine ⟨fun i hi => ⟨[], World.sightsFrom_behind hjournal hi, .of_silent rfl⟩, fun a ha => ?_⟩
  cases ha
  exact ⟨w₁, rfl, ⟨hw.endless, hw.time, ⟨hfaces.now, hfaces.later⟩⟩, by simp [w₁, World.write]⟩

theorem attends_stall : (stall : Flow α).Attends transport source session last :=
  fun w _ => ⟨fun i _ => ⟨[], (List.append_nil _).symm, .of_silent rfl⟩, fun a ha => by cases ha⟩

end Flow

namespace Player
variable {σ A : Type} {transport : Transport σ} {source : Source} {session : Nat → Handle}
  {last : Nat} {s : Setup A}
open ButtonPad.Flow

theorem poll_attends : (poll s).Attends transport source session last := by
  refine (attends_pause _).bind fun _ => attends_readSelected.bind fun app => ?_
  cases s.mapFor? app with
  | none => exact attends_pure none
  | some map => exact attends_readLines.bind fun snapshot => attends_pure _

theorem awaitPress_attends (n : Nat) : (awaitPress s n).Attends transport source session last := by
  induction n with
  | zero => exact attends_stall
  | succ n ih =>
    refine poll_attends.bind fun found => ?_
    cases found with
    | none => exact ih
    | some press => exact attends_pure press

variable [Behaviour A]

theorem command_attends (hplay : s.Playable) (hs : s.Tame) (app : AppId) (cmd : UInt8) :
    (command s app cmd).Attends transport source session last := by
  cases hlook : lookup s app cmd with
  | error refusal =>
    simp only [command, hlook]
    exact (attends_tell _).bind fun _ => attends_pure _
  | ok row =>
    refine .of_shows fun w hw => ⟨_, _, _, _,
      command_shows hlook (hplay.rows hlook) hw.faces rfl, ?_⟩
    exact (hs.performSteps_toSessions session app row _ 0 _ false row.steps).append (.of_silent rfl)

theorem cycle_attends (hplay : s.Playable) (hs : s.Tame) (polls : Nat) :
    (cycle s polls).Attends transport source session last :=
  (attends_tell _).bind fun _ => (awaitPress_attends polls).bind fun (app, cmd) =>
    command_attends hplay hs app cmd

theorem cycles_attends (hplay : s.Playable) (hs : s.Tame) (polls n : Nat) :
    (cycles s polls n).Attends transport source session last := by
  induction n with
  | zero => exact attends_stall
  | succ n ih => exact (cycle_attends hplay hs polls).bind fun _ => ih

theorem boot_attends (hplay : s.Playable) (hs : s.Tame) (polls : Nat) :
    (boot s polls).Attends transport source session last :=
  (attends_pause _).bind fun _ => cycles_attends hplay hs polls polls

end Player

/-- **Reports keep to the session of their step.** Whatever an accepted pad with tame actions does,
wherever its lines are read from and however sessions come and go, every report addresses the
session that was begun last when its step began, also when the step is cut off between a press and
its release. So a new session is addressed from the next step on. -/
theorem reports_keep_to_their_session {σ A : Type} [Behaviour A] {capacity : Nat}
    {qs : List Catalog.Registration} {r : Repertoire A} {buttons : List (AppId × ButtonMap)}
    {t : Timing} {s : Setup A} (h : Setup.assemble (.after capacity qs) r buttons t = .ok s)
    (hs : s.Tame) (transport : Transport σ) (source : Source) (w : World σ) (limit : Nat) :
    let rig : Rig σ := ⟨.milliseconds, transport, source⟩
    let shown := fun w' : World σ => w'.sightsFrom w.journal.size
    (∀ app cmd, Sight.ToSessions w.sessionAt (shown (rig.command s app cmd limit w).2)) ∧
      Sight.ToSessions w.sessionAt (shown (rig.cycle s limit w).2) ∧
      Sight.ToSessions w.sessionAt (shown (rig.forever s limit w)) ∧
      Sight.ToSessions w.sessionAt (shown (rig.boot s limit w)) := by
  intro rig shown
  have hplay := Setup.playable_of_assemble h
  have hrun : ∀ {α : Type} {p : Flow α},
      p.Attends transport source w.sessionAt (w.now + limit) →
      Sight.ToSessions w.sessionAt (shown (p.run rig (w.startRun rig.clock limit)).2) := by
    intro α p hp
    have hbegun : w.begun.Attentive w.sessionAt (w.now + limit) :=
      ⟨rfl, Nat.le_add_right _ _, { w with bound := .none }.sessionAt_faces w.now⟩
    obtain ⟨sights, hshown, hsessions⟩ := (hp w.begun hbegun).1 w.journal.size (Nat.le_refl _)
    rw [show w.begun.sightsFrom w.journal.size = [] from w.sightsFrom_size, List.nil_append]
      at hshown
    rw [← hshown] at hsessions
    exact hsessions
  exact ⟨fun app cmd => hrun (Player.command_attends hplay hs app cmd),
    hrun (Player.cycle_attends hplay hs _), hrun (Player.cycles_attends hplay hs _ _),
    hrun (Player.boot_attends hplay hs _)⟩

/-- The first session is begun while the shortcut already holds its keys. -/
def Specimen.newWorld : World Unit :=
  { surroundings := { bank := Snapshot.empty.set 0 true }
    upcoming := [(1600, .connect 2), (1700, .disconnect)]
    transport := () }

/-- Without a session, session 0 is addressed. The shortcut goes on with it to the end, and
addresses the new session when its turn comes again. -/
theorem reports_keep_to_their_session_specimen :
    let shown := (Specimen.rig.boot Specimen.setup 3300 Specimen.newWorld).sightsFrom 0
    Specimen.setup.Tame ∧ Sight.ToSessions Specimen.newWorld.sessionAt shown ∧
      Specimen.newWorld.sessionAt 1510 = 0 ∧ Specimen.newWorld.sessionAt 3220 = 2 ∧
      shown = [(1010, .poll 0), (1010, .step), (1510, .step), (1510, .report (.key 0 0 4 true)),
        (1610, .report (.key 0 0 5 true)), (1710, .report (.key 0 0 4 false)),
        (1710, .report (.key 0 0 0 false)), (1710, .report (.mouse 0 0 0 0)),
        (2710, .summary ⟨0, 0, 2, 1, 5, 5, .actionFailed⟩), (2720, .poll 0), (2720, .step),
        (3220, .step), (3220, .report (.key 2 0 4 true))] := by
  intro shown
  obtain ⟨-, -, -, hsessions⟩ := reports_keep_to_their_session Specimen.assemble_setup Specimen.tame
    .recording .bank Specimen.newWorld 3300
  exact ⟨Specimen.tame, hsessions, rfl, rfl, by decide +kernel⟩

end ButtonPad
