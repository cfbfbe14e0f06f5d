import ButtonPad.Proofs.TimedRun

/-! # The schedule of a pad

Between commands a pad polls at even intervals; a command that a poll starts puts the next poll off
until it has settled. So all that a pad shows on the clock of milliseconds, for as long as it runs,
is a timetable read off its surroundings, and nothing is shown outside it (`Rig.boot_keeps`). -/
namespace ButtonPad

/-! ## What a poll finds -/

namespace Setup
variable {A : Type} {s : Setup A}

/-- The application's button map is the first one that is listed for it. -/
theorem mapFor?_eq_some_iff {app : AppId} {map : ButtonMap} :
    s.mapFor? app = some map ↔ ∃ before after, s.buttons = before ++ (app, map) :: after ∧
      ∀ entry ∈ before, entry.1 ≠ app := by
  rw [mapFor?, Option.map_eq_some_iff]
  constructor
  · rintro ⟨⟨id, m⟩, hfind, rfl⟩
    obtain ⟨hid, before, after, hlist, hbefore⟩ := List.find?_eq_some_iff_append.mp hfind
    obtain rfl : id = app := by simpa using hid
    exact ⟨before, after, hlist, fun entry he => by simpa using hbefore entry he⟩
  · rintro ⟨before, after, hlist, hbefore⟩
    refine ⟨(app, map), List.find?_eq_some_iff_append.mpr ⟨by simp, before, after, hlist, ?_⟩, rfl⟩
    intro entry he
    simpa using hbefore entry he

/-- What a poll finds around it: the application and the command of its press. -/
def found? (s : Setup A) (around : Surroundings) : Option (AppId × UInt8) :=
  match s.mapFor? around.selected with
  | none => none
  | some map => (map.firstPress around.bank).map fun press => (around.selected, press.command)

theorem Accepted.started?_eq (h : s.Accepted) (around : Surroundings) :
    (s.found? around = none ∧ s.started? around = none) ∨
      ∃ cmd row, s.found? around = some (around.selected, cmd) ∧
        s.started? around = some (cmd, row) ∧ Player.lookup s around.selected cmd = .ok row := by
  unfold found? started?
  cases hmap : s.mapFor? around.selected with
  | none => exact .inl ⟨rfl, rfl⟩
  | some map =>
    cases hpress : map.firstPress around.bank with
    | none => exact .inl ⟨by simp [hpress], by simp [hpress]⟩
    | some press =>
      obtain ⟨a, row, ha, hrow⟩ := h.script_of_press hmap hpress
      exact .inr ⟨press.command, row, by simp [hpress], by simp [hpress, ha, hrow],
        by simp [Player.lookup, ha, hrow]⟩

/-- Whether a press starts a command, and which one, is up to the first map of the selected
application and the lowest pressed line in it. -/
theorem Accepted.started?_iff (h : s.Accepted) (around : Surroundings) (cmd : UInt8) :
    (s.started? around).map (·.1) = some cmd ↔ ∃ before map after line,
      s.buttons = before ++ (around.selected, map) :: after ∧
      (∀ entry ∈ before, entry.1 ≠ around.selected) ∧ around.bank.isDown line ∧
      map.command line = some cmd ∧
      ∀ lower < line, around.bank.isDown lower → map.command lower = none := by
  have hfound : (s.started? around).map (·.1) = (s.found? around).map (·.2) := by
    rcases h.started?_eq around with ⟨hf, hs⟩ | ⟨cmd, row, hf, hs, -⟩ <;> rw [hf, hs] <;> rfl
  rw [hfound, found?]
  constructor
  · intro hcmd
    cases hmap : s.mapFor? around.selected with
    | none => simp [hmap] at hcmd
    | some map =>
      obtain ⟨before, after, hlist, hbefore⟩ := mapFor?_eq_some_iff.mp hmap
      simp only [hmap, Option.map_map, Option.map_eq_some_iff] at hcmd
      obtain ⟨⟨line, c⟩, hpress, hc⟩ := hcmd
      obtain rfl : c = cmd := hc
      obtain ⟨hdown, hline, hlowest⟩ := ButtonMap.firstPress_eq_some_iff.mp hpress
      exact ⟨before, map, after, line, hlist, hbefore, hdown, hline, hlowest⟩
  · rintro ⟨before, map, after, line, hlist, hbefore, hdown, hline, hlowest⟩
    have hmap := mapFor?_eq_some_iff.mpr ⟨before, after, hlist, hbefore⟩
    have hpress := ButtonMap.firstPress_eq_some_iff.mpr ⟨hdown, hline, hlowest⟩
    simp [hmap, hpress]

end Setup

namespace Player
variable {σ A : Type} {transport : Transport σ} {s : Setup A}
open ButtonPad.Flow

/-- A poll shows itself and finds what there is at its time. -/
theorem poll_shows {outlook : Nat → Surroundings} {w : World σ} (hw : w.Faces id outlook)
    {time : Nat} (htime : w.now + s.timing.pollEvery.toNat = time) :
    (poll s).Shows transport .bank w (s.found? (outlook time))
      [(time, .poll (outlook time).selected)] 0 time := by
  rw [poll_eq]
  refine (shows_pause w s.timing.pollEvery).silent_bind fun w₁ h₁ => ?_
  rw [htime] at h₁
  have haround : w₁.surroundings = outlook time := h₁.now ▸ (h₁.faces hw).now
  rw [← haround, ← h₁.now]
  have hselected : readSelected.Shows transport .bank w₁ w₁.surroundings.selected
      [(w₁.now, .poll w₁.surroundings.selected)] 0 w₁.now :=
    fun _ => ⟨_, rfl, w₁.passed_write _ rfl⟩
  refine hselected.bind_silent fun w₂ h₂ => ?_
  have haround₂ : w₂.surroundings = w₁.surroundings := by
    have hf := (h₂.faces (h₁.faces hw)).now
    rw [h₂.now, h₁.now, ← haround] at hf
    exact hf
  unfold Setup.found?
  cases hmap : s.mapFor? w₁.surroundings.selected with
  | none => exact shows_pure w₂ _ h₂.now
  | some map =>
    have hlines : readLines.Shows transport .bank w₂ w₂.surroundings.bank [] 0 w₂.now :=
      fun _ => ⟨_, rfl, w₂.passed_write _ rfl⟩
    rw [haround₂] at hlines
    exact hlines.silent_bind fun w₃ h₃ => shows_pure w₃ _ (h₃.now.trans h₂.now)

variable [Behaviour A]

/-- What is left of a run that has so many polls and so many cycles to go. -/
def rounds (s : Setup A) (polls m n : Nat) : Flow Unit := do
  let (app, cmd) ← awaitPress s m
  let _ ← command s app cmd
  cycles s polls n

theorem rounds_succ (s : Setup A) (polls m n : Nat) :
    rounds s polls (m + 1) n = poll s >>= fun
      | some (app, cmd) => command s app cmd >>= fun _ => cycles s polls n
      | none => rounds s polls m n := by
  simp only [rounds, awaitPress, LawfulMonad.bind_assoc]
  congr 1
  funext found
  cases found <;> rfl

theorem cycles_succ (s : Setup A) (polls n : Nat) :
    cycles s polls (n + 1) = enter .polling >>= fun _ => rounds s polls polls n := by
  simp only [cycles, cycle, rounds, LawfulMonad.bind_assoc]

/-- A run of the flow that is cut off at `last` shows the timetable up to then, its first poll being
one interval away. -/
def Keeps (transport : Transport σ) (s : Setup A) (outlook : Nat → Surroundings) (last turns : Nat)
    (p : Flow Unit) (w : World σ) : Prop :=
  ∀ i ≤ w.journal.size,
    (p.run ⟨.milliseconds, transport, .bank⟩ (w.upTo last)).2.sightsFrom i =
      w.sightsFrom i ++ (s.timetable outlook turns w.calls
        (w.now + s.timing.pollEvery.toNat)).filter (·.1 ≤ last)

theorem cycles_keep {outlook : Nat → Surroundings} {last turns polls n : Nat} {w : World σ}
    (h : Keeps transport s outlook last turns (rounds s polls polls n)
      (w.tell (.entered .polling))) :
    Keeps transport s outlook last turns (cycles s polls (n + 1)) w := by
  intro i hi
  have htold : w.Passed (w.tell (.entered .polling)) [] 0 w.now := w.passed_tell _
  have hrounds := h i (Nat.le_trans hi htold.size_le)
  rw [htold.sightsFrom hi, List.append_nil] at hrounds
  rw [cycles_succ]
  exact hrounds

/-- A command puts the next poll off until it has settled. -/
theorem command_keeps {outlook : Nat → Surroundings} {last turns polls n : Nat} {w : World σ}
    {app : AppId} {cmd : UInt8} {row : Row} (hlook : lookup s app cmd = .ok row)
    (h : row.Playable s.repertoire app) (hw : w.Faces id outlook) (hb : w.bound = .none)
    (hlast : w.now ≤ last) {perf : Performance}
    (hperf : s.performance (fun time => (outlook time).link.handle) app row w.calls w.now = perf)
    {ends : Nat} (hends : perf.ends + s.timing.settle.toNat = ends)
    (hnext : ∀ w', w.Passed w' (perf.sights ++ [(ends, .summary (perf.summary app cmd))])
      perf.calls ends → ends ≤ last → Keeps transport s outlook last turns (cycles s polls n) w')
    {i : Nat} (hi : i ≤ w.journal.size) :
    ((command s app cmd >>= fun _ => cycles s polls n).run ⟨.milliseconds, transport, .bank⟩
        (w.upTo last)).2.sightsFrom i =
      w.sightsFrom i ++ (perf.sights ++ (ends, .summary (perf.summary app cmd)) ::
        s.timetable outlook turns (w.calls + perf.calls)
          (ends + s.timing.pollEvery.toNat)).filter (·.1 ≤ last) := by
  have hshows : (command s app cmd).Shows transport .bank w _ _ _ _ :=
    command_shows hlook h (hw.part (·.link.handle)) hperf
  rw [hends] at hshows
  obtain ⟨hin, hout, hshown⟩ := hshows.cut hb hlast
  by_cases hle : ends ≤ last
  · obtain ⟨w', hrun, h'⟩ := hin hle
    have hdue := hshown i hi
    rw [hrun] at hdue
    have hall := List.append_cancel_left ((h'.sightsFrom hi).symm.trans hdue)
    rw [run_bind_some hrun, hnext w' h' hle i (Nat.le_trans hi h'.size_le), h'.sightsFrom hi,
      h'.calls, h'.now, List.append_assoc, hall, ← List.filter_append, List.append_assoc]
    rfl
  · have hlt := Nat.not_le.mp hle
    rw [run_bind_none _ (hout hlt), hshown i hi,
      s.timetable_overdue _ _ _ _ _ hlt (Nat.le_add_right _ _), List.filter_append,
      List.filter_cons_of_neg (by simpa using hle), List.filter_nil, List.append_nil]

/-- One turn of the schedule: a poll, the command that it starts if there is one, and the rest. -/
theorem rounds_keep (hs : s.Playable) {outlook : Nat → Surroundings} {last polls : Nat}
    (turns : Nat) {m n : Nat} {w : World σ} (hw : w.Faces id outlook) (hb : w.bound = .none)
    (hlast : w.now ≤ last) (hturns : last < w.now + turns) (hm : last < w.now + m)
    (hn : last ≤ w.now + n) (hpolls : last < w.now + polls) :
    Keeps transport s outlook last turns (rounds s polls m n) w := by
  -- each turn takes a millisecond or more, so polls and cycles do not run out before the time does
  induction turns generalizing m n w with
  | zero => omega
  | succ turns ih =>
    intro i hi
    obtain ⟨m, rfl⟩ : ∃ k, m = k + 1 := ⟨m - 1, by omega⟩
    have hpos := (Timing.sound_of_check hs.accepted.timing).pollEvery.1
    generalize htime : w.now + s.timing.pollEvery.toNat = time
    have hpoll : (poll s).Shows transport .bank w _ _ _ _ := poll_shows hw htime
    obtain ⟨hin, hout, hshown⟩ := hpoll.cut hb hlast
    rw [rounds_succ]
    by_cases hle : time ≤ last
    · obtain ⟨w₁, hrun, h₁⟩ := hin hle
      have hi₁ := Nat.le_trans hi h₁.size_le
      have hw₁ := h₁.faces hw
      have hb₁ : w₁.bound = .none := h₁.bound.trans hb
      have hnow₁ : w₁.now = time := h₁.now
      have hcalls₁ : w₁.calls = w.calls := h₁.calls
      rw [run_bind_some hrun, Setup.timetable, List.filter_cons_of_pos (by simpa using hle)]
      rcases hs.accepted.started?_eq (outlook time) with ⟨hf, hst⟩ | ⟨cmd, row, hf, hst, hlook⟩
      · rw [hf, hst]
        have hrest : Keeps transport s outlook last turns (rounds s polls m n) w₁ :=
          ih hw₁ hb₁ (by omega) (by omega) (by omega) (by omega) (by omega)
        have hshow := hrest i hi₁
        rw [h₁.sightsFrom hi, hcalls₁, hnow₁, List.append_assoc] at hshow
        exact hshow
      · rw [hf, hst]
        dsimp only
        have hnext : ∀ w₂ sights calls ends, w₁.Passed w₂ sights calls ends → ends ≤ last →
            Keeps transport s outlook last turns (cycles s polls n) w₂ := by
          intro w₂ sights calls ends h₂ hdone
          have hnow₂ : w₂.now = ends := h₂.now
          have hlater : w₁.now ≤ ends := h₂.le
          obtain ⟨n, rfl⟩ : ∃ k, n = k + 1 := ⟨n - 1, by omega⟩
          have htold : w₂.Passed (w₂.tell (.entered .polling)) [] 0 w₂.now := w₂.passed_tell _
          have hnow₃ := htold.now
          exact cycles_keep (ih (htold.faces (h₂.faces hw₁))
            (htold.bound.trans (h₂.bound.trans hb₁)) (by omega) (by omega) (by omega) (by omega)
            (by omega))
        have hshow := command_keeps hlook (hs.rows hlook) hw₁ hb₁ (hnow₁ ▸ hle) rfl rfl
          (fun w₂ h₂ hdone => hnext w₂ _ _ _ h₂ hdone) hi₁
        rw [h₁.sightsFrom hi, hcalls₁, hnow₁, List.append_assoc] at hshow
        exact hshow
    · have hlt := Nat.not_le.mp hle
      rw [run_bind_none _ (hout hlt), hshown i hi, s.timetable_late _ _ _ hlt]
      simp [hle]

end Player

/-! ## Runs from a start -/

def World.begun {σ : Type} (w : World σ) : World σ := { w with bound := .none }.reach w.now

theorem World.begun_faces {σ : Type} (w : World σ) : w.begun.Faces id w.outlook :=
  { w with bound := .none }.outlook_faces w.now

theorem World.polls_startRun {σ : Type} (w : World σ) (limit : Nat) :
    (w.startRun .milliseconds limit).bound.polls (w.startRun .milliseconds limit).now =
      limit + 1 := by
  show w.now + limit + 1 - w.now = limit + 1
  omega

namespace Player
variable {σ A : Type} [Behaviour A] {s : Setup A} {transport : Transport σ}
open ButtonPad.Flow

theorem cycles_keep_from {outlook : Nat → Surroundings} (hs : s.Playable) {last limit turns : Nat}
    {w : World σ} (hw : w.Faces id outlook) (hb : w.bound = .none) (hlast : w.now ≤ last)
    (hlimit : last ≤ w.now + limit) (hturns : limit < turns) :
    Keeps transport s outlook last turns (cycles s (limit + 1) (limit + 1)) w := by
  have htold : w.Passed (w.tell (.entered .polling)) [] 0 w.now := w.passed_tell _
  have hnow := htold.now
  exact cycles_keep (rounds_keep hs turns (htold.faces hw) (htold.bound.trans hb) (by omega)
    (by omega) (by omega) (by omega) (by omega))

end Player

namespace Rig
variable {σ A : Type} [Behaviour A] {s : Setup A}
open ButtonPad.Player

theorem forever_keeps (hs : s.Playable) (transport : Transport σ) (w : World σ) {limit turns : Nat}
    (hturns : limit < turns) :
    (Rig.forever ⟨.milliseconds, transport, .bank⟩ s limit w).sightsFrom w.journal.size =
      (s.timetable w.outlook turns w.calls (w.now + s.timing.pollEvery.toNat)).filter
        (·.1 ≤ w.now + limit) := by
  have hkeeps : Keeps transport s w.outlook (w.now + limit) turns _ w.begun :=
    cycles_keep_from hs w.begun_faces rfl (Nat.le_add_right _ _) (Nat.le_refl _) hturns
  have hshow := hkeeps w.journal.size (Nat.le_refl _)
  rw [show w.begun.sightsFrom w.journal.size = [] from w.sightsFrom_size, List.nil_append] at hshow
  rw [forever, w.polls_startRun]
  exact hshow

theorem boot_keeps (hs : s.Playable) (transport : Transport σ) (w : World σ) {limit turns : Nat}
    (hturns : limit < turns) :
    (Rig.boot ⟨.milliseconds, transport, .bank⟩ s limit w).sightsFrom w.journal.size =
      (s.timetable w.outlook turns w.calls
        (w.now + s.timing.startup.toNat + s.timing.pollEvery.toNat)).filter
        (·.1 ≤ w.now + limit) := by
  have hpause : (Flow.pause s.timing.startup).Shows transport .bank w.begun _ _ _ _ :=
    Flow.shows_pause w.begun s.timing.startup
  obtain ⟨hin, hout, hshown⟩ := hpause.cut rfl (Nat.le_add_right w.now limit)
  have hnone : w.begun.sightsFrom w.journal.size = [] := w.sightsFrom_size
  rw [boot, w.polls_startRun]
  show ((Flow.pause s.timing.startup >>= fun _ => cycles s (limit + 1) (limit + 1)).run _
    (w.begun.upTo (w.now + limit))).2.sightsFrom _ = _
  by_cases hle : w.now + s.timing.startup.toNat ≤ w.now + limit
  · obtain ⟨w₁, hrun, h₁⟩ := hin hle
    have hnow₁ : w₁.now = w.now + s.timing.startup.toNat := h₁.now
    have hkeeps : Keeps transport s w.outlook (w.now + limit) turns _ w₁ :=
      cycles_keep_from hs (h₁.faces w.begun_faces) h₁.bound (by omega) (by omega) hturns
    have hshow := hkeeps w.journal.size h₁.size_le
    rw [h₁.sightsFrom (Nat.le_refl w.journal.size), hnone, hnow₁, h₁.calls] at hshow
    rw [Flow.run_bind_some hrun]
    exact hshow
  · have hlt := Nat.not_le.mp hle
    rw [Flow.run_bind_none _ (hout hlt), hshown _ (Nat.le_refl w.journal.size), hnone,
      s.timetable_late _ _ _ (Nat.lt_of_lt_of_le hlt (Nat.le_add_right _ _))]
    rfl

end Rig

/-- **The schedule of a pad.** From power-up on, for as long as it runs, an accepted pad shows its
timetable and nothing else. A poll starts a command if and only if the first button map of the
application that is selected then maps a line that is pressed then, and it is the command of the
lowest such line. -/
theorem pad_keeps_timetable {σ A : Type} [Behaviour A] {capacity : Nat}
    {qs : List Catalog.Registration} {r : Repertoire A} {buttons : List (AppId × ButtonMap)}
    {t : Timing} {s : Setup A} (h : Setup.assemble (.after capacity qs) r buttons t = .ok s)
    (transport : Transport σ) (w : World σ) {limit turns : Nat} (hturns : limit < turns) :
    (Rig.boot ⟨.milliseconds, transport, .bank⟩ s limit w).sightsFrom w.journal.size =
        (s.timetable w.outlook turns w.calls
          (w.now + t.startup.toNat + t.pollEvery.toNat)).filter (·.1 ≤ w.now + limit) ∧
      (∀ around cmd, (s.started? around).map (·.1) = some cmd ↔ ∃ before map after line,
        buttons = before ++ (around.selected, map) :: after ∧
        (∀ entry ∈ before, entry.1 ≠ around.selected) ∧ around.bank.isDown line ∧
        map.command line = some cmd ∧
        ∀ lower < line, around.bank.isDown lower → map.command lower = none) ∧
      (∀ around cmd row, s.started? around = some (cmd, row) →
        Player.lookup s around.selected cmd = .ok row) ∧
      ∀ (source : Source) (session : Nat → Handle) (app : AppId) (cmd : UInt8) (row : Row)
        (v : World σ), Player.lookup s app cmd = .ok row → v.Faces (·.link.handle) session →
        let p := s.performance session app row v.calls v.now
        let ends := p.ends + t.settle.toNat
        v.LastsTo ends →
          ∃ v', (Player.command s app cmd).run ⟨.milliseconds, transport, source⟩ v =
              (some (.ok (p.summary app cmd)), v') ∧
            v'.now = ends ∧
            v'.sightsFrom v.journal.size = p.sights ++ [(ends, .summary (p.summary app cmd))] := by
  have hs := Setup.playable_of_assemble h
  obtain ⟨hparts, -⟩ := Setup.assemble_eq_ok_iff.mp h
  obtain rfl : s.timing = t := by rw [hparts]
  obtain rfl : s.buttons = buttons := by rw [hparts]
  refine ⟨Rig.boot_keeps hs transport w hturns, hs.accepted.started?_iff, ?_, ?_⟩
  · intro around cmd row hstarted
    rcases hs.accepted.started?_eq around with ⟨-, hnone⟩ | ⟨cmd', row', -, hsome, hlook⟩
    · rw [hnone] at hstarted
      cases hstarted
    · rw [hsome] at hstarted
      cases hstarted
      exact hlook
  · intro source session app cmd row v hlook hv p ends hl
    have hfaces : World.Faces (·.link.handle) session { v with bound := .none } :=
      ⟨hv.now, hv.later⟩
    have hshows : (Player.command s app cmd).Shows transport source { v with bound := .none } _ _
        _ _ := Player.command_shows hlook (hs.rows hlook) hfaces rfl
    obtain ⟨v', hrun, hp⟩ := hshows.lasting hl
    refine ⟨v', hrun, hp.now, ?_⟩
    rw [hp.sightsFrom (Nat.le_refl _), World.sightsFrom_size, List.nil_append]

/-- The first session is over when the first poll starts the script. The shortcut is given up in its
second step, and the line is still down at the next poll. -/
theorem pad_keeps_timetable_specimen :
    2720 < 2721 ∧
      (Specimen.setup.timetable Specimen.world.outlook 2721 0 1010).filter (·.1 ≤ 2720) =
        [(1010, .poll 0), (1010, .step), (1510, .step), (1510, .report (.key 2 0 4 true)),
          (1610, .report (.key 2 0 5 true)), (1710, .report (.key 2 0 4 false)),
          (1710, .report (.key 2 0 0 false)), (1710, .report (.mouse 2 0 0 0)),
          (2710, .summary ⟨0, 0, 2, 1, 5, 5, .actionFailed⟩), (2720, .poll 0), (2720, .step)] := by
  have hturns : 2720 < 2721 := by decide
  obtain ⟨hshown, -⟩ := pad_keeps_timetable Specimen.assemble_setup .recording Specimen.world hturns
  exact ⟨hturns, hshown.symm.trans (by decide +kernel)⟩

end ButtonPad
