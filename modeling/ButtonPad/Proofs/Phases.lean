import ButtonPad.Proofs.Course
import ButtonPad.Proofs.Cycles
import ButtonPad.Proofs.Score
import ButtonPad.Proofs.Setup

/-! # Where the player is

Whatever the player does, it does in a phase. A script that is enacted is a row of scenes, one for
each step that is not left out (`Setup.Enacts`), and a command does what its scenes say, each thing
in its scene's phase (`Setup.Goes`). The world's phase is the one that was entered last
(`Flow.run_enters`). -/
namespace ButtonPad

/-! ## The phase of a world -/

def History.phases (h : History) : List Phase := h.filterMap Item.phase?

@[simp] theorem History.phases_append (g h : History) : phases (g ++ h) = phases g ++ phases h :=
  List.filterMap_append

namespace World
variable {σ : Type}

/-- From the first world to the second one the phase keeps up with the journal. -/
def Enters (w w' : World σ) : Prop :=
  ∃ more : History, w'.history = w.history ++ more ∧ w'.phase = more.phases.getLast?.getD w.phase

namespace Enters
variable {w w' w'' : World σ}

theorem of_same (hist : w'.history = w.history) (phase : w'.phase = w.phase) : w.Enters w' :=
  ⟨[], by simpa using hist, phase⟩

theorem trans (h : w.Enters w') (h' : w'.Enters w'') : w.Enters w'' := by
  obtain ⟨more, hist, hphase⟩ := h
  obtain ⟨more', hist', hphase'⟩ := h'
  refine ⟨more ++ more', ?_, ?_⟩
  · rw [hist', hist, List.append_assoc]
  · rw [hphase', hphase, History.phases_append, List.getLast?_append, Option.getD_or]

/-- What is known of the journal's growth is known of the phase. -/
theorem phase (h : w.Enters w') {now : History} (hist : w'.history = w.history ++ now) :
    w'.phase = now.phases.getLast?.getD w.phase := by
  obtain ⟨more, hmore, hphase⟩ := h
  rw [hist] at hmore
  rwa [List.append_cancel_left hmore]

end Enters

theorem enters_write (w : World σ) {item : Item} (h : item.phase? = none) :
    w.Enters (w.write item) :=
  ⟨[item], history_write w item, by simp [History.phases, h, write]⟩

theorem enters_tell (w : World σ) (phase : Phase) : w.Enters (w.tell (.entered phase)) :=
  ⟨[.note (.entered phase)], history_tell w _, rfl⟩

theorem enters_send (t : Transport σ) (r : Report) (w : World σ) : w.Enters (w.send t r) := by
  obtain ⟨accepted, hist⟩ := history_send t r w
  exact ⟨_, hist, rfl⟩

theorem course_enters (rig : Rig σ) : Course rig Enters where
  refl _ := .of_same rfl rfl
  trans := .trans
  write w _ _ h := enters_write w h
  enter := enters_tell
  send w r := enters_send rig.transport r w
  reach _ _ := .of_same rfl rfl
  bound _ _ := .of_same rfl rfl
  lines _ := .of_same rfl rfl
  call _ := .of_same rfl rfl

end World

/-- **The world's phase is the one entered last**, whatever the flow does and wherever it is cut
off. -/
theorem Flow.run_enters {σ α : Type} (rig : Rig σ) (p : Flow α) (w : World σ) :
    w.Enters (p.run rig w).2 :=
  (World.course_enters rig).run p w

/-! ## Beats -/

/-- What the player does, and where it goes. -/
inductive Beat where
  | entered (phase : Phase)
  | did (e : Event)
  deriving DecidableEq

namespace Beat

def phase? : Beat → Option Phase
  | .entered phase => some phase
  | .did _ => none

/-- Each event with the phase that it is done in. -/
def staged (phase : Phase) : List Beat → List (Phase × Event)
  | [] => []
  | .entered next :: rest => staged next rest
  | .did e :: rest => (phase, e) :: staged phase rest

theorem staged_did (phase : Phase) (events : List Event) (rest : List Beat) :
    staged phase (events.map .did ++ rest) = events.map (phase, ·) ++ staged phase rest := by
  induction events with
  | nil => rfl
  | cons e more ih => exact congrArg ((phase, e) :: ·) ih

/-- What follows is staged from the phase on that was entered last. -/
theorem staged_append (phase : Phase) (front rest : List Beat) :
    staged phase (front ++ rest) =
      staged phase front ++ staged ((front.filterMap phase?).getLast?.getD phase) rest := by
  induction front generalizing phase with
  | nil => rfl
  | cons beat more ih =>
    cases beat with
    | entered next =>
      have hlast : ((entered next :: more).filterMap phase?).getLast?.getD phase =
          (more.filterMap phase?).getLast?.getD next := by
        simp [phase?, List.getLast?_cons]
      rw [List.cons_append, staged, staged, ih, hlast]
    | did e => exact congrArg ((phase, e) :: ·) (ih phase)

theorem staged_prefix (phase : Phase) {front beats : List Beat} (h : front <+: beats) :
    staged phase front <+: staged phase beats := by
  obtain ⟨rest, rfl⟩ := h
  rw [staged_append]
  exact List.prefix_append _ _

end Beat

def Item.beat? : Item → Option Beat
  | .note (.entered phase) => some (.entered phase)
  | item => item.event?.map .did

theorem Item.phase?_beat (item : Item) : item.beat?.bind Beat.phase? = item.phase? := by
  cases item with
  | note n => cases n <;> rfl
  | _ => rfl

namespace History

def beats (h : History) : List Beat := h.filterMap Item.beat?

def staged (phase : Phase) (h : History) : List (Phase × Event) := Beat.staged phase h.beats

@[simp] theorem beats_append (g h : History) : beats (g ++ h) = beats g ++ beats h :=
  List.filterMap_append

theorem phases_eq (h : History) : h.phases = h.beats.filterMap Beat.phase? := by
  rw [beats, List.filterMap_filterMap]
  exact congrArg h.filterMap (funext fun item => (Item.phase?_beat item).symm)

theorem Outward.beats {items : History} (h : items.Outward) :
    History.beats items = items.events.map .did := by
  induction items with
  | nil => rfl
  | cons item rest ih =>
    obtain ⟨hitem, hrest⟩ := List.forall_mem_cons.mp h
    cases item with
    | sent r accepted => exact congrArg (.did (.report r) :: ·) (ih hrest)
    | paused ms => exact congrArg (.did (.pause ms) :: ·) (ih hrest)
    | _ => cases hitem

theorem Outward.beats_behind {items : History} (h : items.Outward) (past : History) :
    History.beats (past ++ items) = past.beats ++ items.events.map .did := by
  rw [beats_append, h.beats]

end History

/-! ## Scenes -/

/-- The phase in which a step is played. A finish step is only read. -/
def Step.phase : Step → Phase
  | .finish => .reading
  | .key _ => .key
  | .combo _ => .combo
  | .click _ => .click
  | .special _ => .special

/-- A step that is played, and what is done in it. -/
structure Scene where
  step : Step
  events : List Event

namespace Scene

/-- The phases that a command with these scenes goes through. -/
def phases (scenes : List Scene) : List Phase :=
  .reading :: scenes.flatMap (fun scene => [scene.step.phase, .reading]) ++ [.settling, .polling]

def staged (t : Timing) (scenes : List Scene) : List (Phase × Event) :=
  scenes.flatMap (fun scene =>
      scene.events.map (scene.step.phase, ·) ++ [(.reading, .pause t.gap)]) ++
    [(.settling, .pause t.settle)]

def beats (t : Timing) (scene : Scene) : List Beat :=
  .entered scene.step.phase :: scene.events.map .did ++ [.entered .reading, .did (.pause t.gap)]

def script (t : Timing) (scenes : List Scene) : List Beat :=
  .entered .reading :: scenes.flatMap (beats t)

def settling (t : Timing) : List Beat :=
  [.entered .settling, .did (.pause t.settle), .entered .polling]

def command (t : Timing) (scenes : List Scene) : List Beat := script t scenes ++ settling t

theorem script_append (t : Timing) (done scenes : List Scene) :
    script t (done ++ scenes) = script t done ++ scenes.flatMap (beats t) := by
  simp [script]

theorem phases_command (t : Timing) (scenes : List Scene) :
    (command t scenes).filterMap Beat.phase? = phases scenes := by
  have hscene : ∀ scene : Scene,
      (beats t scene).filterMap Beat.phase? = [scene.step.phase, .reading] := by
    intro scene
    have hevents : (scene.events.map Beat.did).filterMap Beat.phase? = [] := by
      simp [List.filterMap_eq_nil_iff, Beat.phase?]
    simp [beats, Beat.phase?, List.filterMap_cons, hevents]
  simp [command, script, settling, phases, Beat.phase?, List.filterMap_cons,
    List.filterMap_flatMap, hscene]

theorem staged_command (t : Timing) (phase : Phase) (scenes : List Scene) :
    Beat.staged phase (command t scenes) = staged t scenes := by
  have hscripts : ∀ rest, Beat.staged .reading (scenes.flatMap (beats t) ++ rest) =
      scenes.flatMap (fun scene =>
        scene.events.map (scene.step.phase, ·) ++ [(.reading, .pause t.gap)]) ++
        Beat.staged .reading rest := by
    intro rest
    induction scenes with
    | nil => rfl
    | cons scene more ih =>
      simp only [List.flatMap_cons, beats, List.append_assoc, List.cons_append, Beat.staged,
        Beat.staged_did, List.nil_append, ih]
  exact hscripts _

end Scene

/-! ## Scripts -/

/-- What may be done in a step on this stage, and what that means for the rest of the script. A
special action that is given up has done some of its act; then all is released. -/
inductive Stage.Does (stage : Stage) (slot : Nat) : Step → List Event → Player.Verdict → Prop
  | key (usage : Usage) :
    Does stage slot (.key usage) (Gesture.tap stage.timing stage.handle 0 usage) .goOn
  | combo (keys : List Usage) :
    Does stage slot (.combo keys) (Gesture.chord stage.timing stage.handle 0 keys) .goOn
  | click (button : Button) :
    Does stage slot (.click button) (Gesture.click stage.timing stage.handle button) .goOn
  | special {index : UInt8} {calls : Nat} {items : History} {outcome : Outcome}
    (leaves : (stage.act slot index calls).Leaves items)
    (all : items.reports = (stage.act slot index calls).reports)
    (ending : (stage.act slot index calls).ending = some outcome) :
    Does stage slot (.special index) items.events (.ofOutcome outcome)
  | givenUp {index : UInt8} {calls : Nat} {items : History}
    (leaves : (stage.act slot index calls).Leaves items) :
    Does stage slot (.special index) (items.events ++ Gesture.letGo stage.handle)
      (.stop .actionFailed)

/-- The scenes that the items of a row may be enacted in, the first step being left out if the flag
is set, and how that ends. Steps that are left out and a finish step have no scenes. -/
inductive Setup.Enacts {A : Type} [Behaviour A] (s : Setup A) (app : AppId) (row : Row) :
    Bool → List Decoder.Item → List Scene → Ending → Prop
  | ranOut (skip : Bool) : Enacts s app row skip [] [] .ranOut
  | malformed (skip : Bool) (fault : Script.Fault) (rest : List Decoder.Item) :
    Enacts s app row skip (.error fault :: rest) [] (.malformed fault)
  | finish (skip : Bool) (slot : Nat) (rest : List Decoder.Item) :
    Enacts s app row skip (.ok (slot, .finish) :: rest) [] .finished
  | leftOut {slot : Nat} {step : Step} {rest : List Decoder.Item} {scenes : List Scene}
    {ending : Ending} (h : step ≠ .finish) (next : Enacts s app row false rest scenes ending) :
    Enacts s app row true (.ok (slot, step) :: rest) scenes ending
  | goOn {handle : Handle} {slot : Nat} {step : Step} {rest : List Decoder.Item}
    {events : List Event} {scenes : List Scene} {ending : Ending}
    (does : (s.stage app row handle).Does slot step events .goOn)
    (next : Enacts s app row false rest scenes ending) :
    Enacts s app row false (.ok (slot, step) :: rest) (⟨step, events⟩ :: scenes) ending
  | skipNext {handle : Handle} {slot : Nat} {step : Step} {rest : List Decoder.Item}
    {events : List Event} {scenes : List Scene} {ending : Ending}
    (does : (s.stage app row handle).Does slot step events .skipNext)
    (next : Enacts s app row true rest scenes ending) :
    Enacts s app row false (.ok (slot, step) :: rest) (⟨step, events⟩ :: scenes) ending
  | stop {handle : Handle} {slot : Nat} {step : Step} {rest : List Decoder.Item}
    {events : List Event} {ending : Ending}
    (does : (s.stage app row handle).Does slot step events (.stop ending)) :
    Enacts s app row false (.ok (slot, step) :: rest) [⟨step, events⟩] ending

theorem Stage.exists_does (stage : Stage) (slot : Nat) {step : Step} (h : step ≠ .finish) :
    ∃ events verdict, stage.Does slot step events verdict := by
  cases step with
  | finish => exact absurd rfl h
  | key usage => exact ⟨_, _, .key usage⟩
  | combo keys => exact ⟨_, _, .combo keys⟩
  | click button => exact ⟨_, _, .click button⟩
  | special index =>
    exact ⟨_, _, .givenUp (Act.Leaves.of_idle (stage.act slot index 0) (List.forall_mem_nil _))⟩

namespace Setup
variable {A : Type} [Behaviour A] {s : Setup A} {app : AppId} {row : Row}

theorem does_absent {handle : Handle} {index : UInt8} {slot : Nat}
    (h : s.repertoire.slot? app index = none) :
    (s.stage app row handle).Does slot (.special index) [] (.stop .actionFailed) := by
  have hact : (s.stage app row handle).act slot index 0 = { ending := some .fail } := by
    simp only [stage, h]
  refine @Stage.Does.special _ slot index 0 [] .fail ?_ ?_ ?_
  · exact .of_idle _ (List.forall_mem_nil _)
  · rw [hact]
    rfl
  · rw [hact]

theorem exists_enacts_behind {handle : Handle} {slot : Nat} {step : Step} {events : List Event}
    {verdict : Player.Verdict} {rest : List Decoder.Item}
    (hdoes : (s.stage app row handle).Does slot step events verdict)
    (hrest : ∀ skip, ∃ scenes ending, s.Enacts app row skip rest scenes ending) :
    ∃ scenes ending,
      s.Enacts app row false (.ok (slot, step) :: rest) (⟨step, events⟩ :: scenes) ending := by
  cases verdict with
  | goOn =>
    obtain ⟨scenes, ending, h⟩ := hrest false
    exact ⟨scenes, ending, .goOn hdoes h⟩
  | skipNext =>
    obtain ⟨scenes, ending, h⟩ := hrest true
    exact ⟨scenes, ending, .skipNext hdoes h⟩
  | stop ending => exact ⟨[], ending, .stop hdoes⟩

/-- Every script can be enacted to its end. -/
theorem exists_enacts (s : Setup A) (app : AppId) (row : Row) (skip : Bool)
    (items : List Decoder.Item) :
    ∃ scenes ending, s.Enacts app row skip items scenes ending := by
  induction items generalizing skip with
  | nil => exact ⟨[], _, .ranOut skip⟩
  | cons item rest ih =>
    cases item with
    | error fault => exact ⟨[], _, .malformed skip fault rest⟩
    | ok entry =>
      obtain ⟨slot, step⟩ := entry
      by_cases hfinish : step = .finish
      · subst hfinish
        exact ⟨[], _, .finish skip slot rest⟩
      cases skip with
      | true =>
        obtain ⟨scenes, ending, h⟩ := ih false
        exact ⟨scenes, ending, .leftOut hfinish h⟩
      | false =>
        obtain ⟨events, verdict, hdoes⟩ := (s.stage app row 0).exists_does slot hfinish
        obtain ⟨scenes, ending, h⟩ := exists_enacts_behind hdoes ih
        exact ⟨_, ending, h⟩

variable (s app row)

/-- What is written down is the beginning of a command that enacts the row. -/
def Underway (past : History) : Prop :=
  ∃ scenes ending, s.Enacts app row false row.items scenes ending ∧
    past.beats <+: Scene.command s.timing scenes

/-- Behind these scenes the items remain of the row. -/
def Remains (done : List Scene) (skip : Bool) (items : List Decoder.Item) : Prop :=
  ∀ scenes ending, s.Enacts app row skip items scenes ending →
    s.Enacts app row false row.items (done ++ scenes) ending

variable {s app row}

theorem Enacts.underway {scenes : List Scene} {ending : Ending} {past : History}
    (h : s.Enacts app row false row.items scenes ending)
    (hp : past.beats <+: Scene.script s.timing scenes) : s.Underway app row past :=
  ⟨scenes, ending, h, hp.trans (List.prefix_append _ _)⟩

namespace Remains
variable {done : List Scene} {skip : Bool} {items rest : List Decoder.Item}

theorem start : s.Remains app row [] false row.items := fun _ _ => id

theorem underway (h : s.Remains app row done skip items) {past : History}
    (hp : past.beats <+: Scene.script s.timing done) : s.Underway app row past := by
  obtain ⟨scenes, ending, henacts⟩ := s.exists_enacts app row skip items
  refine (h scenes ending henacts).underway (hp.trans ?_)
  rw [Scene.script_append]
  exact List.prefix_append _ _

theorem underway_within {handle : Handle} {slot : Nat} {step : Step} {events : List Event}
    {verdict : Player.Verdict} (h : s.Remains app row done false (.ok (slot, step) :: rest))
    (hdoes : (s.stage app row handle).Does slot step events verdict) {past : History}
    (hp : past.beats <+: Scene.script s.timing (done ++ [⟨step, events⟩])) :
    s.Underway app row past := by
  obtain ⟨scenes, ending, henacts⟩ := exists_enacts_behind hdoes fun skip =>
    s.exists_enacts app row skip rest
  have hscript := Scene.script_append s.timing (done ++ [⟨step, events⟩]) scenes
  rw [← List.append_cons] at hscript
  refine (h _ ending henacts).underway (hp.trans ?_)
  rw [hscript]
  exact List.prefix_append _ _

theorem leftOut {slot : Nat} {step : Step}
    (h : s.Remains app row done true (.ok (slot, step) :: rest)) (hne : step ≠ .finish) :
    s.Remains app row done false rest :=
  fun scenes ending henacts => h scenes ending (.leftOut hne henacts)

theorem goOn {handle : Handle} {slot : Nat} {step : Step} {events : List Event}
    (h : s.Remains app row done false (.ok (slot, step) :: rest))
    (hdoes : (s.stage app row handle).Does slot step events .goOn) :
    s.Remains app row (done ++ [⟨step, events⟩]) false rest := by
  intro scenes ending henacts
  rw [← List.append_cons]
  exact h _ ending (.goOn hdoes henacts)

theorem skipNext {handle : Handle} {slot : Nat} {step : Step} {events : List Event}
    (h : s.Remains app row done false (.ok (slot, step) :: rest))
    (hdoes : (s.stage app row handle).Does slot step events .skipNext) :
    s.Remains app row (done ++ [⟨step, events⟩]) true rest := by
  intro scenes ending henacts
  rw [← List.append_cons]
  exact h _ ending (.skipNext hdoes henacts)

end Remains

end Setup

/-! ## Flows -/

namespace Player
variable {A : Type} [Behaviour A] {s : Setup A} {app : AppId} {row : Row}
open ButtonPad.Flow

theorem perform_does {safe : History → Prop} {events : List Event} {past : History}
    (hsafe : ∀ now : History, now.beats <+: past.beats ++ events.map .did → safe now) :
    (perform events).Assures safe past fun _ now =>
      now.beats = past.beats ++ events.map .did := by
  refine assures_events fun items ho hp => ⟨hsafe _ ?_, fun hall => ?_⟩
  · rw [ho.beats_behind]
    exact (List.prefix_append_right_inj _).mpr (hp.map Beat.did)
  · rw [ho.beats_behind, hall]

theorem beats_entered (past : History) (phase : Phase) (rest : List Beat) :
    past.beats ++ .entered phase :: rest =
      History.beats (past ++ [.note (.entered phase)]) ++ rest := by
  rw [History.beats_append, List.append_assoc]
  rfl

theorem gesture_does {safe : History → Prop} {stage : Stage} {slot : Nat} {step : Step}
    {events : List Event} {v : Verdict} (hdoes : stage.Does slot step events v) {past : History}
    (hsafe : ∀ {events verdict}, stage.Does slot step events verdict → ∀ now : History,
      now.beats <+: past.beats ++ .entered step.phase :: events.map .did → safe now) :
    (do enter step.phase; perform events; return v : Flow Verdict).Assures safe past
      fun verdict now => ∃ events, stage.Does slot step events verdict ∧
        now.beats = past.beats ++ .entered step.phase :: events.map .did := by
  have hwithin := hsafe hdoes
  simp only [beats_entered] at hwithin ⊢
  simp only [assures_bind, assures_enter, assures_pure]
  exact ⟨hwithin _ (List.prefix_append _ _),
    (perform_does hwithin).mono fun _ now hnow => ⟨events, hdoes, hnow⟩⟩

/-- A special action does some of its act or all of it; when it is given up, all is released. -/
theorem callSpecial_does {safe : History → Prop} {cursor : Nat} {handle : Handle} {index : UInt8}
    {slot : Slot A} (hslot : s.repertoire.slot? app index = some slot) {past : History}
    (hsafe : ∀ {events verdict},
      (s.stage app row handle).Does cursor (.special index) events verdict →
      ∀ now : History, now.beats <+: past.beats ++ events.map .did → safe now) :
    (callSpecial s ⟨app, index, row, cursor, handle, slot.arg1, slot.arg2⟩ slot).Assures safe past
      fun outcome now => ∃ events,
        (s.stage app row handle).Does cursor (.special index) events (.ofOutcome outcome) ∧
        now.beats = past.beats ++ events.map .did := by
  have hact : ∀ n, Behaviour.act slot.action
      ⟨app, index, row, cursor, handle, slot.arg1, slot.arg2⟩ s.timing n =
        (s.stage app row handle).act cursor index n := by
    intro n
    simp only [Setup.stage, hslot]
  simp only [callSpecial, assures_bind, assures_tell, assures_raceAct, hact]
  generalize hcalled : past ++ [Item.note (.invoked _)] = called
  have hbeats : past.beats = called.beats := by
    rw [← hcalled, History.beats_append]
    exact (List.append_nil _).symm
  rw [hbeats] at hsafe ⊢
  have hsilent : ((s.stage app row handle).act cursor index 0).Leaves [] :=
    .of_idle _ (List.forall_mem_nil _)
  refine ⟨hsafe (.givenUp hsilent) called (List.prefix_append _ _), fun n items hl => ?_⟩
  have hitems := History.Outward.beats_behind hl.events called
  refine ⟨hsafe (.givenUp hl) _ ?_, ?_, fun o hend hall => ?_⟩
  · rw [hitems, List.map_append, ← List.append_assoc]
    exact List.prefix_append _ _
  · refine (perform_does fun now hnow => hsafe (.givenUp hl) now ?_).mono fun _ now hnow => ?_
    · rwa [hitems, List.append_assoc, ← List.map_append] at hnow
    · refine ⟨_, .givenUp hl, ?_⟩
      rwa [hitems, List.append_assoc, ← List.map_append] at hnow
  · exact ⟨_, .special hl hall hend, hitems⟩

theorem playStep_does {safe : History → Prop} {slot : Nat} {handle : Handle} {step : Step}
    (hne : step ≠ .finish) {past : History}
    (hsafe : ∀ {events verdict}, (s.stage app row handle).Does slot step events verdict →
      ∀ now : History, now.beats <+: past.beats ++ .entered step.phase :: events.map .did →
        safe now) :
    (playStep s app row slot handle step).Assures safe past fun verdict now =>
      ∃ events, (s.stage app row handle).Does slot step events verdict ∧
        now.beats = past.beats ++ .entered step.phase :: events.map .did := by
  cases step with
  | finish => exact absurd rfl hne
  | key usage => exact gesture_does (.key usage) hsafe
  | combo keys => exact gesture_does (.combo keys) hsafe
  | click button => exact gesture_does (.click button) hsafe
  | special index =>
    obtain ⟨events, verdict, hdoes⟩ := (s.stage app row handle).exists_does slot hne
    simp only [beats_entered] at hsafe ⊢
    simp only [playStep, assures_bind, assures_enter]
    refine ⟨hsafe hdoes _ (List.prefix_append _ _), ?_⟩
    cases hslot : s.repertoire.slot? app index with
    | none =>
      have hbeats : History.beats (past ++ [.note (.entered .special)] ++
          [.note (.absent app index)]) = History.beats (past ++ [.note (.entered .special)]) :=
        (History.beats_append _ _).trans (List.append_nil _)
      exact ⟨hsafe hdoes _ (hbeats ▸ List.prefix_append _ _), [], Setup.does_absent hslot,
        hbeats.trans (List.append_nil _).symm⟩
    | some found =>
      rw [assures_bind]
      exact callSpecial_does hslot hsafe

theorem execute_enacts {slot : Nat} {step : Step} {rest : List Decoder.Item} {done : List Scene}
    (hremains : s.Remains app row done false (.ok (slot, step) :: rest)) (hne : step ≠ .finish)
    {past : History} (hpast : past.beats = Scene.script s.timing done) :
    (execute s app row slot step).Assures (s.Underway app row) past fun verdict now =>
      ∃ handle events, (s.stage app row handle).Does slot step events verdict ∧
        now.beats = Scene.script s.timing (done ++ [⟨step, events⟩]) := by
  simp only [execute, assures_bind, assures_readHandle, assures_enter, assures_pause, assures_pure]
  intro handle
  have hread : History.beats (past ++ [.addressed handle]) = Scene.script s.timing done := by
    rw [History.beats_append, hpast]
    exact List.append_nil _
  have hscene : ∀ events, Scene.script s.timing (done ++ [⟨step, events⟩]) =
      History.beats (past ++ [.addressed handle]) ++ .entered step.phase :: events.map .did ++
        [.entered .reading, .did (.pause s.timing.gap)] := by
    intro events
    rw [hread, Scene.script_append]
    simp [Scene.beats]
  refine ⟨hremains.underway (hread ▸ List.prefix_refl _), (playStep_does hne ?_).mono ?_⟩
  · intro events verdict hdoes now hnow
    refine hremains.underway_within hdoes (hnow.trans ?_)
    rw [hscene]
    exact List.prefix_append _ _
  · intro verdict now hplayed
    obtain ⟨events, hdoes, hnow⟩ := hplayed
    have hgap : History.beats (now ++ [.note (.entered .reading)] ++ [.paused s.timing.gap]) =
        Scene.script s.timing (done ++ [⟨step, events⟩]) := by
      rw [hscene, ← hnow, List.append_assoc, History.beats_append]
      rfl
    have hreading : History.beats (now ++ [.note (.entered .reading)]) <+:
        Scene.script s.timing (done ++ [⟨step, events⟩]) := by
      rw [← hgap, History.beats_append (now ++ _)]
      exact List.prefix_append _ _
    exact ⟨hremains.underway_within hdoes hreading,
      hremains.underway_within hdoes (hgap ▸ List.prefix_refl _), handle, events, hdoes, hgap⟩

/-- Wherever the script is, the row is under way, and at its end it is enacted. -/
theorem playItems_enacts (items : List Decoder.Item) (skip : Bool) (p : Progress)
    {done : List Scene} (hremains : s.Remains app row done skip items) {past : History}
    (hpast : past.beats = Scene.script s.timing done) (hsteps : p.steps = done.length) :
    (playItems s app row items skip p).Assures (s.Underway app row) past fun result now =>
      ∃ scenes, s.Enacts app row false row.items scenes result.2 ∧
        now.beats = Scene.script s.timing scenes ∧ result.1.steps = scenes.length := by
  -- what remains of the row behind the scenes so far carries the induction
  induction items generalizing skip p done past with
  | nil => exact ⟨done, List.append_nil done ▸ hremains _ _ (.ranOut skip), hpast, hsteps⟩
  | cons item rest ih =>
    cases item with
    | error fault =>
      exact ⟨done, List.append_nil done ▸ hremains _ _ (.malformed skip fault rest), hpast, hsteps⟩
    | ok entry =>
      obtain ⟨slot, step⟩ := entry
      by_cases hfinish : step = .finish
      · subst hfinish
        exact ⟨done, List.append_nil done ▸ hremains _ _ (.finish skip slot rest), hpast, hsteps⟩
      cases skip with
      | true =>
        simp only [playItems, hfinish, if_false, if_true]
        exact ih false _ (hremains.leftOut hfinish) hpast hsteps
      | false =>
        rw [playItems_execute hfinish, assures_bind]
        refine (execute_enacts hremains hfinish hpast).mono ?_
        intro verdict now hplayed
        obtain ⟨session, events, hdoes, hnow⟩ := hplayed
        have hcount : p.steps + 1 = (done ++ [(⟨step, events⟩ : Scene)]).length := by
          simp [hsteps]
        cases verdict with
        | goOn => exact ih false _ (hremains.goOn hdoes) hnow hcount
        | skipNext => exact ih true _ (hremains.skipNext hdoes) hnow hcount
        | stop ending => exact ⟨_, hremains _ _ (.stop hdoes), hnow, hcount⟩

theorem command_enacts {cmd : UInt8} (hlook : lookup s app cmd = .ok row) :
    (command s app cmd).Assures (s.Underway app row) [] fun result now =>
      ∃ m scenes, result = .ok m ∧ s.Enacts app row false row.items scenes m.ending ∧
        now.beats = Scene.command s.timing scenes ∧ m.steps = scenes.length := by
  have hstart : s.Remains app row [] false row.items := .start
  simp only [command, hlook, playRow, assures_bind, assures_readSent, assures_enter]
  refine fun before => ⟨hstart.underway (List.prefix_refl _),
    (playItems_enacts row.items false {} hstart rfl rfl).mono ?_⟩
  intro result now hplayed after
  obtain ⟨p, ending⟩ := result
  obtain ⟨scenes, henacts, hscript, hsteps⟩ := hplayed
  have hbeats : ∀ items : History, History.beats (now ++ items) =
      Scene.script s.timing scenes ++ items.beats := by
    intro items
    rw [History.beats_append, hscript]
  have hunderway : ∀ items : History, items.beats <+: Scene.settling s.timing →
      s.Underway app row (now ++ items) := by
    intro items hitems
    refine ⟨scenes, ending, henacts, ?_⟩
    rw [hbeats]
    exact (List.prefix_append_right_inj _).mpr hitems
  simp only [assures_pause, assures_tell, assures_pure, List.append_assoc]
  exact ⟨hunderway _ ⟨_, rfl⟩, hunderway _ ⟨_, rfl⟩, hunderway _ ⟨_, rfl⟩, hunderway _ ⟨_, rfl⟩,
    _, scenes, rfl, henacts, hbeats _, hsteps⟩

end Player

/-! ## Runs -/

/-- The phases that a command goes through, what it does, each event with its phase, and what comes
of it. Without a result it was cut off somewhere. -/
inductive Setup.Goes {A : Type} [Behaviour A] (s : Setup A) (app : AppId) (cmd : UInt8) :
    List Phase → List (Phase × Event) → Option (Except Refusal Summary) → Prop
  | refused {refusal : Refusal} (look : Player.lookup s app cmd = .error refusal) :
    Goes s app cmd [] [] (some (.error refusal))
  | cutOff {row : Row} {scenes : List Scene} {ending : Ending} {phases : List Phase}
    {staged : List (Phase × Event)} (look : Player.lookup s app cmd = .ok row)
    (enacts : s.Enacts app row false row.items scenes ending)
    (entered : phases <+: Scene.phases scenes) (done : staged <+: Scene.staged s.timing scenes) :
    Goes s app cmd phases staged none
  | played {row : Row} {scenes : List Scene} {m : Summary}
    (look : Player.lookup s app cmd = .ok row)
    (enacts : s.Enacts app row false row.items scenes m.ending) (steps : m.steps = scenes.length) :
    Goes s app cmd (Scene.phases scenes) (Scene.staged s.timing scenes) (some (.ok m))

namespace Player
variable {σ A : Type} [Behaviour A] (rig : Rig σ) (s : Setup A)
open ButtonPad.Flow

theorem command_goes (app : AppId) (cmd : UInt8) (w : World σ) (phase : Phase) :
    ∃ now : History, ((command s app cmd).run rig w).2.history = w.history ++ now ∧
      s.Goes app cmd now.phases (now.staged phase) ((command s app cmd).run rig w).1 := by
  cases hlook : lookup s app cmd with
  | error refusal =>
    refine ⟨[.note (.refused refusal)], ?_, ?_⟩ <;> simp only [command, hlook]
    · exact World.history_tell w _
    · exact .refused hlook
  | ok row =>
    have hstart : s.Underway app row [] := Setup.Remains.start.underway List.nil_prefix
    obtain ⟨now, hist, hkept, hpost⟩ := run_assures rig w (command_enacts hlook) hstart
    refine ⟨now, hist, ?_⟩
    rw [History.phases_eq, History.staged]
    cases hresult : ((command s app cmd).run rig w).1 with
    | none =>
      obtain ⟨scenes, ending, henacts, hbeats⟩ := hkept now (List.prefix_refl _)
      refine .cutOff hlook henacts ?_ ?_
      · rw [← Scene.phases_command s.timing]
        exact hbeats.filterMap Beat.phase?
      · rw [← Scene.staged_command s.timing phase]
        exact Beat.staged_prefix phase hbeats
    | some result =>
      obtain ⟨m, scenes, rfl, henacts, hbeats, hsteps⟩ := hpost result hresult
      rw [hbeats, Scene.phases_command, Scene.staged_command]
      exact .played hlook henacts hsteps

/-- Nothing but so many pauses of a poll. -/
def Watched (pollEvery : UInt32) (polls : Nat) (past : History) : Prop :=
  past.beats = (List.replicate polls (.pause pollEvery)).map .did

theorem watched_patient (pollEvery : UInt32) :
    History.Patient pollEvery (fun past => ∃ polls, Watched pollEvery polls past)
      fun past => ∃ polls, Watched pollEvery polls past where
  safe := id
  paused := by
    intro past h
    obtain ⟨polls, hp⟩ := h
    refine ⟨polls + 1, ?_⟩
    rw [Watched, History.beats_append, hp, List.replicate_succ', List.map_append]
    rfl
  polled := by
    intro past app h
    obtain ⟨polls, hp⟩ := h
    exact ⟨polls, (History.beats_append _ _).trans ((List.append_nil _).trans hp)⟩
  read := by
    intro past snapshot h
    obtain ⟨polls, hp⟩ := h
    exact ⟨polls, (History.beats_append _ _).trans ((List.append_nil _).trans hp)⟩

theorem Watched.phases {pollEvery : UInt32} {polls : Nat} {past : History}
    (h : Watched pollEvery polls past) (now : History) :
    History.phases (.note (.entered .polling) :: past ++ now) = .polling :: now.phases := by
  have hnone : past.phases = [] := by
    rw [History.phases_eq, h, List.filterMap_eq_nil_iff]
    simp [Beat.phase?]
  rw [History.phases_append]
  exact congrArg (.polling :: · ++ now.phases) hnone

theorem Watched.staged {pollEvery : UInt32} {polls : Nat} {past : History}
    (h : Watched pollEvery polls past) (phase : Phase) (now : History) :
    History.staged phase (.note (.entered .polling) :: past ++ now) =
      List.replicate polls (.polling, .pause pollEvery) ++ now.staged .polling := by
  have hbeats : History.beats (.note (.entered .polling) :: past ++ now) =
      .entered .polling :: ((List.replicate polls (.pause pollEvery)).map .did ++ now.beats) := by
    rw [History.beats_append, ← h]
    rfl
  rw [History.staged, hbeats, Beat.staged, Beat.staged_did, List.map_replicate]
  rfl

theorem cycle_goes (n : Nat) (w : World σ) :
    ∃ (now : History) (polls : Nat) (phases : List Phase) (staged : List (Phase × Event)),
      ((cycle s n).run rig w).2.history = w.history ++ now ∧
      now.phases = .polling :: phases ∧
      now.staged w.phase =
        List.replicate polls (.polling, .pause s.timing.pollEvery) ++ staged ∧
      (((cycle s n).run rig w).1 = none ∧ phases = [] ∧ staged = [] ∨
        ∃ app cmd, s.Presses app cmd ∧
          s.Goes app cmd phases staged ((cycle s n).run rig w).1) := by
  have hrun : (cycle s n).run rig w = ((awaitPress s n).bind fun found =>
      command s found.1 found.2).run rig (w.tell (.entered .polling)) := rfl
  have hnone : ∃ polls, Watched s.timing.pollEvery polls [] := ⟨0, rfl⟩
  obtain ⟨past, hpast, hkept, hpost⟩ := run_assures rig (w.tell (.entered .polling))
    (awaitPress_patient (watched_patient s.timing.pollEvery) n hnone) hnone
  rw [World.history_tell] at hpast
  rw [hrun, run_bind]
  rcases hawait : (awaitPress s n).run rig (w.tell (.entered .polling)) with ⟨_ | ⟨app, cmd⟩, w'⟩
  · rw [hawait] at hpast
    obtain ⟨polls, hwatched⟩ := hkept past (List.prefix_refl _)
    have hphases := hwatched.phases []
    have hstaged := hwatched.staged w.phase []
    rw [List.append_nil] at hphases hstaged
    exact ⟨_, polls, [], [], hpast.trans (List.append_assoc ..), hphases, hstaged,
      .inl ⟨rfl, rfl, rfl⟩⟩
  · rw [hawait] at hpast hpost
    obtain ⟨⟨polls, hwatched⟩, hpress⟩ := hpost (app, cmd) rfl
    obtain ⟨now, hnow, hgoes⟩ := command_goes rig s app cmd w' .polling
    refine ⟨_, polls, now.phases, now.staged .polling, ?_, hwatched.phases now,
      hwatched.staged w.phase now, .inr ⟨app, cmd, hpress, hgoes⟩⟩
    rw [hnow, hpast]
    simp

end Player

/-- **The player is where its steps are.** Whatever a command or a cycle does, it does in the phase
that belongs to it: polls while polling, a step in the phase of its kind, with what makes up for an
action that is given up, the gap behind it in reading, and the last pause in settling. A command
that comes to its end has entered reading, then for each step that it executed the step's phase and
reading again, then settling, then polling. A run that is cut off has done a beginning of this. -/
theorem phases_follow_steps {σ A : Type} [Behaviour A] (s : Setup A) (rig : Rig σ) (w : World σ)
    (limit : Nat) :
    (∀ app cmd, ∃ now : History,
      (rig.command s app cmd limit w).2.history = w.history ++ now ∧
      (rig.command s app cmd limit w).2.phase = now.phases.getLast?.getD w.phase ∧
      s.Goes app cmd now.phases (now.staged w.phase) (rig.command s app cmd limit w).1) ∧
    ∃ (now : History) (polls : Nat) (phases : List Phase) (staged : List (Phase × Event)),
      (rig.cycle s limit w).2.history = w.history ++ now ∧
      (rig.cycle s limit w).2.phase = now.phases.getLast?.getD w.phase ∧
      now.phases = .polling :: phases ∧
      now.staged w.phase =
        List.replicate polls (.polling, .pause s.timing.pollEvery) ++ staged ∧
      ((rig.cycle s limit w).1 = none ∧ phases = [] ∧ staged = [] ∨
        ∃ app cmd, s.Presses app cmd ∧ s.Goes app cmd phases staged (rig.cycle s limit w).1) := by
  refine ⟨fun app cmd => ?_, ?_⟩
  · obtain ⟨now, hist, hgoes⟩ :=
      Player.command_goes rig s app cmd (w.startRun rig.clock limit) w.phase
    exact ⟨now, hist, (Flow.run_enters rig _ _).phase hist, hgoes⟩
  · obtain ⟨now, polls, phases, staged, hist, hrest⟩ :=
      Player.cycle_goes rig s _ (w.startRun rig.clock limit)
    exact ⟨now, polls, phases, staged, hist, (Flow.run_enters rig _ _).phase hist, hrest⟩

/-- The key behind the first special action is left out, and the shortcut is given up. -/
example : (Specimen.rig.command Specimen.setup 0 0 5000 Specimen.world).2.history.phases =
    [.reading, .special, .reading, .special, .reading, .settling, .polling] := by
  decide +kernel

end ButtonPad
