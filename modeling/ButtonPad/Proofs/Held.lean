import ButtonPad.Proofs.Course
import ButtonPad.Proofs.Cycles
import ButtonPad.Proofs.Setup

/-! # Nothing stays held

What a host holds down for a session is read off the reports addressed to it. The pad's gestures
and shipped actions are tidy: they address one session and leave nothing held, and when one of them
is cut off, letting go of that session makes up for it. So nothing is held on any session whenever
the player rests, whatever becomes of the session meanwhile. -/
namespace ButtonPad

/-! ## What is held -/

/-- What a host holds down for a session. -/
structure Held where
  keys : List Usage := []
  buttons : UInt8 := 0
  deriving DecidableEq

namespace Held

/-- What is held behind a report. The empty key report lets go of all keys. -/
def after (held : Held) : Report → Held
  | .key _ _ usage true => { held with keys := usage :: held.keys }
  | .key _ modifiers usage false =>
    if modifiers = 0 ∧ usage = 0 then { held with keys := [] }
    else { held with keys := held.keys.filter (· ≠ usage) }
  | .mouse _ buttons _ _ => { held with buttons }

def on (handle : Handle) (reports : List Report) : Held :=
  (reports.filter (·.handle = handle)).foldl after {}

theorem on_append (handle : Handle) (xs ys : List Report) :
    on handle (xs ++ ys) = (ys.filter (·.handle = handle)).foldl after (on handle xs) := by
  simp [on]

theorem mem_keys_after_release {handle : Handle} {modifiers : Modifiers} {key other : Usage}
    {held : Held} (h : other ∈ (held.after (.key handle modifiers key false)).keys) :
    other ∈ held.keys ∧ other ≠ key := by
  simp only [after] at h
  split at h
  · simp at h
  · simpa using h

theorem buttons_after_key (handle : Handle) (modifiers : Modifiers) (key : Usage) (pressed : Bool)
    (held : Held) : (held.after (.key handle modifiers key pressed)).buttons = held.buttons := by
  cases pressed with
  | true => rfl
  | false =>
    simp only [after]
    split <;> rfl

theorem after_presses (handle : Handle) (modifiers : Modifiers) (keys : List Usage) (held : Held) :
    (keys.map (.key handle modifiers · true)).foldl after held =
      { held with keys := keys.reverse ++ held.keys } := by
  induction keys generalizing held with
  | nil => rfl
  | cons key rest ih =>
    rw [List.map_cons, List.foldl_cons, ih]
    simp [after]

/-- Keys that are released are not held, no matter how often they were pressed. -/
theorem after_releases (handle : Handle) (modifiers : Modifiers) {keys : List Usage} {held : Held}
    (h : ∀ key ∈ held.keys, key ∈ keys) :
    (keys.map (.key handle modifiers · false)).foldl after held = { held with keys := [] } := by
  induction keys generalizing held with
  | nil =>
    have hnone : held.keys = [] := List.eq_nil_iff_forall_not_mem.mpr fun key hk => by
      simpa using h key hk
    rw [List.map_nil, List.foldl_nil, ← hnone]
  | cons key rest ih =>
    rw [List.map_cons, List.foldl_cons, ih, buttons_after_key]
    intro other ho
    obtain ⟨hheld, hne⟩ := mem_keys_after_release ho
    exact (List.mem_cons.mp (h other hheld)).resolve_left hne

end Held

/-! ## Tidy reports -/

/-- The reports address one session, and leave nothing held on it. -/
structure Tidy (handle : Handle) (reports : List Report) : Prop where
  own : ∀ r ∈ reports, r.handle = handle
  clean : reports.foldl Held.after {} = {}

namespace Tidy
variable {handle : Handle}

theorem nil : Tidy handle [] := ⟨by simp, rfl⟩

theorem append {xs ys : List Report} (hx : Tidy handle xs) (hy : Tidy handle ys) :
    Tidy handle (xs ++ ys) where
  own := List.forall_mem_append.mpr ⟨hx.own, hy.own⟩
  clean := by rw [List.foldl_append, hx.clean, hy.clean]

theorem chord (modifiers : Modifiers) (keys : List Usage) :
    Tidy handle (keys.map (.key handle modifiers · true) ++
      keys.map (.key handle modifiers · false)) where
  own := by
    intro r hr
    rcases List.mem_append.mp hr with hr | hr <;> obtain ⟨key, -, rfl⟩ := List.mem_map.mp hr <;> rfl
  clean := by
    rw [List.foldl_append, Held.after_presses, Held.after_releases]
    intro key hk
    simpa using hk

end Tidy

/-! ## Gestures and shipped actions -/

namespace Gesture

theorem reports_chord (t : Timing) (handle : Handle) (modifiers : Modifiers) (keys : List Usage)
    (ending : Option Outcome) :
    Act.reports ⟨chord t handle modifiers keys, ending⟩ =
      keys.map (.key handle modifiers · true) ++ keys.map (.key handle modifiers · false) := by
  have hphase : ∀ pressed, (keys.flatMap (hold t handle modifiers pressed)).filterMap
      Event.report? = keys.map (.key handle modifiers · pressed) := by
    intro pressed
    induction keys with
    | nil => rfl
    | cons key rest ih =>
      rw [List.flatMap_cons, List.filterMap_append, ih]
      rfl
  rw [Act.reports, chord, List.filterMap_append, hphase, hphase]

theorem tidy_chord (t : Timing) (handle : Handle) (modifiers : Modifiers) (keys : List Usage)
    (ending : Option Outcome) :
    Tidy handle (Act.reports ⟨chord t handle modifiers keys, ending⟩) := by
  rw [reports_chord]
  exact .chord modifiers keys

theorem tidy_tap (t : Timing) (handle : Handle) (modifiers : Modifiers) (usage : Usage)
    (ending : Option Outcome) :
    Tidy handle (Act.reports ⟨tap t handle modifiers usage, ending⟩) :=
  tidy_chord t handle modifiers [usage] ending

theorem tidy_click (t : Timing) (handle : Handle) (button : Button) (ending : Option Outcome) :
    Tidy handle (Act.reports ⟨click t handle button, ending⟩) where
  own := by simp [Act.reports, click, Event.report?, Report.handle, Report.allButtonsUp]
  clean := rfl

end Gesture

namespace Typing

theorem tidy_column (t : Timing) (handle : Handle) (stroke : Option Stroke) :
    Tidy handle ((column t handle stroke).filterMap Event.report?) := by
  cases stroke with
  | none => exact .nil
  | some s => exact .chord s.modifiers [s.usage]

theorem tidy_act (t : Timing) (handle : Handle) (text : List UInt8) :
    Tidy handle (act t handle text).reports := by
  unfold act
  cases Grid.load capacity text with
  | error _ => exact .nil
  | ok grid =>
    have hcaps : Tidy handle [.key handle 0 .capsLock false] := ⟨by simp [Report.handle], rfl⟩
    refine hcaps.append ?_
    show Tidy handle ((grid.strokes.toList.flatMap (column t handle)).filterMap Event.report?)
    induction grid.strokes.toList with
    | nil => exact .nil
    | cons stroke rest ih =>
      rw [List.flatMap_cons, List.filterMap_append]
      exact (tidy_column t handle stroke).append ih

end Typing

/-- Whatever its arguments are, a shipped action is tidy. -/
theorem Builtin.tidy_act (b : Builtin) (t : Timing) (handle : Handle) (arg1 arg2 : List UInt8) :
    Tidy handle (b.act t handle arg1 arg2).reports := by
  cases b with
  | credentials =>
    have hfirst := Typing.tidy_act t handle arg1
    have hsecond := Typing.tidy_act t handle arg2
    simp only [act, Act.andThen]
    split
    · exact hfirst
    · exact hfirst
    · rw [Act.reports, List.filterMap_append]
      exact hfirst.append hsecond
  | shortcut =>
    simp only [act]
    split
    · exact Gesture.tidy_chord t handle _ arg2 _
    · exact .nil

/-- The action acts as a shipped one, or sends nothing at all, whenever it is called. -/
def Behaviour.Tame {A : Type} [Behaviour A] (action : A) : Prop :=
  ∀ call t calls, (∃ b : Builtin, act action call t calls = act b call t calls) ∨
    (act action call t calls).reports = []

theorem Behaviour.Tame.tidy {A : Type} [Behaviour A] {action : A} (h : Tame action)
    (call : Invocation) (t : Timing) (calls : Nat) :
    Tidy call.handle (act action call t calls).reports := by
  rcases h call t calls with ⟨b, hb⟩ | hnone
  · rw [hb]
    exact b.tidy_act t call.handle call.arg1 call.arg2
  · rw [hnone]
    exact .nil

theorem Action.tame_builtin (b : Builtin) : Behaviour.Tame (Action.builtin b) :=
  fun _ _ _ => .inl ⟨b, rfl⟩

theorem Action.reports_rehearsed {moves : List Move} (ending : Option Outcome)
    (h : ∀ t, ∀ m ∈ moves, (m.act t).reports = []) (call : Invocation) (t : Timing) (calls : Nat) :
    (Behaviour.act (Action.rehearsed moves ending) call t calls).reports = [] := by
  show (moves.flatMap fun m => (m.act t).events).filterMap Event.report? = []
  rw [List.filterMap_eq_nil_iff]
  intro e he
  obtain ⟨m, hm, he⟩ := List.mem_flatMap.mp he
  exact List.filterMap_eq_nil_iff.mp (h t m hm) e he

theorem Action.tame_rehearsed {moves : List Move} (ending : Option Outcome)
    (h : ∀ t, ∀ m ∈ moves, (m.act t).reports = []) :
    Behaviour.Tame (Action.rehearsed moves ending) :=
  fun call t calls => .inr (Action.reports_rehearsed ending h call t calls)

/-- All actions that the setup's scripts can call are tame. -/
def Setup.Tame {A : Type} [Behaviour A] (s : Setup A) : Prop :=
  ∀ entry ∈ s.repertoire.entries, ∀ slot ∈ entry.2, Behaviour.Tame slot.action

theorem Repertoire.mem_of_slot? {A : Type} {r : Repertoire A} {app : AppId} {index : UInt8}
    {slot : Slot A} (hslot : r.slot? app index = some slot) :
    ∃ entry ∈ r.entries, slot ∈ entry.2 := by
  unfold slot? slotsOf at hslot
  cases hfind : r.entries.find? (·.1 = app) with
  | none => simp [hfind] at hslot
  | some entry =>
    rw [hfind] at hslot
    exact ⟨entry, List.mem_of_find?_eq_some hfind, List.mem_of_getElem? hslot⟩

theorem Setup.Tame.of_slot? {A : Type} [Behaviour A] {s : Setup A} (h : s.Tame) {app : AppId}
    {index : UInt8} {slot : Slot A} (hslot : s.repertoire.slot? app index = some slot) :
    Behaviour.Tame slot.action := by
  obtain ⟨entry, hentry, hslot⟩ := Repertoire.mem_of_slot? hslot
  exact h entry hentry slot hslot

/-! ## Histories -/

/-- The player rests behind a step or a script, or looks for a press. -/
def Phase.resting : Phase → Bool
  | .polling | .reading | .settling => true
  | .special | .combo | .key | .click => false

namespace History

def phase (h : History) : Phase := (h.filterMap Item.phase?).getLast?.getD .polling

/-- Nothing is held on any session. -/
def Released (h : History) : Prop := ∀ handle, Held.on handle h.reports = {}

/-- If the player rests, nothing is held. -/
def Safe (h : History) : Prop := h.phase.resting = true → h.Released

theorem Released.safe {h : History} (hr : h.Released) : h.Safe := fun _ => hr

theorem Released.nil : Released [] := fun _ => rfl

theorem phase_entered (h : History) (phase : Phase) :
    History.phase (h ++ [.note (.entered phase)]) = phase := by
  simp [History.phase, Item.phase?]

theorem phase_leaves (h : History) {a : Act} {items : History} (hl : a.Leaves items) :
    History.phase (h ++ items) = h.phase := by
  have hnone : items.filterMap Item.phase? = [] := by
    rw [List.filterMap_eq_nil_iff]
    intro item hi
    have hevent := hl.events item hi
    cases item with
    | note n => cases hevent
    | _ => rfl
  rw [History.phase, List.filterMap_append, hnone, List.append_nil]
  rfl

theorem Released.append {past items : History} (hr : past.Released) {handle : Handle}
    (ht : Tidy handle items.reports) : Released (past ++ items) := by
  intro other
  rw [reports_append, Held.on_append, hr other]
  by_cases he : other = handle
  · subst he
    rw [List.filter_eq_self.mpr fun r hm => by simpa using ht.own r hm]
    exact ht.clean
  · rw [List.filter_eq_nil_iff.mpr fun r hm => by simpa [ht.own r hm] using Ne.symm he]
    rfl

theorem Released.concat {past : History} (hr : past.Released) {item : Item}
    (h : reports [item] = []) : Released (past ++ [item]) := by
  intro handle
  rw [reports_append, h, List.append_nil]
  exact hr handle

/-- Letting go makes up for whatever one session was sent. -/
theorem Released.letGo {past items rest : History} (hr : past.Released) {handle : Handle}
    (hown : ∀ r ∈ items.reports, r.handle = handle)
    (hrest : rest.reports = Act.reports ⟨Gesture.letGo handle, none⟩) :
    Released (past ++ items ++ rest) := by
  have hfree : ∀ held : Held, (Act.reports ⟨Gesture.letGo handle, none⟩).foldl Held.after held =
      {} := fun _ => rfl
  have ht : Tidy handle (items ++ rest).reports := by
    constructor
    · rw [reports_append, hrest]
      refine List.forall_mem_append.mpr ⟨hown, ?_⟩
      simp [Act.reports, Gesture.letGo, Event.report?, Report.handle, Report.allKeysUp,
        Report.allButtonsUp]
    · rw [reports_append, hrest, List.foldl_append, hfree]
  rw [List.append_assoc]
  exact hr.append ht

theorem released_steady : Steady Safe Released where
  safe hr := hr.safe
  quiet := by
    intro past item hr hq
    refine hr.concat ?_
    cases item with
    | sent r accepted => cases hq
    | _ => rfl

end History

/-! ## Flows -/

namespace Player
variable {A : Type} [Behaviour A] {s : Setup A}
open ButtonPad.Flow History

/-- Events that are tidy as a whole leave nothing held, and meanwhile the player does not rest. -/
theorem perform_released {events : List Event} {handle : Handle} {past : History}
    (ht : Tidy handle (Act.reports ⟨events, none⟩)) (hr : past.Released)
    (hphase : past.phase.resting = false) :
    (perform events).Assures Safe past fun _ => Released := by
  refine assures_perform fun items hl => ⟨?_, ?_⟩
  · intro hrest
    rw [phase_leaves past hl, hphase] at hrest
    cases hrest
  · intro hall
    exact hr.append (hall ▸ ht)

theorem gesture_released {phase : Phase} {events : List Event} {handle : Handle} {past : History}
    {v : Verdict} (hphase : phase.resting = false) (ht : Tidy handle (Act.reports ⟨events, none⟩))
    (hr : past.Released) :
    (do enter phase; perform events; return v : Flow Verdict).Assures Safe past fun _ =>
      Released := by
  have hentered : Released (past ++ [.note (.entered phase)]) := hr.concat rfl
  simp only [assures_bind, assures_enter, assures_pure]
  refine ⟨hentered.safe, perform_released ht hentered ?_⟩
  rw [phase_entered]
  exact hphase

/-- A special action leaves nothing held, also when it is given up anywhere in between. -/
theorem callSpecial_released {call : Invocation} {slot : Slot A}
    (ht : Behaviour.Tame slot.action) {past : History} (hr : past.Released)
    (hphase : past.phase = .special) :
    (callSpecial s call slot).Assures Safe past fun _ => Released := by
  have hcalled : Released (past ++ [.note (.invoked call)]) := hr.concat rfl
  have hspecial : History.phase (past ++ [.note (.invoked call)]) = .special := by
    rw [← hphase]
    simp [History.phase, Item.phase?]
  simp only [callSpecial, assures_bind, assures_tell, assures_raceAct]
  refine ⟨hcalled.safe, fun n items hl => ?_⟩
  have htidy := ht.tidy call s.timing n
  have hbusy : (History.phase (past ++ [.note (.invoked call)] ++ items)).resting = false := by
    rw [phase_leaves _ hl, hspecial]
    rfl
  refine ⟨?_, ?_, ?_⟩
  · intro hrest
    rw [hbusy] at hrest
    cases hrest
  · refine assures_perform fun rest hrest => ⟨fun hresting => ?_, fun hall => ?_⟩
    · rw [phase_leaves _ hrest, hbusy] at hresting
      cases hresting
    · exact hcalled.letGo (fun r hm => htidy.own r (hl.reports.subset hm)) hall
  · intro o _ hall
    exact hcalled.append (hall ▸ htidy)

theorem playStep_released (hs : s.Tame) {app : AppId} {row : Row} {cursor : Nat} {handle : Handle}
    {step : Step} {past : History} (hr : past.Released) :
    (playStep s app row cursor handle step).Assures Safe past fun _ => Released := by
  cases step with
  | finish => exact hr
  | key usage => exact gesture_released rfl (Gesture.tidy_tap s.timing handle 0 usage none) hr
  | combo keys => exact gesture_released rfl (Gesture.tidy_chord s.timing handle 0 keys none) hr
  | click button => exact gesture_released rfl (Gesture.tidy_click s.timing handle button none) hr
  | special index =>
    have hentered : Released (past ++ [.note (.entered .special)]) := hr.concat rfl
    simp only [playStep, assures_bind, assures_enter]
    refine ⟨hentered.safe, ?_⟩
    cases hslot : s.repertoire.slot? app index with
    | none => exact ⟨(hentered.concat rfl).safe, hentered.concat rfl⟩
    | some slot =>
      rw [assures_bind]
      refine (callSpecial_released (hs.of_slot? hslot) hentered (phase_entered past _)).mono ?_
      intro o past hr
      exact hr

theorem command_released (hs : s.Tame) (app : AppId) (cmd : UInt8) {past : History}
    (hr : past.Released) : (command s app cmd).Assures Safe past fun _ => Released := by
  cases hlook : lookup s app cmd with
  | error refusal =>
    simp only [command, hlook, assures_bind, assures_tell]
    exact ⟨(hr.concat rfl).safe, hr.concat rfl⟩
  | ok row =>
    refine (command_steady released_steady hlook (fun _ => True) ?_ ?_ hr).mono ?_
    · intro past hr
      refine (playItems_steady released_steady (fun _ => True) ?_ row.items false {} hr).mono ?_
      · exact fun hr => (playStep_released hs hr).mono fun _ _ hr => ⟨hr, trivial⟩
      · intro result past hr
        exact ⟨hr, fun _ => trivial⟩
    · intro past m hr _
      exact hr.concat rfl
    · intro result past h
      exact h.1

theorem cycle_released (hs : s.Tame) (polls : Nat) {past : History} (hr : past.Released) :
    (cycle s polls).Assures Safe past fun _ => Released :=
  cycle_steady released_steady (fun _ hr => command_released hs _ _ hr) polls hr

end Player

/-- **Nothing stays held.** Whatever a pad with tame actions goes through, whenever it rests nothing
is held on any session: neither keys nor buttons, however its clock, its transport and the
connection behave, and wherever a special action was given up. -/
theorem nothing_stays_held {σ A : Type} [Behaviour A] {s : Setup A} (hs : s.Tame) (rig : Rig σ)
    (w : World σ) (limit : Nat) :
    (∀ app cmd, ∃ now, (rig.command s app cmd limit w).2.history = w.history ++ now ∧
        now.Kept History.Safe ∧ ((rig.command s app cmd limit w).1.isSome → now.Released)) ∧
      (∃ now, (rig.cycle s limit w).2.history = w.history ++ now ∧
        now.Kept History.Safe ∧ ((rig.cycle s limit w).1.isSome → now.Released)) ∧
      (∃ now, (rig.forever s limit w).history = w.history ++ now ∧ now.Kept History.Safe) ∧
      ∃ now, (rig.boot s limit w).history = w.history ++ now ∧ now.Kept History.Safe := by
  have hrun : ∀ {α : Type} {p : Flow α},
      (p.Assures History.Safe [] fun _ => History.Released) →
      ∃ now, (p.run rig (w.startRun rig.clock limit)).2.history = w.history ++ now ∧
        now.Kept History.Safe ∧
        ((p.run rig (w.startRun rig.clock limit)).1.isSome → now.Released) := by
    intro α p hp
    obtain ⟨now, hist, hkept, hpost⟩ := Flow.run_assures rig (w.startRun rig.clock limit) hp
      History.Released.nil.safe
    refine ⟨now, hist, hkept, fun hsome => ?_⟩
    obtain ⟨a, ha⟩ := Option.isSome_iff_exists.mp hsome
    exact hpost a ha
  refine ⟨fun app cmd => ?_, ?_, ?_, ?_⟩
  · exact hrun (Player.command_released hs app cmd .nil)
  · exact hrun (Player.cycle_released hs _ .nil)
  · obtain ⟨now, hist, hkept, -⟩ := hrun (Player.cycles_steady (Player.cycle_released hs _)
      ((w.startRun rig.clock limit).bound.polls (w.startRun rig.clock limit).now) .nil)
    exact ⟨now, hist, hkept⟩
  · obtain ⟨now, hist, hkept, -⟩ := hrun
      (Player.boot_steady History.released_steady (Player.cycle_released hs _) .nil)
    exact ⟨now, hist, hkept⟩

theorem Specimen.tame : Specimen.setup.Tame := by
  intro entry he slot hslot
  obtain rfl := List.mem_singleton.mp he
  rcases List.mem_cons.mp hslot with rfl | hslot
  · exact Action.tame_rehearsed _ (by simp)
  · obtain rfl := List.mem_singleton.mp hslot
    exact Action.tame_builtin .shortcut

/-- The shortcut is cut off while it holds a key, and the session it is held on is over by then. -/
theorem nothing_stays_held_specimen :
    Specimen.setup.Tame ∧
      (Specimen.rig.command Specimen.setup 0 0 5000 Specimen.world).2.history.reports =
        [.key 1 0 4 true, .key 1 0 5 true, .key 1 0 4 false, .allKeysUp 1, .allButtonsUp 1] ∧
      ∃ now, (Specimen.rig.command Specimen.setup 0 0 5000 Specimen.world).2.history =
          Specimen.world.history ++ now ∧ now.Kept History.Safe := by
  obtain ⟨now, hist, hkept, -⟩ :=
    (nothing_stays_held Specimen.tame Specimen.rig Specimen.world 5000).1 0 0
  exact ⟨Specimen.tame, by decide +kernel, now, hist, hkept⟩

end ButtonPad
