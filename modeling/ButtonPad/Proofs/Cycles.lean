import ButtonPad.Player.Basic
import ButtonPad.Proofs.Assurance

/-! # What scripts and cycles keep

Between the steps of a script, and between commands, the player only looks around, waits and takes
notes. A property of histories that this much leaves alone is therefore kept by a script if its
steps keep it, and by any number of cycles if every command keeps it. -/
namespace ButtonPad

/-- The item tells of no report, and of nothing that came of a command. -/
def Item.Quiet : Item → Prop
  | .sent .. | .note (.absent ..) | .note (.refused _) | .note (.finished _) => False
  | _ => True

/-- A property that quiet items leave alone. Where it holds, the pad is safe. -/
structure History.Steady (safe inv : History → Prop) : Prop where
  safe : ∀ {past}, inv past → safe past
  quiet : ∀ {past item}, inv past → item.Quiet → inv (past ++ [item])

/-- A property that only what came of a command can end. -/
structure History.Robust (inv : History → Prop) : Prop where
  quiet : ∀ {past item}, inv past → item.Quiet → inv (past ++ [item])
  outward : ∀ {past items}, inv past → items.Outward → inv (past ++ items)

theorem History.Robust.steady {inv : History → Prop} (h : Robust inv) : Steady inv inv where
  safe := id
  quiet := h.quiet

/-- A property that polls leave alone. Where it holds, the pad is safe. -/
structure History.Patient (pollEvery : UInt32) (safe inv : History → Prop) : Prop where
  safe : ∀ {past}, inv past → safe past
  paused : ∀ {past}, inv past → inv (past ++ [.paused pollEvery])
  polled : ∀ {past app}, inv past → inv (past ++ [.polled app])
  read : ∀ {past snapshot}, inv past → inv (past ++ [.read snapshot])

theorem History.Steady.patient {safe inv : History → Prop} (h : Steady safe inv)
    (pollEvery : UInt32) : Patient pollEvery safe inv where
  safe := h.safe
  paused hp := h.quiet hp trivial
  polled hp := h.quiet hp trivial
  read hp := h.quiet hp trivial

/-- The command is mapped to a line of the application. -/
def Setup.Presses {A : Type} (s : Setup A) (app : AppId) (cmd : UInt8) : Prop :=
  ∃ map snapshot press, s.mapFor? app = some map ∧ map.firstPress snapshot = some press ∧
    press.command = cmd

namespace Player
variable {A : Type} {s : Setup A} {safe inv : History → Prop}
open ButtonPad.Flow

/-! ## Scripts -/

section Scripts
variable [Behaviour A]

theorem perform_robust (h : History.Robust inv) {events : List Event} {past : History}
    (hp : inv past) : (perform events).Assures inv past fun _ => inv :=
  assures_perform fun _ hl => ⟨h.outward hp hl.events, fun _ => h.outward hp hl.events⟩

/-- A special action keeps what its events keep, given up or not. -/
theorem callSpecial_robust (h : History.Robust inv) {call : Invocation} {slot : Slot A}
    {past : History} (hp : inv past) :
    (callSpecial s call slot).Assures inv past fun _ => inv := by
  have hcalled : inv (past ++ [.note (.invoked call)]) := h.quiet hp trivial
  simp only [callSpecial, assures_bind, assures_tell, assures_raceAct]
  refine ⟨hcalled, fun n items hl => ?_⟩
  have hitems := h.outward hcalled hl.events
  exact ⟨hitems, perform_robust h hitems, fun o _ _ => hitems⟩

/-- So does a step, unless it calls an action that is missing. No step is malformed. -/
theorem playStep_robust (h : History.Robust inv) {app : AppId} {row : Row} {cursor : Nat}
    {handle : Handle} {step : Step}
    (habsent : ∀ index, step = .special index → s.repertoire.slot? app index = none →
      ∀ {past}, inv past → inv (past ++ [.note (.absent app index)]))
    {past : History} (hp : inv past) :
    (playStep s app row cursor handle step).Assures inv past fun v past =>
      inv past ∧ ∀ f, v ≠ .stop (.malformed f) := by
  have henter : ∀ phase, inv (past ++ [.note (.entered phase)]) := fun phase => h.quiet hp trivial
  cases step with
  | finish => exact ⟨hp, by simp⟩
  | key usage | combo keys | click button =>
    simp only [playStep, assures_bind, assures_enter]
    exact ⟨henter _, (perform_robust h (henter _)).mono fun _ _ hp => ⟨hp, by simp⟩⟩
  | special index =>
    simp only [playStep, assures_bind, assures_enter]
    refine ⟨henter _, ?_⟩
    cases hslot : s.repertoire.slot? app index with
    | none =>
      have htold := habsent index rfl hslot (henter .special)
      exact ⟨htold, htold, by simp⟩
    | some slot =>
      rw [assures_bind]
      refine (callSpecial_robust h (henter _)).mono fun o _ hp => ⟨hp, ?_⟩
      cases o <;> simp [Verdict.ofOutcome]

/-- Executes a step and pauses behind it. -/
def execute (s : Setup A) (app : AppId) (row : Row) (cursor : Nat) (step : Step) :
    Flow Verdict := do
  let handle ← readHandle
  let verdict ← playStep s app row cursor handle step
  enter .reading
  pause s.timing.gap
  return verdict

/-- Goes on with the rest of a script as a verdict tells. -/
def heed (s : Setup A) (app : AppId) (row : Row) (rest : List Decoder.Item) (p : Progress) :
    Verdict → Flow (Progress × Ending)
  | .goOn => playItems s app row rest false p
  | .skipNext => playItems s app row rest true p
  | .stop ending => return (p, ending)

/-- A step that is neither the end nor left out is executed, and its verdict heeded. -/
theorem playItems_execute {app : AppId} {row : Row} {slot : Nat} {step : Step}
    (hfinish : step ≠ .finish) (rest : List Decoder.Item) (p : Progress) :
    playItems s app row (.ok (slot, step) :: rest) false p =
      execute s app row slot step >>= heed s app row rest
        { p with steps := p.steps + 1, lastSlot := slot + step.width - 1 } := by
  simp only [playItems, hfinish, if_false, execute, LawfulMonad.bind_assoc, LawfulMonad.pure_bind,
    Bool.false_eq_true]
  rfl

theorem execute_steady (h : History.Steady safe inv) {post : Verdict → Prop} {app : AppId}
    {row : Row} {cursor : Nat} {step : Step}
    (hstep : ∀ {handle past}, inv past →
      (playStep s app row cursor handle step).Assures safe past fun v past => inv past ∧ post v)
    {past : History} (hp : inv past) :
    (execute s app row cursor step).Assures safe past fun v past => inv past ∧ post v := by
  simp only [execute, assures_bind, assures_readHandle, assures_enter, assures_pause, assures_pure]
  intro handle
  have hread : inv (past ++ [.addressed handle]) := h.quiet hp trivial
  refine ⟨h.safe hread, (hstep hread).mono ?_⟩
  intro verdict past hplayed
  obtain ⟨hp, hpost⟩ := hplayed
  have hentered : inv (past ++ [.note (.entered .reading)]) := h.quiet hp trivial
  have hgap : inv (past ++ [.note (.entered .reading)] ++ [.paused s.timing.gap]) :=
    h.quiet hentered trivial
  exact ⟨h.safe hentered, h.safe hgap, hgap, hpost⟩

theorem playItems_steady (h : History.Steady safe inv) (post : Verdict → Prop) {app : AppId}
    {row : Row}
    (hstep : ∀ {cursor step handle past}, inv past →
      (playStep s app row cursor handle step).Assures safe past fun v past => inv past ∧ post v)
    (items : List Decoder.Item) (skip : Bool) (p : Progress) {past : History} (hp : inv past) :
    (playItems s app row items skip p).Assures safe past fun _ => inv := by
  induction items generalizing skip p past with
  | nil => exact hp
  | cons item rest ih =>
    cases item with
    | error fault => exact hp
    | ok entry =>
      obtain ⟨slot, step⟩ := entry
      by_cases hfinish : step = .finish
      · subst hfinish
        exact hp
      cases skip with
      | true =>
        simp only [playItems, hfinish, if_false, if_true]
        exact ih false _ hp
      | false =>
        rw [playItems_execute hfinish, assures_bind]
        refine (execute_steady h hstep hp).mono ?_
        intro verdict past hplayed
        obtain ⟨hp, -⟩ := hplayed
        cases verdict with
        | goOn => exact ih false _ hp
        | skipNext => exact ih true _ hp
        | stop ending => exact hp

end Scripts

/-! ## Polls -/

theorem poll_patient (h : History.Patient s.timing.pollEvery safe inv) {past : History}
    (hp : inv past) :
    (poll s).Assures safe past fun found past =>
      inv past ∧ ∀ x, found = some x → s.Presses x.1 x.2 := by
  have hpaused : inv (past ++ [.paused s.timing.pollEvery]) := h.paused hp
  simp only [poll_eq, assures_bind, assures_pause, assures_readSelected]
  refine ⟨h.safe hpaused, fun app => ?_⟩
  have hpolled : inv (past ++ [.paused s.timing.pollEvery] ++ [.polled app]) := h.polled hpaused
  refine ⟨h.safe hpolled, ?_⟩
  cases hmap : s.mapFor? app with
  | none => exact ⟨hpolled, by simp⟩
  | some map =>
    simp only [assures_bind, assures_readLines]
    intro snapshot
    have hread : inv
        (past ++ [.paused s.timing.pollEvery] ++ [.polled app] ++ [.read snapshot]) :=
      h.read hpolled
    refine ⟨h.safe hread, hread, fun x hx => ?_⟩
    obtain ⟨press, hpress, rfl⟩ := Option.map_eq_some_iff.mp hx
    exact ⟨map, snapshot, press, hmap, hpress, rfl⟩

theorem awaitPress_patient (h : History.Patient s.timing.pollEvery safe inv) (n : Nat)
    {past : History} (hp : inv past) :
    (awaitPress s n).Assures safe past fun x past => inv past ∧ s.Presses x.1 x.2 := by
  induction n generalizing past with
  | zero => trivial
  | succ n ih =>
    rw [awaitPress, assures_bind]
    refine (poll_patient h hp).mono ?_
    intro found past ⟨hp, hfound⟩
    cases found with
    | none => exact ih hp
    | some x => exact ⟨hp, hfound x rfl⟩

theorem awaitPress_steady (h : History.Steady safe inv) (n : Nat) {past : History}
    (hp : inv past) :
    (awaitPress s n).Assures safe past fun x past => inv past ∧ s.Presses x.1 x.2 :=
  awaitPress_patient (h.patient _) n hp

/-! ## Commands and cycles -/

variable [Behaviour A]

theorem command_steady (h : History.Steady safe inv) {app : AppId} {cmd : UInt8} {row : Row}
    (hlook : lookup s app cmd = .ok row) (good : Summary → Prop)
    (hplay : ∀ {past}, inv past →
      (playItems s app row row.items false {}).Assures safe past fun (p, ending) past =>
        inv past ∧ ∀ sends, good ⟨app, cmd, p.steps, p.skipped, sends, p.lastSlot, ending⟩)
    (hfinished : ∀ {past m}, inv past → good m → inv (past ++ [.note (.finished m)]))
    {past : History} (hp : inv past) :
    (command s app cmd).Assures safe past fun result past =>
      inv past ∧ ∃ m, result = .ok m ∧ good m := by
  have hbegun : inv (past ++ [.note (.entered .reading)]) := h.quiet hp trivial
  simp only [command, hlook, playRow, assures_bind, assures_readSent, assures_enter]
  refine fun before => ⟨h.safe hbegun, (hplay hbegun).mono ?_⟩
  intro (p, ending) past ⟨hp, hgood⟩ after
  have hsettling : inv (past ++ [.note (.entered .settling)]) := h.quiet hp trivial
  have hsettled : inv (past ++ [.note (.entered .settling)] ++ [.paused s.timing.settle]) :=
    h.quiet hsettling trivial
  have hpolling : inv (past ++ [.note (.entered .settling)] ++ [.paused s.timing.settle] ++
      [.note (.entered .polling)]) := h.quiet hsettled trivial
  have hend := hfinished hpolling (hgood (after - before))
  exact ⟨h.safe hsettling, h.safe hsettled, h.safe hpolling, h.safe hend, hend, _, rfl,
    hgood (after - before)⟩

theorem cycle_steady (h : History.Steady safe inv) {post : Except Refusal Summary → History → Prop}
    (hcommand : ∀ {app cmd past}, s.Presses app cmd → inv past →
      (command s app cmd).Assures safe past post)
    (polls : Nat) {past : History} (hp : inv past) : (cycle s polls).Assures safe past post := by
  have hpolling : inv (past ++ [.note (.entered .polling)]) := h.quiet hp trivial
  simp only [cycle, assures_bind, assures_enter]
  refine ⟨h.safe hpolling, (awaitPress_steady h polls hpolling).mono ?_⟩
  intro (app, cmd) past ⟨hp, hpress⟩
  exact hcommand hpress hp

theorem cycles_steady {polls : Nat}
    (hcycle : ∀ {past}, inv past → (cycle s polls).Assures safe past fun _ => inv)
    (n : Nat) {past : History} (hp : inv past) :
    (cycles s polls n).Assures safe past fun _ => inv := by
  induction n generalizing past with
  | zero => trivial
  | succ n ih =>
    rw [cycles, assures_bind]
    refine (hcycle hp).mono ?_
    intro result past hp
    exact ih hp

theorem boot_steady (h : History.Steady safe inv) {polls : Nat}
    (hcycle : ∀ {past}, inv past → (cycle s polls).Assures safe past fun _ => inv)
    {past : History} (hp : inv past) : (boot s polls).Assures safe past fun _ => inv := by
  have hstarted : inv (past ++ [.paused s.timing.startup]) := h.quiet hp trivial
  simp only [boot, assures_bind, assures_pause]
  exact ⟨h.safe hstarted, cycles_steady hcycle polls hstarted⟩

end Player

end ButtonPad
