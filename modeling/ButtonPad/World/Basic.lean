import ButtonPad.Flow
import ButtonPad.World.Clock
import ButtonPad.World.Transport

/-! The world that a flow runs in: the time, the surroundings with the changes to come, and a
journal of all that the pad did and saw. -/
namespace ButtonPad

/-- What is written into the journal. -/
inductive Item where
  | note (n : Note)
  | sent (r : Report) (accepted : Bool)
  | paused (ms : UInt32)
  | addressed (handle : Handle)
  | polled (app : AppId)
  | read (s : Snapshot)
  deriving DecidableEq

structure Entry where
  time : Nat
  item : Item
  deriving DecidableEq

/-- What the pad is wired to. -/
structure Rig (σ : Type) where
  clock : Clock
  transport : Transport σ
  source : Source := .bank

structure World (σ : Type) where
  now : Nat := 0
  surroundings : Surroundings := {}
  /-- Changes to come, in the order of their times. -/
  upcoming : List (Nat × Change) := []
  transport : σ
  /-- Reports handed to the transport. -/
  sends : Nat := 0
  /-- Reports that the transport refused. -/
  failed : Nat := 0
  calls : Nat := 0
  phase : Phase := .polling
  bound : Bound := .none
  journal : Array Entry := #[]

namespace World
variable {σ : Type}

def write (w : World σ) (item : Item) : World σ :=
  { w with journal := w.journal.push { time := w.now, item } }

/-- Writes a note down; entering a phase changes the phase. -/
def tell (w : World σ) (n : Note) : World σ :=
  match n with
  | .entered phase => { w with phase }.write (.note n)
  | _ => w.write (.note n)

def change (w : World σ) (c : Change) : World σ :=
  { w with surroundings := w.surroundings.change c }

/-! ## Reports -/

def transmit (t : Transport σ) (r : Report) (w : World σ) : Except DeviceFault Unit × World σ :=
  let (result, transport) := t.deliver w.surroundings r w.transport
  (result, { w with transport }.write (.sent r result.isOk))

/-- Sends a report. Whether the transport takes it is counted and has no other effect. -/
def send (t : Transport σ) (r : Report) (w : World σ) : World σ :=
  let (result, w) := w.transmit t r
  { w with sends := w.sends + 1, failed := if result.isOk then w.failed else w.failed + 1 }

/-! ## Time -/

/-- Moves the clock to `time`; the changes due by then happen. -/
def reach (w : World σ) (time : Nat) : World σ :=
  let due := w.upcoming.takeWhile (·.1 ≤ time)
  { w with
    now := time
    surroundings := w.surroundings.changes (due.map (·.2))
    upcoming := w.upcoming.dropWhile (·.1 ≤ time) }

/-- Waits until `time`, or until the end of the run when that is earlier; says whether `time` was
reached. -/
def waitUntil (w : World σ) (time : Nat) : Bool × World σ :=
  match w.bound with
  | .until last => if last < time then (false, w.reach last) else (true, w.reach time)
  | _ => (true, w.reach time)

/-- Waits for ever: up to the end of the run. -/
def waitForever (w : World σ) : World σ :=
  match w.bound with
  | .until last => w.reach last
  | _ => w

/-- Begins a pause, unless none may begin any more. -/
def beginPause (ms : UInt32) (w : World σ) : Bool × World σ :=
  match w.bound with
  | .pauses 0 => (false, w)
  | .pauses (left + 1) => (true, { w with bound := .pauses left }.write (.paused ms))
  | _ => (true, w.write (.paused ms))

/-- A whole pause; says whether the run goes on behind it. -/
def pause (c : Clock) (ms : UInt32) (w : World σ) : Bool × World σ :=
  match w.beginPause ms with
  | (false, w) => (false, w)
  | (true, w) => if c.ticks ms = 0 then (true, w) else w.waitUntil (w.now + c.ticks ms)

/-! ## Acts against the clock -/

/-- The end of an act's time, which begins to run when the act first waits. -/
def startTimer (c : Clock) (limit : UInt32) (deadline : Option Nat) (w : World σ) :
    Option Nat × World σ :=
  match deadline with
  | some time => (some time, w)
  | none =>
    match w.beginPause limit with
    | (false, w) => (none, w)
    | (true, w) => (some (w.now + c.ticks limit), w)

def timeOut (w : World σ) (deadline : Nat) : Option (Option Outcome) × World σ :=
  match w.waitUntil deadline with
  | (false, w) => (none, w)
  | (true, w) => (some none, w)

/-- Runs the rest of an act. The act goes first whenever both it and the timer are due, and is
given up when it waits while its time is over. Without a result the run ended before the act. -/
def race (rig : Rig σ) (limit : UInt32) (ending : Option Outcome) :
    List Event → Option Nat → World σ → Option (Option Outcome) × World σ
  | [], deadline, w =>
    match ending with
    | some outcome => (some (some outcome), w)
    | none =>
      match startTimer rig.clock limit deadline w with
      | (none, w) => (none, w)
      | (some time, w) => w.timeOut time
  | .report r :: rest, deadline, w => race rig limit ending rest deadline (w.send rig.transport r)
  | .pause ms :: rest, deadline, w =>
    match w.beginPause ms with
    | (false, w) => (none, w)
    | (true, w) =>
      let ticks := rig.clock.ticks ms
      if ticks = 0 ∧ !rig.clock.yields then race rig limit ending rest deadline w
      else
        match startTimer rig.clock limit deadline w with
        | (none, w) => (none, w)
        | (some time, w) =>
          if time < w.now + ticks ∨ deadline = some w.now then w.timeOut time
          else
            match w.waitUntil (w.now + ticks) with
            | (false, w) => (none, w)
            | (true, w) => race rig limit ending rest (some time) w

end World

/-! ## Runs -/

/-- Runs a flow. Without a result the run ended before the flow. -/
def Flow.run {σ α : Type} (rig : Rig σ) : Flow α → World σ → Option α × World σ
  | .done a, w => (some a, w)
  | .note n next, w => next.run rig (w.tell n)
  | .emit (.report r) next, w => next.run rig (w.send rig.transport r)
  | .emit (.pause ms) next, w =>
    match w.pause rig.clock ms with
    | (false, w) => (none, w)
    | (true, w) => next.run rig w
  | .handle next, w =>
    let handle := w.surroundings.link.handle
    (next handle).run rig (w.write (.addressed handle))
  | .selected next, w =>
    let app := w.surroundings.selected
    (next app).run rig (w.write (.polled app))
  | .lines next, w =>
    let (snapshot, surroundings) := w.surroundings.read rig.source
    (next snapshot).run rig ({ w with surroundings }.write (.read snapshot))
  | .sent next, w => (next w.sends).run rig w
  | .race limit act next, w =>
    let a := act w.calls
    match World.race rig limit a.ending a.events none { w with calls := w.calls + 1 } with
    | (none, w) => (none, w)
    | (some outcome, w) => (next outcome).run rig w
  | .stall, w => (none, w.waitForever)

namespace Flow
variable {σ α β : Type}

/-- One flow after the other: the second starts in the world that the first one leaves. -/
theorem run_bind (rig : Rig σ) (p : Flow α) (f : α → Flow β) (w : World σ) :
    (p.bind f).run rig w =
      match p.run rig w with
      | (none, w) => (none, w)
      | (some a, w) => (f a).run rig w := by
  induction p generalizing w with
  | done => rfl
  | note n next ih => exact ih _
  | emit e next ih =>
    cases e with
    | report r => exact ih _
    | pause ms =>
      simp only [Flow.bind, Flow.run]
      rcases w.pause rig.clock ms with ⟨_ | _, _⟩ <;> simp [ih]
  | handle next ih => exact ih _ _
  | selected next ih => exact ih _ _
  | lines next ih => exact ih _ _
  | sent next ih => exact ih _ _
  | race limit act next ih =>
    simp only [Flow.bind, Flow.run]
    rcases World.race rig limit (act w.calls).ending (act w.calls).events none
      { w with calls := w.calls + 1 } with ⟨_ | _, _⟩ <;> simp [ih]
  | stall => rfl

variable {rig : Rig σ} {p : Flow α} {w : World σ}

theorem run_bind_some {f : α → Flow β} {w' : World σ} {a : α} (h : p.run rig w = (some a, w')) :
    (p >>= f).run rig w = (f a).run rig w' := by
  show (p.bind f).run rig w = _
  rw [run_bind, h]

/-- Where the first flow does not come to its end, the second one adds nothing. -/
theorem run_bind_none (f : α → Flow β) (h : (p.run rig w).1 = none) :
    (p >>= f).run rig w = (none, (p.run rig w).2) := by
  show (p.bind f).run rig w = _
  rw [run_bind]
  rcases hrun : p.run rig w with ⟨_ | _, w'⟩
  · rfl
  · rw [hrun] at h
    cases h

end Flow

end ButtonPad
