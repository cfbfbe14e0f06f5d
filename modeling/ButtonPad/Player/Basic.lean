import ButtonPad.Flow
import ButtonPad.Gesture
import ButtonPad.Lines.Sampler
import ButtonPad.Setup.Basic

/-! The player: it polls the input lines for a mapped press, plays the script of the press step by
step, settles and polls again. -/
namespace ButtonPad.Player
variable {A : Type} [Behaviour A]

/-! ## Steps -/

/-- What a played step means for the rest of the script. -/
inductive Verdict where
  | goOn
  | skipNext
  | stop (ending : Ending)
  deriving DecidableEq, Repr

def Verdict.ofOutcome : Outcome → Verdict
  | .ok => .goOn
  | .skipNext => .skipNext
  | .fail => .stop .actionFailed
  | .endScript => .stop .actionEnded

/-- Calls a special action. One that is not over in time has failed; it may have stopped between a
press and its release, so everything is released. -/
def callSpecial (s : Setup A) (call : Invocation) (slot : Slot A) : Flow Outcome := do
  Flow.tell (.invoked call)
  match ← Flow.raceAct s.timing.actionLimit (Behaviour.act slot.action call s.timing) with
  | some outcome => return outcome
  | none =>
    Flow.perform (Gesture.letGo call.handle)
    return .fail

def playStep (s : Setup A) (app : AppId) (row : Row) (cursor : Nat) (handle : Handle) :
    Step → Flow Verdict
  | .finish => return .goOn
  | .key usage => do
    Flow.enter .key
    Flow.perform (Gesture.tap s.timing handle 0 usage)
    return .goOn
  | .combo keys => do
    Flow.enter .combo
    Flow.perform (Gesture.chord s.timing handle 0 keys)
    return .goOn
  | .click button => do
    Flow.enter .click
    Flow.perform (Gesture.click s.timing handle button)
    return .goOn
  | .special index => do
    Flow.enter .special
    match s.repertoire.slot? app index with
    | none => do
      Flow.tell (.absent app index)
      return .stop .actionFailed
    | some slot =>
      let call : Invocation :=
        { app, index, row, cursor, handle, arg1 := slot.arg1, arg2 := slot.arg2 }
      return .ofOutcome (← callSpecial s call slot)

/-! ## Scripts -/

/-- The counts that are kept while a script is played. -/
structure Progress where
  steps : Nat := 0
  skipped : Nat := 0
  lastSlot : Nat := 0
  deriving DecidableEq, Repr

/-- Plays decoded steps, leaving out the first one if the flag is set. The session's handle is read
once a step, so all reports of a step go to one session. -/
def playItems (s : Setup A) (app : AppId) (row : Row) :
    List Decoder.Item → Bool → Progress → Flow (Progress × Ending)
  | [], _, p => return (p, .ranOut)
  | .error fault :: _, _, p => return (p, .malformed fault)
  | .ok (slot, step) :: rest, skip, p =>
    let p := { p with lastSlot := slot + step.width - 1 }
    if step = .finish then
      return (p, .finished)
    else if skip then
      playItems s app row rest false { p with skipped := p.skipped + 1 }
    else do
      let handle ← Flow.readHandle
      let verdict ← playStep s app row slot handle step
      let p := { p with steps := p.steps + 1 }
      Flow.enter .reading
      Flow.pause s.timing.gap
      match verdict with
      | .goOn => playItems s app row rest false p
      | .skipNext => playItems s app row rest true p
      | .stop ending => return (p, ending)

def playRow (s : Setup A) (app : AppId) (command : UInt8) (row : Row) : Flow Summary := do
  let before ← Flow.readSent
  Flow.enter .reading
  let (p, ending) ← playItems s app row row.items false {}
  let after ← Flow.readSent
  return { app, command, steps := p.steps, skipped := p.skipped, sends := after - before,
           lastSlot := p.lastSlot, ending }

def lookup (s : Setup A) (app : AppId) (command : UInt8) : Except Refusal Row :=
  match s.appFor? app with
  | none => .error (.unregistered app)
  | some application =>
    match application.script? command with
    | none => .error (.missingCommand app command)
    | some row => .ok row

/-- Plays a command and settles; a command that does not exist does nothing. -/
def command (s : Setup A) (app : AppId) (cmd : UInt8) : Flow (Except Refusal Summary) := do
  match lookup s app cmd with
  | .error refusal =>
    Flow.tell (.refused refusal)
    return .error refusal
  | .ok row =>
    let summary ← playRow s app cmd row
    Flow.enter .settling
    Flow.pause s.timing.settle
    Flow.enter .polling
    Flow.tell (.finished summary)
    return .ok summary

/-! ## Polling -/

/-- Waits for the next poll and looks for a press of the selected application's buttons. Without a
button map the lines are not even read. A press is played at once or not at all, so every poll
comes with a sampler that holds nothing. -/
def poll (s : Setup A) : Flow (Option (AppId × UInt8)) := do
  Flow.pause s.timing.pollEvery
  let app ← Flow.readSelected
  match s.mapFor? app with
  | none => return none
  | some map =>
    let snapshot ← Flow.readLines
    let (press, _) := Sampler.poll {} map (fun _ => (snapshot, ())) ()
    return press.map fun press => (app, press.command)

omit [Behaviour A] in
/-- A poll finds the first press of the lines as it reads them. -/
theorem poll_eq (s : Setup A) :
    poll s = do
      Flow.pause s.timing.pollEvery
      let app ← Flow.readSelected
      match s.mapFor? app with
      | none => return none
      | some map =>
        let snapshot ← Flow.readLines
        return (map.firstPress snapshot).map fun press => (app, press.command) := by
  simp only [poll, Sampler.poll_empty]

/-- Polls until a press selects a command, at most `n` times. -/
def awaitPress (s : Setup A) : Nat → Flow (AppId × UInt8)
  | 0 => .stall
  | n + 1 => do
    match ← poll s with
    | some found => return found
    | none => awaitPress s n

/-- Waits for a press and plays its command. -/
def cycle (s : Setup A) (polls : Nat) : Flow (Except Refusal Summary) := do
  Flow.enter .polling
  let (app, cmd) ← awaitPress s polls
  command s app cmd

def cycles (s : Setup A) (polls : Nat) : Nat → Flow Unit
  | 0 => .stall
  | n + 1 => do
    let _ ← cycle s polls
    cycles s polls n

/-- Waits for the pad to start up, then plays cycles. -/
def boot (s : Setup A) (polls : Nat) : Flow Unit := do
  Flow.pause s.timing.startup
  cycles s polls polls

end ButtonPad.Player
