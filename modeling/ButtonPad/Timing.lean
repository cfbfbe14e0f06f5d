/-! The pad's timing, in milliseconds, and the bounds that an accepted timing keeps. -/
namespace ButtonPad

structure Timing where
  /-- How long a key is held, and the pause after its release. -/
  keyHold : UInt32 := 100
  clickHold : UInt32 := 50
  /-- The pause after each executed step. -/
  gap : UInt32 := 500
  settle : UInt32 := 500
  /-- The pause before each look at the input lines. -/
  pollEvery : UInt32 := 10
  /-- The longest a special action may take. -/
  actionLimit : UInt32 := 30000
  /-- The pause before the first poll after power-up. -/
  startup : UInt32 := 1000
  deriving DecidableEq, Repr

namespace Timing

inductive Fault where
  | keyHold
  | clickHold
  | gapOrSettle
  | pollEvery
  | actionLimit
  deriving DecidableEq, Repr

def Fault.message : Fault → String
  | .keyHold => "Key press time must be between 1 and 1000ms"
  | .clickHold => "Click time must be between 1 and 1000ms"
  | .gapOrSettle => "Step gap and settle time must be <= 5000ms"
  | .pollEvery => "Poll interval must be between 1 and 1000ms"
  | .actionLimit => "Special action timeout must cover one key press and release"

/-- The first bound that the timing breaks. The doubled key press is only reached when it is at
most 1000 ms, so it never wraps; the startup pause is free. -/
def check (t : Timing) : Except Fault Unit :=
  if t.keyHold = 0 ∨ t.keyHold > 1000 then .error .keyHold
  else if t.clickHold = 0 ∨ t.clickHold > 1000 then .error .clickHold
  else if t.gap > 5000 ∨ t.settle > 5000 then .error .gapOrSettle
  else if t.pollEvery = 0 ∨ t.pollEvery > 1000 then .error .pollEvery
  else if t.actionLimit < 2 * t.keyHold then .error .actionLimit
  else .ok ()

def checked (t : Timing) : Except Fault Timing :=
  match t.check with
  | .ok () => .ok t
  | .error fault => .error fault

end Timing

end ButtonPad
