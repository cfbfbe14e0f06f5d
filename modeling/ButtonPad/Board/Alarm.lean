import ButtonPad.Board.Interrupts

/-! The board's tick counter and its one alarm. -/
namespace ButtonPad

/-- The due tick of an alarm that is not set. The counter does not get there. -/
def Alarm.never : UInt64 := 0xFFFFFFFFFFFFFFFF

structure Alarm (κ : Type) where
  ticks : UInt64 := 0
  /-- Whether the alarm was handed out. -/
  taken : Bool := false
  /-- The tick at which the alarm goes off. -/
  due : UInt64 := Alarm.never
  callback : Option κ := none
  interrupts : Interrupts := {}
  deriving DecidableEq, Repr

namespace Alarm
variable {κ : Type}

/-- Hands the alarm out to the first who asks. -/
def acquire (a : Alarm κ) : Bool × Alarm κ := (!a.taken, { a with taken := true })

/-- Stores the callback with the interrupts masked. -/
def attach (a : Alarm κ) (callback : κ) : Alarm κ :=
  let (callback, interrupts) := a.interrupts.guarded fun _ => some callback
  { a with callback, interrupts }

/-- Sets the alarm in place of the one set before. A time that is not in the future is turned down,
and no alarm is set then. -/
def arm (a : Alarm κ) (due : UInt64) : Bool × Alarm κ :=
  if due ≤ a.ticks then (false, { a with due := never }) else (true, { a with due })

/-- One tick. If the alarm goes off it is no longer set, and its callback is to be called. -/
def tick (a : Alarm κ) : Option κ × Alarm κ :=
  let a := { a with ticks := a.ticks + 1 }
  if a.ticks < a.due then (none, a)
  else
    let (callback, interrupts) := a.interrupts.guarded fun _ => a.callback
    (callback, { a with due := never, interrupts })

/-- The first callback within the next `n` ticks, and the tick it is called at. -/
def firstCall : Nat → Alarm κ → Option (Nat × κ)
  | 0, _ => none
  | n + 1, a =>
    match a.tick with
    | (some callback, a) => some (a.ticks.toNat, callback)
    | (none, a) => firstCall n a

end Alarm

end ButtonPad
