/-! Clocks: how long a pause lasts, and how long a run may last. -/
namespace ButtonPad

inductive Bound where
  | none
  /-- So many pauses can still begin. -/
  | pauses (left : Nat)
  /-- The clock does not pass this time. -/
  | until (time : Nat)
  deriving DecidableEq, Repr

/-- How many polls fit a run that starts at `now`; a poll takes at least a pause and a tick. -/
def Bound.polls (now : Nat) : Bound → Nat
  | .none => 0
  | .pauses left => left + 1
  | .until time => time + 1 - now

structure Clock where
  /-- The ticks that a pause of so many milliseconds takes. -/
  ticks : UInt32 → Nat
  /-- Whether a pause of no ticks still waits for its turn. -/
  yields : Bool
  /-- The bound of a run that starts now, for a given limit. -/
  bound : Nat → Nat → Bound

namespace Clock

/-- Every pause is over at once; a run is limited by the number of its pauses. -/
def instant : Clock where
  ticks _ := 0
  yields := false
  bound _ limit := .pauses limit

/-- A tick is a millisecond; a run is limited by the time it takes. -/
def milliseconds : Clock where
  ticks ms := ms.toNat
  yields := false
  bound now limit := .until (now + limit)

def boardRate : Nat := 32768

/-- The board's timer: a pause lasts up to the first tick that is no earlier than its end. -/
def board : Clock where
  ticks ms := (ms.toNat * boardRate + 999) / 1000
  yields := true
  bound now limit := .until (now + limit)

end Clock

end ButtonPad
