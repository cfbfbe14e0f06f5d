import ButtonPad.Board.Alarm
import ButtonPad.Player.Run

/-! The board from power-up on: the player on the board's timer, reading the line levels and sending
to the host of the current session, and a host that may pair. -/
namespace ButtonPad.Board

/-- How long a host takes to pair, in milliseconds. -/
def pairingTime : UInt32 := 500

/-- The tick at which a host that begins to pair at power-up is connected, if it is one of the
first `ticks`. The alarm calls back with the handle of the new session. -/
def pairedAt (ticks : Nat) (handle : Handle) : Option (Nat × Handle) :=
  match ({} : Alarm Handle).acquire with
  | (false, _) => none
  | (true, alarm) =>
    let due := UInt64.ofNat (Clock.board.ticks pairingTime)
    ((alarm.attach handle).arm due).2.firstCall ticks

/-- The changes with one more, behind those of the same tick. -/
def insertChange (tick : Nat) (c : Change) (changes : List (Nat × Change)) : List (Nat × Change) :=
  changes.takeWhile (·.1 ≤ tick) ++ (tick, c) :: changes.dropWhile (·.1 ≤ tick)

/-- The changes around the board, with the pairing of a host if there is one. -/
def allChanges (changes : List (Nat × Change)) (ticks : Nat) :
    Option Handle → List (Nat × Change)
  | none => changes
  | some handle =>
    match pairedAt ticks handle with
    | none => changes
    | some (tick, handle) => insertChange tick (.connect handle) changes

def linkAt (changes : List (Nat × Change)) (tick : Nat) : Link :=
  (Surroundings.changes {} ((changes.takeWhile (·.1 ≤ tick)).map (·.2))).link

/-- The first tick up to `ticks` at which a host is connected. -/
def connectedAt (changes : List (Nat × Change)) (ticks : Nat) : Option Nat :=
  (changes.map (·.1)).find? fun tick => tick ≤ ticks && (linkAt changes tick).connected

def rig : Rig UInt32 := { clock := .board, transport := .counting, source := .bank }

def world (changes : List (Nat × Change)) : World UInt32 := { upcoming := changes, transport := 0 }

def run {A : Type} [Behaviour A] (s : Setup A) (changes : List (Nat × Change)) (ticks : Nat) :
    World UInt32 :=
  rig.boot s ticks (world changes)

end ButtonPad.Board
