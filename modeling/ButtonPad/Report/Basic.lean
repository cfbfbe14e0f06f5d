import ButtonPad.Usage

/-! Reports to the host, the pauses between them, and the times that both add up to. -/
namespace ButtonPad

/-- A session with a host. Before the first session the handle is 0. -/
abbrev Handle := UInt16

inductive Report where
  | key (handle : Handle) (modifiers : Modifiers) (usage : Usage) (pressed : Bool)
  | mouse (handle : Handle) (buttons : UInt8) (dx dy : Int8)
  deriving DecidableEq, Repr

namespace Report

def handle : Report → Handle
  | .key handle .. | .mouse handle .. => handle

def allKeysUp (handle : Handle) : Report := .key handle 0 0 false

def allButtonsUp (handle : Handle) : Report := .mouse handle 0 0 0

end Report

/-- What the pad does towards the host: it sends a report, or lets time pass. -/
inductive Event where
  | report (r : Report)
  | pause (ms : UInt32)
  deriving DecidableEq, Repr

namespace Event

def report? : Event → Option Report
  | .report r => some r
  | .pause _ => none

def pause? : Event → Option UInt32
  | .report _ => none
  | .pause ms => some ms

/-- How long the event takes, in milliseconds. -/
def duration : Event → Nat
  | .report _ => 0
  | .pause ms => ms.toNat

def total (events : List Event) : Nat := events.foldr (fun e ms => e.duration + ms) 0

/-- The reports of a list of events, each with the sum of the pauses before it and `now`. -/
def stampFrom (now : Nat) : List Event → List (Nat × Report)
  | [] => []
  | .report r :: rest => (now, r) :: stampFrom now rest
  | .pause ms :: rest => stampFrom (now + ms.toNat) rest

theorem stampFrom_append (now : Nat) (xs ys : List Event) :
    stampFrom now (xs ++ ys) = stampFrom now xs ++ stampFrom (now + total xs) ys := by
  induction xs generalizing now with
  | nil => rfl
  | cons e rest ih =>
    cases e with
    | report r => simp [stampFrom, ih, total, duration]
    | pause ms => simp [stampFrom, ih, total, duration, Nat.add_assoc]

/-- The reports of a list of events, each with the sum of the pauses before it. -/
def stamp (events : List Event) : List (Nat × Report) := stampFrom 0 events

end Event

end ButtonPad
