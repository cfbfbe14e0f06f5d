import ButtonPad.Application
import ButtonPad.Lines.Pins
import ButtonPad.Lines.Replay
import ButtonPad.World.Link

/-! What surrounds the pad, and how it changes. -/
namespace ButtonPad

structure Surroundings where
  link : Link := {}
  selected : AppId := 0
  /-- The line levels, kept up to date from outside. -/
  bank : Snapshot := .empty
  replay : Replay := {}
  pins : Pins := { pins := [] }
  refusing : Bool := false
  deriving DecidableEq, Repr

inductive Change where
  | connect (handle : Handle)
  | disconnect
  | select (app : AppId)
  | level (line : Nat) (pressed : Bool)
  | store (s : Snapshot)
  | push (s : Snapshot)
  | queuePress (polls line : Nat)
  | pin (line : Nat) (pin : Pin)
  | refuse (refusing : Bool)
  deriving DecidableEq, Repr

/-- Where the input lines are read from. -/
inductive Source where
  | bank
  | replay
  | pins
  deriving DecidableEq, Repr

namespace Surroundings

def change (s : Surroundings) : Change → Surroundings
  | .connect handle => { s with link := s.link.connect handle }
  | .disconnect => { s with link := s.link.disconnect }
  | .select app => { s with selected := app }
  | .level line pressed => { s with bank := s.bank.set line pressed }
  | .store snapshot => { s with bank := snapshot }
  | .push snapshot => { s with replay := s.replay.push snapshot }
  | .queuePress polls line => { s with replay := s.replay.queuePress polls line }
  | .pin line pin => { s with pins := s.pins.set line pin }
  | .refuse refusing => { s with refusing }

def changes (s : Surroundings) (cs : List Change) : Surroundings := cs.foldl change s

/-- Reads the input lines; a replay moves on by that. -/
def read (s : Surroundings) : Source → Snapshot × Surroundings
  | .bank => (s.bank, s)
  | .pins => (s.pins.snapshot, s)
  | .replay =>
    let (snapshot, replay) := s.replay.read
    (snapshot, { s with replay })

end Surroundings

end ButtonPad
