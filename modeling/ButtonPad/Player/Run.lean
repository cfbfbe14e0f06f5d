import ButtonPad.Player.Basic
import ButtonPad.World.Basic

/-! Runs of the player in a world, each up to a limit. -/
namespace ButtonPad

namespace World
variable {σ : Type}

/-- The world at the start of a run: the bound is set, and changes already due happen. -/
def startRun (w : World σ) (c : Clock) (limit : Nat) : World σ :=
  { w with bound := c.bound w.now limit }.reach w.now

end World

namespace Rig
variable {σ A : Type} [Behaviour A]

def command (rig : Rig σ) (s : Setup A) (app : AppId) (cmd : UInt8) (limit : Nat)
    (w : World σ) : Option (Except Refusal Summary) × World σ :=
  (Player.command s app cmd).run rig (w.startRun rig.clock limit)

def cycle (rig : Rig σ) (s : Setup A) (limit : Nat) (w : World σ) :
    Option (Except Refusal Summary) × World σ :=
  let w := w.startRun rig.clock limit
  (Player.cycle s (w.bound.polls w.now)).run rig w

def forever (rig : Rig σ) (s : Setup A) (limit : Nat) (w : World σ) : World σ :=
  let w := w.startRun rig.clock limit
  let polls := w.bound.polls w.now
  ((Player.cycles s polls polls).run rig w).2

def boot (rig : Rig σ) (s : Setup A) (limit : Nat) (w : World σ) : World σ :=
  let w := w.startRun rig.clock limit
  ((Player.boot s (w.bound.polls w.now)).run rig w).2

def perform (rig : Rig σ) (events : List Event) (w : World σ) : World σ :=
  ((Flow.perform events).run rig w).2

end Rig

end ButtonPad
