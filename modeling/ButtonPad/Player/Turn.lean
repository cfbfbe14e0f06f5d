import ButtonPad.Player.Run

/-! Turns: what a pad is made to do, one thing after the other. -/
namespace ButtonPad

inductive Task where
  | command (app : AppId) (cmd : UInt8)
  | cycle
  | forever
  | boot
  deriving DecidableEq, Repr

/-- A run of the pad, up to a limit, behind changes of its surroundings. -/
structure Turn where
  changes : List Change := []
  task : Task
  limit : Nat
  deriving DecidableEq, Repr

namespace Rig
variable {σ A : Type} [Behaviour A]

/-- Takes a turn. Without a result it was cut off. -/
def take (rig : Rig σ) (s : Setup A) (turn : Turn) (w : World σ) :
    Option (Except Refusal Summary) × World σ :=
  let w := turn.changes.foldl World.change w
  match turn.task with
  | .command app cmd => rig.command s app cmd turn.limit w
  | .cycle => rig.cycle s turn.limit w
  | .forever => (none, rig.forever s turn.limit w)
  | .boot => (none, rig.boot s turn.limit w)

def takeAll (rig : Rig σ) (s : Setup A) :
    List Turn → World σ → List (Option (Except Refusal Summary)) × World σ
  | [], w => ([], w)
  | turn :: turns, w =>
    let (result, w) := rig.take s turn w
    let (results, w) := rig.takeAll s turns w
    (result :: results, w)

end Rig

end ButtonPad
