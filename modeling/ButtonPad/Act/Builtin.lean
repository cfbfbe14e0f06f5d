import ButtonPad.Act.Typing
import ButtonPad.Gesture
import ButtonPad.Script.Code

/-! The special actions that the pad ships with. -/
namespace ButtonPad

inductive Builtin where
  /-- Types the first argument, then the second. -/
  | credentials
  /-- Presses the keys of the second argument together, under the modifiers in the first byte of the
  first argument. -/
  | shortcut
  deriving DecidableEq, Repr

namespace Builtin

/-- How many keys a shortcut can hold, as many as a keyboard report. -/
def keyLimit : Nat := 6

def validShortcut (keys : List UInt8) : Bool :=
  !keys.isEmpty && keys.length ≤ keyLimit && keys.all fun k => (Code.ofByte k).key?.isSome

def act (t : Timing) (handle : Handle) (arg1 arg2 : List UInt8) : Builtin → Act
  | .credentials => (Typing.act t handle arg1).andThen (Typing.act t handle arg2)
  | .shortcut =>
    if validShortcut arg2 then
      { events := Gesture.chord t handle (arg1.headD 0) arg2, ending := some .ok }
    else
      { ending := some .fail }

end Builtin

instance : Behaviour Builtin where
  act b call t _ := b.act t call.handle call.arg1 call.arg2

end ButtonPad
