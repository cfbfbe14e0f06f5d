import ButtonPad.Act.Builtin

/-! Actions: the shipped ones, and rehearsed ones that make fixed moves whatever their call is. -/
namespace ButtonPad

/-- One thing that an action can do. -/
inductive Move where
  | report (r : Report)
  | pause (ms : UInt32)
  | tap (handle : Handle) (modifiers : Modifiers) (usage : Usage)
  | chord (handle : Handle) (modifiers : Modifiers) (keys : List Usage)
  | click (handle : Handle) (button : Button)
  | letGo (handle : Handle)
  | type (handle : Handle) (text : List UInt8)
  | builtin (b : Builtin) (handle : Handle) (arg1 arg2 : List UInt8)
  deriving DecidableEq, Repr

namespace Move

/-- Only typing and the shipped actions can fail. -/
def act (t : Timing) : Move → Act
  | .report r => { events := [.report r], ending := some .ok }
  | .pause ms => { events := [.pause ms], ending := some .ok }
  | .tap handle modifiers usage =>
    { events := Gesture.tap t handle modifiers usage, ending := some .ok }
  | .chord handle modifiers keys =>
    { events := Gesture.chord t handle modifiers keys, ending := some .ok }
  | .click handle button => { events := Gesture.click t handle button, ending := some .ok }
  | .letGo handle => { events := Gesture.letGo handle, ending := some .ok }
  | .type handle text => Typing.act t handle text
  | .builtin b handle arg1 arg2 => b.act t handle arg1 arg2

end Move

inductive Action where
  | builtin (b : Builtin)
  /-- Makes the moves one after the other, whatever each one's outcome, then ends so or never. -/
  | rehearsed (moves : List Move) (ending : Option Outcome)
  deriving DecidableEq, Repr

namespace Action

def returns (o : Outcome) : Action := .rehearsed [] (some o)

def hangs : Action := .rehearsed [] none

end Action

instance : Behaviour Action where
  act a call t n :=
    match a with
    | .builtin b => Behaviour.act b call t n
    | .rehearsed moves ending => { events := moves.flatMap fun m => (m.act t).events, ending }

end ButtonPad
