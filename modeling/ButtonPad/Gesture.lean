import ButtonPad.Report.Basic
import ButtonPad.Timing

/-! Gestures: the reports and holds of the pad's output. -/
namespace ButtonPad.Gesture

/-- A key goes down or up and is held so. -/
def hold (t : Timing) (handle : Handle) (modifiers : Modifiers) (pressed : Bool) (usage : Usage) :
    List Event :=
  [.report (.key handle modifiers usage pressed), .pause t.keyHold]

def tap (t : Timing) (handle : Handle) (modifiers : Modifiers) (usage : Usage) : List Event :=
  hold t handle modifiers true usage ++ hold t handle modifiers false usage

/-- Press all keys one by one, then release them in the same order. -/
def chord (t : Timing) (handle : Handle) (modifiers : Modifiers) (keys : List Usage) :
    List Event :=
  keys.flatMap (hold t handle modifiers true) ++ keys.flatMap (hold t handle modifiers false)

/-- Button down, hold, all buttons up. -/
def click (t : Timing) (handle : Handle) (button : Button) : List Event :=
  [.report (.mouse handle button.mask 0 0), .pause t.clickHold,
    .report (.allButtonsUp handle)]

/-- All keys and all buttons up. -/
def letGo (handle : Handle) : List Event :=
  [.report (.allKeysUp handle), .report (.allButtonsUp handle)]

end ButtonPad.Gesture
