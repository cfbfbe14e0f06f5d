import ButtonPad.Act.Basic
import ButtonPad.Text.Grid

/-! Typing: a text as key strokes. -/
namespace ButtonPad.Typing

/-- The size of the buffer that a text is translated in; each character takes two cells. -/
def capacity : Nat := 64

def stroke (t : Timing) (handle : Handle) (s : Stroke) : List Event :=
  [.report (.key handle s.modifiers s.usage true), .pause t.keyHold,
    .report (.key handle s.modifiers s.usage false)]

/-- What is done for a column; a gap is left out. -/
def column (t : Timing) (handle : Handle) : Option Stroke → List Event
  | some s => stroke t handle s
  | none => []

/-- Types a text. Caps lock is released first, so that shift alone decides the case. A text that
does not fit fails before anything is sent. -/
def act (t : Timing) (handle : Handle) (text : List UInt8) : Act :=
  match Grid.load capacity text with
  | .error _ => { ending := some .fail }
  | .ok grid =>
    { events := .report (.key handle 0 .capsLock false) ::
        grid.strokes.toList.flatMap (column t handle)
      ending := some .ok }

end ButtonPad.Typing
