import ButtonPad.Act.Builtin
import ButtonPad.Proofs.Readout

/-! # What a text is typed as

What is read out of the buffer that a text is translated in is the stroke of each character that
has one (`Grid.strokes_of_load`). So typing is a function of the text's characters alone
(`Typing.act_eq`), up to the length that fits the buffer. -/
namespace ButtonPad

namespace Typing

def textLimit : Nat := 32

/-- What is done for a text that fits: caps lock is released, then each character that has a stroke
is typed. -/
def typed (t : Timing) (handle : Handle) (text : List UInt8) : List Event :=
  .report (.key handle 0 .capsLock false) ::
    (text.filterMap Stroke.ofAscii?).flatMap (stroke t handle)

theorem act_eq (t : Timing) (handle : Handle) (text : List UInt8) :
    act t handle text =
      if text.length ≤ textLimit then { events := typed t handle text, ending := some .ok }
      else { ending := some .fail } := by
  have hcolumns : ∀ strokes : List (Option Stroke),
      strokes.flatMap (column t handle) = (strokes.filterMap id).flatMap (stroke t handle) := by
    intro strokes
    induction strokes with
    | nil => rfl
    | cons s rest ih => cases s <;> simp [column, ih]
  by_cases hfits : text.length ≤ textLimit
  · have hload : Grid.load capacity text = .ok _ := if_pos (Nat.mul_le_mul_right 2 hfits)
    rw [if_pos hfits, act, hload]
    simp only [Grid.strokes_of_load hload, hcolumns, List.filterMap_map]
    rfl
  · have hlong : ¬text.length * 2 ≤ capacity :=
      fun hle => hfits (Nat.le_of_mul_le_mul_right hle (by decide))
    have hload : Grid.load capacity text = .error .tooLong := if_neg hlong
    rw [if_neg hfits, act, hload]

theorem act_of_le {text : List UInt8} (h : text.length ≤ textLimit) (t : Timing)
    (handle : Handle) :
    act t handle text = { events := typed t handle text, ending := some .ok } := by
  rw [act_eq, if_pos h]

theorem act_of_lt {text : List UInt8} (h : textLimit < text.length) (t : Timing)
    (handle : Handle) : act t handle text = { ending := some .fail } := by
  rw [act_eq, if_neg (Nat.not_le.mpr h)]

end Typing

theorem Builtin.events_credentials (t : Timing) (handle : Handle) (arg1 arg2 : List UInt8) :
    (credentials.act t handle arg1 arg2).events =
      ([arg1, arg2].takeWhile fun text => text.length ≤ Typing.textLimit).flatMap
        (Typing.typed t handle) := by
  simp only [act, Typing.act_eq]
  by_cases hfirst : arg1.length ≤ Typing.textLimit
  · by_cases hsecond : arg2.length ≤ Typing.textLimit <;> simp [hfirst, hsecond, Act.andThen]
  · simp [hfirst, Act.andThen]

end ButtonPad
