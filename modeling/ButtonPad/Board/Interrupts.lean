/-! Interrupts of the board's one core, and sections of code that they cannot enter. -/
namespace ButtonPad

structure Interrupts where
  enabled : Bool := true
  deriving DecidableEq, Repr

namespace Interrupts

/-- Masks the interrupts; the token tells whether they were enabled. -/
def mask (i : Interrupts) : Bool × Interrupts := (i.enabled, { enabled := false })

/-- Ends the section that the token was handed out for. Only the outermost section's token can
enable the interrupts again. -/
def restore (token : Bool) (i : Interrupts) : Interrupts :=
  if token then { enabled := true } else i

/-- A section leaves the interrupts as it found them. -/
@[simp] theorem restore_mask (i : Interrupts) : i.mask.2.restore i.mask.1 = i := by
  rcases i with ⟨_ | _⟩ <;> rfl

/-- What is worked out with the interrupts masked. -/
def guarded {α : Type} (i : Interrupts) (read : Unit → α) : α × Interrupts :=
  let (token, i) := i.mask
  let a := read ()
  (a, i.restore token)

@[simp] theorem guarded_eq {α : Type} (i : Interrupts) (read : Unit → α) :
    i.guarded read = (read (), i) :=
  congrArg (read (), ·) i.restore_mask

end Interrupts

end ButtonPad
