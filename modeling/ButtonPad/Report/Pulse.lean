import ButtonPad.Report.Basic

/-! Pulses: what a sequence of reports means to the host. Reports are grouped from the left, a press
with its release; what fits no pattern stays as it is. -/
namespace ButtonPad

inductive Pulse where
  | tap (modifiers : Modifiers) (usage : Usage)
  | chord (modifiers : Modifiers) (keys : List Usage)
  | click (buttons : UInt8)
  | raw (report : Report)
  deriving DecidableEq, Repr

namespace Pulse

/-- The longest run of values at the front that `f` maps. -/
def leading {α β : Type} (f : α → Option β) : List α → List β
  | [] => []
  | a :: rest =>
    match f a with
    | some b => b :: leading f rest
    | none => []

/-- The modifiers and the key of a key report of this kind. -/
def key? (press : Bool) : Report → Option (Modifiers × Usage)
  | .key _ modifiers usage pressed => if pressed = press then some (modifiers, usage) else none
  | .mouse .. => none

/-- A click at the front: some buttons down, then all up. -/
def click? : List Report → Option (Pulse × Nat)
  | .mouse _ buttons _ _ :: .mouse _ after _ _ :: _ =>
    if buttons ≠ 0 ∧ after = 0 then some (.click buttons, 2) else none
  | _ => none

/-- A tap or chord at the front: all presses there, then the same keys released in the same order,
under the same modifiers. -/
def keys? (reports : List Report) : Option (Pulse × Nat) :=
  match leading (key? true) reports with
  | [] => none
  | presses@((modifiers, usage) :: more) =>
    let n := presses.length
    if leading (key? false) ((reports.drop n).take n) ≠ presses then none
    else if more.any (·.1 ≠ modifiers) then none
    else if more.isEmpty then some (.tap modifiers usage, 2)
    else some (.chord modifiers (presses.map (·.2)), n * 2)

/-- Groups the reports behind the first `skip`. -/
def groupFrom : Nat → List Report → List Pulse
  | _, [] => []
  | skip + 1, _ :: rest => groupFrom skip rest
  | 0, r :: rest =>
    match (click? (r :: rest)).or (keys? (r :: rest)) with
    | some (pulse, used) => pulse :: groupFrom (used - 1) rest
    | none => .raw r :: groupFrom 0 rest

/-- Groups the reports among the events; pauses do not count. -/
def group (events : List Event) : List Pulse := groupFrom 0 (events.filterMap Event.report?)

end Pulse

end ButtonPad
