import ButtonPad.Script.Row
import ButtonPad.Script.Fault

/-! The check that a row passes before it is stored. It reads the codes from the left up to the
first finish code, so what stands behind that code is free. -/
namespace ButtonPad.Row
open Script (Fault)

def firstNonKey : Nat → List Code → Option (Nat × Code)
  | _, [] => none
  | slot, c :: rest => if c.key?.isSome then firstNonKey (slot + 1) rest else some (slot, c)

/-- Checks the codes that stand from `slot` to the end of the row. The first `operands` of them
belong to a step that was already checked. -/
def checkFrom : (slot operands : Nat) → List Code → Except Fault Unit
  | _, _, [] => .ok ()
  | slot, operands + 1, _ :: rest => checkFrom (slot + 1) operands rest
  | slot, 0, c :: rest =>
    match c.kind with
    | .finish => .ok ()
    | .key _ | .click _ => checkFrom (slot + 1) 0 rest
    | .special =>
      match rest.head? with
      | none => .error (.truncated slot)
      | some index =>
        if index.index?.isSome then checkFrom (slot + 1) 1 rest
        else .error (.actionIndex (slot + 1) index)
    | .combo n =>
      if rest.length < n then .error (.truncated slot)
      else match firstNonKey (slot + 1) (rest.take n) with
        | some (operand, code) => .error (.comboKey operand code)
        | none => checkFrom (slot + 1) n rest
    | .reserved => .error (.reserved slot c)

/-- Checks a row up to its first finish code. -/
def check (row : Row) : Except Fault Unit :=
  if row.length < 2 then .error .empty else checkFrom 1 0 row.tail

def allPass (rows : List Row) : Bool := rows.all fun row => row.check.isOk

end ButtonPad.Row
