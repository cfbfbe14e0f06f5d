import ButtonPad.Script.Row
import ButtonPad.Script.Fault

/-! The step decoder. It reads one step of a row at a time and stops behind a finish code, behind
the last slot or at the first fault. -/
namespace ButtonPad
open Script (Fault)

structure Decoder where
  row : Row
  cursor : Nat := 1
  finished : Bool := false
  deriving DecidableEq, Repr

namespace Decoder

/-- A decoded step with its slot, or the fault found instead. -/
abbrev Item := Except Fault (Nat × Step)

def keys (slot : Nat) : List Code → Except Fault (List Usage)
  | [] => .ok []
  | c :: rest =>
    match c.kind with
    | .key usage => (usage :: ·) <$> keys (slot + 1) rest
    | _ => .error (.comboKey slot c)

def stepAt (row : Row) (slot : Nat) (code : Code) : Except Fault Step :=
  match code.kind with
  | .finish => .ok .finish
  | .key usage => .ok (.key usage)
  | .click button => .ok (.click button)
  | .special =>
    match row[slot + 1]? with
    | none => .error (.truncated slot)
    | some index =>
      match index.index? with
      | some i => .ok (.special i)
      | none => .error (.actionIndex (slot + 1) index)
  | .combo n =>
    let operands := row.extract (slot + 1) (slot + 1 + n)
    if operands.length = n then .combo <$> keys (slot + 1) operands
    else .error (.truncated slot)
  | .reserved => .error (.reserved slot code)

/-- The next item; after the last one there is none, however often it is asked for. -/
def next (d : Decoder) : Option Item × Decoder :=
  if d.finished then (none, d)
  else match d.row[d.cursor]? with
    | none => (none, { d with finished := true })
    | some code =>
      match stepAt d.row d.cursor code with
      | .error fault => (some (.error fault), { d with finished := true })
      | .ok step =>
        (some (.ok (d.cursor, step)),
          { d with cursor := d.cursor + step.width, finished := step = .finish })

theorem next_of_finished {d : Decoder} (h : d.finished = true) : d.next = (none, d) := by
  simp [next, h]

/-- The first `n` items that are left, fewer if there are no more. -/
def take : Nat → Decoder → List Item
  | 0, _ => []
  | n + 1, d =>
    match d.next with
    | (none, _) => []
    | (some item, d) => item :: take n d

end Decoder

namespace Row

def decoder (row : Row) : Decoder := { row }

/-- The decoded row. Every item takes a slot, so there are at most as many as the row is long. -/
def items (row : Row) : List Decoder.Item := row.decoder.take row.length

def calls (row : Row) : List UInt8 :=
  row.items.filterMap fun
    | .ok (_, .special index) => some index
    | _ => none

end Row

end ButtonPad
