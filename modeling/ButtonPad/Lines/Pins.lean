import ButtonPad.Device
import ButtonPad.Lines.Snapshot

/-! Input lines read straight from pins. -/
namespace ButtonPad

/-- A pin's level; a broken pin cannot be read. -/
structure Pin where
  low : Bool
  broken : Bool := false
  deriving DecidableEq, Repr

/-- A pin for each line, and the level at which a line counts as pressed. -/
structure Pins where
  pins : List Pin
  activeLow : Bool := true
  deriving DecidableEq, Repr

namespace Pins

def read (p : Pins) (line : Nat) : Except DeviceFault Bool :=
  match p.pins[line]? with
  | none => .error .invalidConfig
  | some pin => if pin.broken then .error .input else .ok (pin.low == p.activeLow)

/-- All lines at once; a line that cannot be read counts as released. -/
def snapshot (p : Pins) : Snapshot :=
  (List.range p.pins.length).foldl
    (fun s line =>
      match p.read line with
      | .ok true => s.set line true
      | _ => s)
    .empty

def set (p : Pins) (line : Nat) (pin : Pin) : Pins := { p with pins := p.pins.set line pin }

end Pins

end ButtonPad
