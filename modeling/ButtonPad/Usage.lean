/-! Keyboard usages (HID usage page 7), and the bits of the modifier and mouse button masks. -/
namespace ButtonPad

/-- A key, by its HID usage. -/
abbrev Usage := UInt8

namespace Usage

def a : Usage := 0x04
def v : Usage := 0x19
def z : Usage := 0x1D
def one : Usage := 0x1E
def nine : Usage := 0x26
def zero : Usage := 0x27
def enter : Usage := 0x28
def escape : Usage := 0x29
def backspace : Usage := 0x2A
def tab : Usage := 0x2B
def spacebar : Usage := 0x2C
def capsLock : Usage := 0x39
def rightArrow : Usage := 0x4F
def leftArrow : Usage := 0x50
def downArrow : Usage := 0x51
def upArrow : Usage := 0x52
def leftCtrl : Usage := 0xE0
def leftShift : Usage := 0xE1
def leftAlt : Usage := 0xE2
def leftGui : Usage := 0xE3
def rightCtrl : Usage := 0xE4
def rightShift : Usage := 0xE5
def rightAlt : Usage := 0xE6
def rightGui : Usage := 0xE7

/-- The named keys in ascending order of usage. -/
def named : List Usage :=
  [a, v, z, one, nine, zero, enter, escape, backspace, tab, spacebar, capsLock, rightArrow,
    leftArrow, downArrow, upArrow, leftCtrl, leftShift, leftAlt, leftGui, rightCtrl, rightShift,
    rightAlt, rightGui]

end Usage

/-- The modifier byte of a keyboard report, one bit per modifier key. -/
abbrev Modifiers := UInt8

namespace Modifiers

def leftCtrl : Modifiers := 0x01
def leftShift : Modifiers := 0x02
def leftAlt : Modifiers := 0x04
def leftGui : Modifiers := 0x08

end Modifiers

/-- A mouse button that a click pulses. -/
inductive Button where
  | left
  | right
  deriving DecidableEq, Repr

def Button.mask : Button → UInt8
  | .left => 0x01
  | .right => 0x02

end ButtonPad
