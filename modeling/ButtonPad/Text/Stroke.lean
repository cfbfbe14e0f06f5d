import ButtonPad.Usage

/-! Key strokes for ASCII letters and digits. -/
namespace ButtonPad

/-- A key press that types one character, with or without shift. -/
structure Stroke where
  usage : Usage
  shift : Bool
  deriving DecidableEq, Repr

namespace Stroke

/-- The stroke that types an ASCII letter or digit. On the keyboard page the zero stands behind
the nine. -/
def ofAscii? (c : UInt8) : Option Stroke :=
  if 'a'.toUInt8 ≤ c ∧ c ≤ 'z'.toUInt8 then some ⟨Usage.a + (c - 'a'.toUInt8), false⟩
  else if 'A'.toUInt8 ≤ c ∧ c ≤ 'Z'.toUInt8 then some ⟨Usage.a + (c - 'A'.toUInt8), true⟩
  else if c = '0'.toUInt8 then some ⟨Usage.zero, false⟩
  else if '1'.toUInt8 ≤ c ∧ c ≤ '9'.toUInt8 then some ⟨Usage.one + (c - '1'.toUInt8), false⟩
  else none

def modifiers (s : Stroke) : Modifiers := if s.shift then .leftShift else 0

end Stroke

end ButtonPad
