import ButtonPad.Usage

/-! Step codes. The codes are split into disjoint ranges, one for each kind of step; all codes
outside them are reserved. -/
namespace ButtonPad

abbrev Code := Int32

namespace Code

def finish : Code := 0
/-- The plain keys' codes are their usages, from this one on. -/
def firstKey : Code := 1
def lastKey : Code := 231
/-- Marks a special step; the action's index is in the next slot. -/
def special : Code := 232
/-- A combo of `n` keys is marked by this code plus `n`. -/
def comboBase : Code := 240
def shortestCombo : Nat := 2
def longestCombo : Nat := 9
/-- The click codes lie above this one. -/
def clickThreshold : Code := 250
def lastClick : Code := 255
def leftClick : Code := 253
def rightClick : Code := 254

/-- The mark of a combo of `n` keys; the finish code when no combo has that many. -/
def combo (n : Nat) : Code :=
  if n < shortestCombo ∨ longestCombo < n then finish else comboBase + Int32.ofNat n

/-- What a code means, its operands aside. -/
inductive Kind where
  | finish
  | key (usage : Usage)
  | special
  | combo (count : Nat)
  | click (button : Button)
  | reserved
  deriving DecidableEq, Repr

/-- The range a code lies in. Of the click codes, all but one mean the right button. -/
def kind (c : Code) : Kind :=
  if c = finish then .finish
  else if c = special then .special
  else if firstKey ≤ c ∧ c ≤ lastKey then .key c.toInt.toNat.toUInt8
  else if combo shortestCombo ≤ c ∧ c ≤ combo longestCombo then
    .combo (c.toInt - comboBase.toInt).toNat
  else if clickThreshold < c ∧ c ≤ lastClick then
    .click (if c = leftClick then .left else .right)
  else .reserved

def key? (c : Code) : Option Usage :=
  match c.kind with
  | .key usage => some usage
  | _ => none

def index? (c : Code) : Option UInt8 :=
  if 0 ≤ c.toInt ∧ c.toInt ≤ 255 then some c.toInt.toNat.toUInt8 else none

def ofByte (b : UInt8) : Code := Int32.ofNat b.toNat

end Code

end ButtonPad
