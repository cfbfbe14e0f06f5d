import ButtonPad.Script.Code

/-! What can be wrong with a script row. -/
namespace ButtonPad.Script

inductive Fault where
  | empty
  /-- A code outside every step range. -/
  | reserved (slot : Nat) (code : Code)
  /-- A combo or special step runs past the end of the row. -/
  | truncated (slot : Nat)
  | comboKey (slot : Nat) (code : Code)
  | actionIndex (slot : Nat) (code : Code)
  deriving DecidableEq, Repr

def Fault.message : Fault → String
  | .empty => "script has no executable steps"
  | .reserved slot code => s!"reserved step code {code.toInt} at slot {slot}"
  | .truncated slot => s!"step at slot {slot} runs past the end of the script"
  | .comboKey slot code => s!"combo operand {code.toInt} at slot {slot} is not a key"
  | .actionIndex slot code =>
    s!"special action index {code.toInt} at slot {slot} is out of range"

end ButtonPad.Script
