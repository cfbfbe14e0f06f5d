import ButtonPad.Script.Code

/-! Steps, the slots they take and the codes that stand for them. -/
namespace ButtonPad

inductive Step where
  | finish
  | key (usage : Usage)
  /-- Press all keys, then release them in the same order. -/
  | combo (keys : List Usage)
  | click (button : Button)
  | special (index : UInt8)
  deriving DecidableEq, Repr

namespace Step

def width : Step → Nat
  | .finish | .key _ | .click _ => 1
  | .combo keys => keys.length + 1
  | .special _ => 2

def codes : Step → List Code
  | .finish => [.finish]
  | .key usage => [.ofByte usage]
  | .combo keys => .combo keys.length :: keys.map .ofByte
  | .click .left => [.leftClick]
  | .click .right => [.rightClick]
  | .special index => [.special, .ofByte index]

@[simp] theorem length_codes (s : Step) : s.codes.length = s.width := by
  cases s with
  | click button => cases button <;> rfl
  | _ => simp [codes, width]

theorem width_pos (s : Step) : 0 < s.width := by
  cases s <;> simp [width]

end Step

end ButtonPad
