import ButtonPad.Script.Decoder

/-! Applications: a named set of scripts, one script a command. -/
namespace ButtonPad

abbrev AppId := UInt8

structure Application where
  id : AppId
  name : String
  /-- The step budget that all its scripts share. -/
  budget : Nat
  scripts : List Row
  deriving DecidableEq, Repr

namespace Application

def scriptLimit : Nat := 8

def script? (a : Application) (command : UInt8) : Option Row := a.scripts[command.toNat]?

end Application

end ButtonPad
