import ButtonPad.Application
import ButtonPad.Script.Fault

/-! What the player does at a moment, and what it tells of a command. -/
namespace ButtonPad

inductive Phase where
  | polling
  /-- Reading the next step, or resting behind one. -/
  | reading
  | special
  | combo
  | key
  | click
  /-- Resting behind a script. -/
  | settling
  deriving DecidableEq, Repr

inductive Ending where
  | finished
  /-- It ran past its last slot. -/
  | ranOut
  /-- A special action failed or took too long. -/
  | actionFailed
  | actionEnded
  | malformed (fault : Script.Fault)
  deriving DecidableEq, Repr

/-- What came of a command. -/
structure Summary where
  app : AppId
  command : UInt8
  /-- Steps executed, the finish code aside. -/
  steps : Nat
  /-- Steps left out at the request of a special action. -/
  skipped : Nat
  sends : Nat
  /-- The last slot that was read. -/
  lastSlot : Nat
  ending : Ending
  deriving DecidableEq, Repr

/-- Why a command is not started at all. -/
inductive Refusal where
  | unregistered (app : AppId)
  | missingCommand (app : AppId) (command : UInt8)
  deriving DecidableEq, Repr

def Refusal.message : Refusal → String
  | .unregistered app => s!"application {app.toNat} is not registered"
  | .missingCommand app command => s!"application {app.toNat} has no command {command.toNat}"

end ButtonPad
