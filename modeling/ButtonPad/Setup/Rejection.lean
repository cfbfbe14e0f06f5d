import ButtonPad.Application
import ButtonPad.Script.Fault

/-! Why a part of the pad's setup is rejected. -/
namespace ButtonPad

inductive Rejection where
  | full
  | duplicate (app : AppId)
  | tooManyScripts (app : AppId) (count : Nat)
  /-- The rows have no slot for a step. -/
  | noStepSlots (app : AppId)
  | malformed (app : AppId) (script : Nat) (cause : Script.Fault)
  | missingAction (app : AppId) (script : Nat) (index : UInt8)
  | missingCommand (app : AppId) (line : Nat) (command : UInt8)
  | unregistered (app : AppId)
  | timing (reason : String)
  deriving DecidableEq, Repr

def Rejection.message : Rejection → String
  | .full => "application registry exhausted"
  | .duplicate app => s!"application {app.toNat} registered twice"
  | .tooManyScripts app count => s!"application {app.toNat} has too many scripts ({count})"
  | .noStepSlots app => s!"application {app.toNat} scripts have no step slots"
  | .malformed app script cause => s!"application {app.toNat} script {script}: {cause.message}"
  | .missingAction app script index =>
    s!"application {app.toNat} script {script} uses missing special action {index.toNat}"
  | .missingCommand app line command =>
    s!"application {app.toNat} line {line} maps to missing command {command.toNat}"
  | .unregistered app => s!"application {app.toNat} is not registered"
  | .timing reason => s!"invalid timing: {reason}"

end ButtonPad
