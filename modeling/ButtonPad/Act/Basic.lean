import ButtonPad.Report.Basic
import ButtonPad.Application
import ButtonPad.Timing

/-! Acts: what a special action does when a script calls it. -/
namespace ButtonPad

/-- How a special action ends, and so how the script goes on. -/
inductive Outcome where
  | ok
  | fail
  | skipNext
  /-- Stop the script, all is well. -/
  | endScript
  deriving DecidableEq, Repr

def Outcome.number : Outcome → UInt8
  | .ok => 0
  | .fail => 1
  | .skipNext => 2
  | .endScript => 3

instance : Inhabited Outcome := ⟨.ok⟩

/-- What an action sees of its call. -/
structure Invocation where
  app : AppId
  /-- The action's index among the application's slots. -/
  index : UInt8
  row : Row
  /-- The slot of the special code in that row. -/
  cursor : Nat
  /-- The session that was current when the step started. -/
  handle : Handle
  arg1 : List UInt8
  arg2 : List UInt8
  deriving DecidableEq, Repr

/-- A finite performance and the outcome behind it; an act without an outcome never ends. -/
structure Act where
  events : List Event := []
  ending : Option Outcome
  deriving DecidableEq, Repr

/-- Goes on with another act unless the first one fails. -/
def Act.andThen (first second : Act) : Act :=
  match first.ending with
  | none | some .fail => first
  | some _ => { second with events := first.events ++ second.events }

/-- Types whose values act when they are called. The last argument counts the calls made before, so
the same action may act differently each time. -/
class Behaviour (A : Type) where
  act : A → Invocation → Timing → Nat → Act

end ButtonPad
