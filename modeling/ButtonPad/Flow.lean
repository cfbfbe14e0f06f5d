import ButtonPad.Act.Basic
import ButtonPad.Lines.Snapshot
import ButtonPad.Player.Summary

/-! Flows: what the pad does, as data. A flow sends reports and pauses, looks at its surroundings
and goes on by what it finds; a clock and a world give it its meaning. -/
namespace ButtonPad

/-- What a flow tells about itself. -/
inductive Note where
  | entered (phase : Phase)
  | invoked (call : Invocation)
  /-- A step calls a special action that its application does not have. -/
  | absent (app : AppId) (index : UInt8)
  | refused (refusal : Refusal)
  | finished (summary : Summary)
  deriving DecidableEq

inductive Flow (α : Type) where
  | done (a : α)
  | note (n : Note) (next : Flow α)
  | emit (e : Event) (next : Flow α)
  /-- Reads the session's handle. -/
  | handle (next : Handle → Flow α)
  /-- Reads the selected application. -/
  | selected (next : AppId → Flow α)
  /-- Reads the input lines. -/
  | lines (next : Snapshot → Flow α)
  /-- Reads how many reports were sent so far. -/
  | sent (next : Nat → Flow α)
  /-- Runs an act for at most so many milliseconds; the next flow learns its outcome, if it has one
  in time. -/
  | race (limit : UInt32) (act : Nat → Act) (next : Option Outcome → Flow α)
  /-- Waits for ever. -/
  | stall

namespace Flow

def bind {α β : Type} : Flow α → (α → Flow β) → Flow β
  | .done a, f => f a
  | .note n next, f => .note n (next.bind f)
  | .emit e next, f => .emit e (next.bind f)
  | .handle next, f => .handle fun h => (next h).bind f
  | .selected next, f => .selected fun app => (next app).bind f
  | .lines next, f => .lines fun s => (next s).bind f
  | .sent next, f => .sent fun n => (next n).bind f
  | .race limit act next, f => .race limit act fun o => (next o).bind f
  | .stall, _ => .stall

instance : Monad Flow where
  pure := .done
  bind := .bind

theorem bind_done {α : Type} (p : Flow α) : p.bind .done = p := by
  induction p <;> simp_all [bind]

theorem bind_assoc {α β γ : Type} (p : Flow α) (f : α → Flow β) (g : β → Flow γ) :
    (p.bind f).bind g = p.bind fun a => (f a).bind g := by
  induction p <;> simp_all [bind]

instance : LawfulMonad Flow := LawfulMonad.mk' Flow bind_done (fun _ _ => rfl) bind_assoc

def perform : List Event → Flow Unit
  | [] => .done ()
  | e :: rest => .emit e (perform rest)

def tell (n : Note) : Flow Unit := .note n (.done ())

def enter (phase : Phase) : Flow Unit := tell (.entered phase)

def pause (ms : UInt32) : Flow Unit := .emit (.pause ms) (.done ())

def readHandle : Flow Handle := .handle .done

def readSelected : Flow AppId := .selected .done

def readLines : Flow Snapshot := .lines .done

def readSent : Flow Nat := .sent .done

def raceAct (limit : UInt32) (act : Nat → Act) : Flow (Option Outcome) := .race limit act .done

end Flow

end ButtonPad
