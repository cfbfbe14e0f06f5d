import ButtonPad.Act.Basic
import ButtonPad.Player.Summary
import ButtonPad.Setup.Basic

/-! # What a script should come to

A script is scored from its decoded steps alone: what each step does towards the host, which steps
are left out, and where the script stops. A score knows of no world, no clock and no journal, so it
says in one place what a player is measured by. -/
namespace ButtonPad

/-- What a step does, and how the script goes on behind it. -/
structure Deed where
  events : List Event
  outcome : Outcome

/-- An act that never ends is waited for as long as the limit allows; then all is released. -/
def Act.deed (limit : UInt32) (handle : Handle) (a : Act) : Deed :=
  match a.ending with
  | some outcome => ⟨a.events, outcome⟩
  | none =>
    ⟨a.events ++ [.pause limit, .report (.key handle 0 0 false), .report (.mouse handle 0 0 0)],
      .fail⟩

def Step.calls : Step → Nat
  | .special _ => 1
  | _ => 0

/-- What becomes of a step. -/
inductive Part where
  | played (step : Step) (deed : Deed)
  | leftOut

def Part.events (gap : UInt32) : Part → List Event
  | .played _ deed => deed.events ++ [.pause gap]
  | .leftOut => []

def Part.calls : Part → Nat
  | .played step _ => step.calls
  | .leftOut => 0

structure Score where
  parts : List Part
  lastSlot : Nat
  ending : Ending

namespace Score

def events (gap : UInt32) (score : Score) : List Event := score.parts.flatMap (Part.events gap)

def steps (score : Score) : Nat := score.parts.countP fun
  | .played .. => true
  | .leftOut => false

def skipped (score : Score) : Nat := score.parts.countP fun
  | .played .. => false
  | .leftOut => true

def sends (gap : UInt32) (score : Score) : Nat :=
  ((score.events gap).filterMap Event.report?).length

def summary (app : AppId) (command : UInt8) (gap : UInt32) (score : Score) : Summary where
  app := app
  command := command
  steps := score.steps
  skipped := score.skipped
  sends := score.sends gap
  lastSlot := score.lastSlot
  ending := score.ending

def calls (score : Score) : Nat := score.parts.foldr (fun part calls => part.calls + calls) 0

def behind (part : Part) (score : Score) : Score := { score with parts := part :: score.parts }

@[simp] theorem lastSlot_behind (part : Part) (score : Score) :
    (score.behind part).lastSlot = score.lastSlot := rfl

@[simp] theorem ending_behind (part : Part) (score : Score) :
    (score.behind part).ending = score.ending := rfl

@[simp] theorem events_behind (gap : UInt32) (part : Part) (score : Score) :
    (score.behind part).events gap = part.events gap ++ score.events gap := by
  simp [events, behind]

@[simp] theorem calls_behind (part : Part) (score : Score) :
    (score.behind part).calls = part.calls + score.calls := by
  simp [calls, behind]

@[simp] theorem steps_behind_played (step : Step) (deed : Deed) (score : Score) :
    (score.behind (.played step deed)).steps = score.steps + 1 := by
  simp [steps, behind]

@[simp] theorem steps_behind_leftOut (score : Score) :
    (score.behind .leftOut).steps = score.steps := by
  simp [steps, behind]

@[simp] theorem skipped_behind_played (step : Step) (deed : Deed) (score : Score) :
    (score.behind (.played step deed)).skipped = score.skipped := by
  simp [skipped, behind]

@[simp] theorem skipped_behind_leftOut (score : Score) :
    (score.behind .leftOut).skipped = score.skipped + 1 := by
  simp [skipped, behind]

end Score

/-- What a script is played with: the timing, the session, and what the special action with an
index does when a slot calls it, by the number of calls made before. -/
structure Stage where
  timing : Timing
  handle : Handle
  act : (slot : Nat) → (index : UInt8) → (calls : Nat) → Act

def Stage.stroke (stage : Stage) (pressed : Bool) (usage : Usage) : List Event :=
  [.report (.key stage.handle 0 usage pressed), .pause stage.timing.keyHold]

def Stage.deed (stage : Stage) (calls slot : Nat) : Step → Deed
  | .finish => ⟨[], .endScript⟩
  | .key usage => ⟨stage.stroke true usage ++ stage.stroke false usage, .ok⟩
  | .combo keys => ⟨keys.flatMap (stage.stroke true) ++ keys.flatMap (stage.stroke false), .ok⟩
  | .click button =>
    ⟨[.report (.mouse stage.handle button.mask 0 0), .pause stage.timing.clickHold,
      .report (.mouse stage.handle 0 0 0)], .ok⟩
  | .special index => (stage.act slot index calls).deed stage.timing.actionLimit stage.handle

/-- The score of what follows a step with this outcome, if the script goes on at all. -/
def Outcome.next (outcome : Outcome) (lastSlot : Nat) (score : (skip : Bool) → Score) : Score :=
  match outcome with
  | .ok => score false
  | .skipNext => score true
  | .fail => ⟨[], lastSlot, .actionFailed⟩
  | .endScript => ⟨[], lastSlot, .actionEnded⟩

/-- Scores decoded steps, with `calls` special actions called before them and `lastSlot` read last;
the first one is left out if the flag is set. A finish step ends the script, left out or not. -/
def Stage.score (stage : Stage) :
    (calls lastSlot : Nat) → (skip : Bool) → List (Nat × Step) → Score
  | _, lastSlot, _, [] => ⟨[], lastSlot, .ranOut⟩
  | calls, _, skip, (slot, step) :: rest =>
    let lastSlot := slot + step.width - 1
    if step = .finish then ⟨[], lastSlot, .finished⟩
    else if skip then (stage.score calls lastSlot false rest).behind .leftOut
    else
      let deed := stage.deed calls slot step
      let next := deed.outcome.next lastSlot fun skip =>
        stage.score (calls + step.calls) lastSlot skip rest
      next.behind (.played step deed)

/-- The steps of a row, as far as it decodes. -/
def Row.steps (row : Row) : List (Nat × Step) := row.items.filterMap Except.toOption

def Setup.stage {A : Type} [Behaviour A] (s : Setup A) (app : AppId) (row : Row)
    (handle : Handle) : Stage where
  timing := s.timing
  handle := handle
  act cursor index calls :=
    match s.repertoire.slot? app index with
    | none => { ending := some .fail }
    | some slot =>
      Behaviour.act slot.action
        { app, index, row, cursor, handle, arg1 := slot.arg1, arg2 := slot.arg2 } s.timing calls

def Setup.score {A : Type} [Behaviour A] (s : Setup A) (app : AppId) (row : Row)
    (handle : Handle) (calls : Nat) : Score :=
  (s.stage app row handle).score calls 0 false row.steps

end ButtonPad
