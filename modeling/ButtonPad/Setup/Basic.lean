import ButtonPad.Setup.Repertoire
import ButtonPad.Lines.ButtonMap
import ButtonPad.Timing

/-! The pad's setup: applications, their special actions, the button maps and the timing, checked
against each other before anything runs. -/
namespace ButtonPad

structure Setup (A : Type) where
  catalog : Catalog
  repertoire : Repertoire A
  buttons : List (AppId × ButtonMap)
  timing : Timing
  deriving DecidableEq, Repr

namespace Setup
variable {A : Type}

def timingRejection? (t : Timing) : Option Rejection :=
  match t.check with
  | .ok () => none
  | .error fault => some (.timing fault.message)

/-- The first application with special actions that is not registered. -/
def strangerRejection? (c : Catalog) (r : Repertoire A) : Option Rejection :=
  (r.owners.find? fun app => (c.find? app).isNone).map .unregistered

def scriptRejection? (r : Repertoire A) (app : AppId) (script : Nat) (row : Row) :
    Option Rejection :=
  (row.calls.find? fun index => (r.slot? app index).isNone).map
    (.missingAction app script ·)

def actionRejection? (c : Catalog) (r : Repertoire A) : Option Rejection :=
  c.applications.findSome? fun app =>
    app.scripts.zipIdx.findSome? fun (row, script) => scriptRejection? r app.id script row

/-- The first line mapped to a command that is missing. -/
def buttonRejection? (c : Catalog) (buttons : List (AppId × ButtonMap)) : Option Rejection :=
  buttons.findSome? fun (id, map) =>
    match c.find? id with
    | none => some (.unregistered id)
    | some app =>
      (map.toList.find? fun (_, command) => app.scripts.length ≤ command.toNat).map
        fun (line, command) => .missingCommand id line command

def rejection? (c : Catalog) (r : Repertoire A) (buttons : List (AppId × ButtonMap)) (t : Timing) :
    Option Rejection :=
  (timingRejection? t).or <| (strangerRejection? c r).or <|
    (actionRejection? c r).or <| buttonRejection? c buttons

def assemble (catalog : Catalog) (repertoire : Repertoire A) (buttons : List (AppId × ButtonMap))
    (timing : Timing) : Except Rejection (Setup A) :=
  match rejection? catalog repertoire buttons timing with
  | some r => .error r
  | none => .ok { catalog, repertoire, buttons, timing }

/-- The application's button map; the first one where there are several. -/
def mapFor? (s : Setup A) (app : AppId) : Option ButtonMap :=
  (s.buttons.find? (·.1 = app)).map (·.2)

def appFor? (s : Setup A) (app : AppId) : Option Application := s.catalog.find? app

end Setup

end ButtonPad
