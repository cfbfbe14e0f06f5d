import ButtonPad.Setup.Rejection
import ButtonPad.Script.Check

/-! The catalog: applications in the order of their registration, up to a fixed number. -/
namespace ButtonPad

structure Catalog where
  capacity : Nat
  applications : List Application := []
  deriving DecidableEq, Repr

namespace Catalog

def standardCapacity : Nat := 10

/-- What a registration hands out to find the application again. -/
structure Ticket where
  position : Nat
  deriving DecidableEq, Repr

def find? (c : Catalog) (id : AppId) : Option Application := c.applications.find? (·.id = id)

def get? (c : Catalog) (t : Ticket) : Option Application := c.applications[t.position]?

def ids (c : Catalog) : List AppId := c.applications.map (·.id)

def firstFault : Nat → List Row → Option (Nat × Script.Fault)
  | _, [] => none
  | n, row :: rest =>
    match row.check with
    | .ok () => firstFault (n + 1) rest
    | .error fault => some (n, fault)

/-- Why an application with these rows of this width cannot be registered. -/
def rejection? (c : Catalog) (id : AppId) (width : Nat) (rows : List Row) : Option Rejection :=
  if c.capacity ≤ c.applications.length then some .full
  else if (c.find? id).isSome then some (.duplicate id)
  else if width < 2 then some (.noStepSlots id)
  else if Application.scriptLimit < rows.length then some (.tooManyScripts id rows.length)
  else (firstFault 0 rows).map fun (script, cause) => .malformed id script cause

/-- Registers an application; nothing is stored when a part of it is rejected. -/
def add (c : Catalog) (id : AppId) (name : String) (width : Nat) (rows : List Row) :
    Except Rejection (Ticket × Catalog) :=
  match c.rejection? id width rows with
  | some r => .error r
  | none =>
    let app : Application := { id, name, budget := width - 1, scripts := rows }
    .ok (⟨c.applications.length⟩, { c with applications := c.applications ++ [app] })

end Catalog

end ButtonPad
