import ButtonPad.Setup.Catalog

/-! The repertoire: the special actions that each application's scripts can call. -/
namespace ButtonPad

structure Slot (A : Type) where
  action : A
  arg1 : List UInt8 := []
  arg2 : List UInt8 := []
  deriving DecidableEq, Repr

/-- The slots of each application, in the order of their registration. -/
structure Repertoire (A : Type) where
  entries : List (AppId × List (Slot A)) := []
  deriving DecidableEq, Repr

namespace Repertoire
variable {A : Type}

def capacity : Nat := Catalog.standardCapacity

def owners (r : Repertoire A) : List AppId := r.entries.map (·.1)

/-- Attaches the slots of one application; a second attempt fails as a duplicate even when there is
no room left. -/
def add (r : Repertoire A) (app : AppId) (slots : List (Slot A)) :
    Except Rejection (Repertoire A) :=
  if app ∈ r.owners then .error (.duplicate app)
  else if capacity ≤ r.entries.length then .error .full
  else .ok ⟨r.entries ++ [(app, slots)]⟩

/-- The slots of an application; none if it was never registered. -/
def slotsOf (r : Repertoire A) (app : AppId) : List (Slot A) :=
  match r.entries.find? (·.1 = app) with
  | some (_, slots) => slots
  | none => []

def slot? (r : Repertoire A) (app : AppId) (index : UInt8) : Option (Slot A) :=
  (r.slotsOf app)[index.toNat]?

end Repertoire

end ButtonPad
