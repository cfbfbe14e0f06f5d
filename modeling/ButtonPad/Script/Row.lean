import ButtonPad.Script.Step

/-! Script rows: the script's id in slot 0, its step codes from slot 1 on. -/
namespace ButtonPad

abbrev Row := List Code

namespace Row

/-- The script's id; a row without slots has the id 0. -/
def id (row : Row) : Code := row.headD .finish

def budget (row : Row) : Nat := row.length - 1

inductive Misfit where
  /-- The codes take more slots than the row has. -/
  | overBudget
  deriving DecidableEq, Repr

def Misfit.message : Misfit → String
  | .overBudget => "script does not fit its step budget"

/-- The id, the codes, then finish codes up to the width. -/
def padded (width : Nat) (id : Code) (codes : List Code) : Row :=
  id :: codes ++ List.replicate (width - 1 - codes.length) .finish

theorem length_padded {width : Nat} {id : Code} {codes : List Code} (h : codes.length < width) :
    (padded width id codes).length = width := by
  simp [padded]
  omega

def build (width : Nat) (id : Code) (codes : List Code) : Except Misfit Row :=
  if codes.length < width then .ok (padded width id codes) else .error .overBudget

end Row

end ButtonPad
