import ButtonPad.Text.Stroke

/-! Text as a grid of two rows in one buffer, a column for each character. The first row holds the
characters and, once translated, the usages; the second row holds the shift flags. -/
namespace ButtonPad

structure Grid where
  cells : List UInt8
  columns : Nat
  deriving DecidableEq, Repr

namespace Grid

/-- The flag of a column whose character no key types. -/
def gap : UInt8 := 0xFF

/-- What a column's first cell becomes; a character that no key types stays. -/
def usageCell (c : UInt8) : UInt8 :=
  match Stroke.ofAscii? c with
  | some stroke => stroke.usage
  | none => c

def shiftCell (c : UInt8) : UInt8 :=
  match Stroke.ofAscii? c with
  | some stroke => if stroke.shift then 1 else 0
  | none => gap

/-- How many columns of two cells there are, up to the number asked for. -/
def fit (buffer : List UInt8) (columns : Nat) : Nat := min columns (buffer.length / 2)

/-- Translates the first columns of a buffer in place. -/
def translate (buffer : List UInt8) (columns : Nat) : List UInt8 :=
  let n := fit buffer columns
  let chars := buffer.take n
  chars.map usageCell ++ chars.map shiftCell ++ buffer.drop (2 * n)

@[simp] theorem length_translate (buffer : List UInt8) (columns : Nat) :
    (translate buffer columns).length = buffer.length := by
  simp [translate, fit]
  omega

inductive Misfit where
  | tooLong
  deriving DecidableEq, Repr

def Misfit.message : Misfit → String
  | .tooLong => "Text does not fit the translation buffer"

def load (capacity : Nat) (text : List UInt8) : Except Misfit Grid :=
  if text.length * 2 ≤ capacity then
    .ok { cells := text ++ List.replicate (capacity - text.length) 0, columns := text.length }
  else
    .error .tooLong

end Grid

/-- The strokes of a translated grid, with the next column to read. -/
structure Strokes where
  cells : List UInt8
  columns : Nat
  position : Nat := 0
  deriving DecidableEq, Repr

namespace Strokes

def left (s : Strokes) : Nat := s.columns - s.position

def rows (s : Strokes) : List UInt8 := s.cells.take (s.columns * 2)

/-- The stroke of a column; a gap has none. -/
def column (s : Strokes) (i : Nat) : Option Stroke :=
  let flag := s.cells.getD (s.columns + i) 0
  if flag = Grid.gap then none
  else some { usage := s.cells.getD i 0, shift := flag != 0 }

/-- The next column's stroke or gap; behind the last column there is neither. -/
def next (s : Strokes) : Option (Option Stroke) × Strokes :=
  if s.position < s.columns then
    (some (s.column s.position), { s with position := s.position + 1 })
  else
    (none, s)

/-- The next `n` strokes and gaps, fewer if there are no more. -/
def take : Nat → Strokes → List (Option Stroke)
  | 0, _ => []
  | n + 1, s =>
    match s.next with
    | (none, _) => []
    | (some stroke, s) => stroke :: take n s

def toList (s : Strokes) : List (Option Stroke) := s.take s.left

end Strokes

def Grid.strokes (g : Grid) : Strokes :=
  { cells := translate g.cells g.columns, columns := fit g.cells g.columns }

end ButtonPad
