import ButtonPad.Lines.Snapshot

/-! Button maps: which command an input line selects. -/
namespace ButtonPad

structure Press where
  line : Nat
  command : UInt8
  deriving DecidableEq, Repr

structure ButtonMap where
  commands : Vector (Option UInt8) Snapshot.lineCount
  deriving DecidableEq, Repr

namespace ButtonMap

inductive Misfit where
  | lineOutOfRange
  | tooManyLines
  deriving DecidableEq, Repr

def Misfit.message : Misfit → String
  | .lineOutOfRange => "input line out of range"
  | .tooManyLines => "too many input lines"

def empty : ButtonMap := ⟨Vector.replicate _ none⟩

def assign (m : ButtonMap) (line : Nat) (command : UInt8) : Except Misfit ButtonMap :=
  if h : line < Snapshot.lineCount then .ok ⟨m.commands.set line (some command) h⟩
  else .error .lineOutOfRange

/-- The map of these pairs of line and command; a later pair overrides an earlier one. -/
def ofPairs (pairs : List (Nat × UInt8)) : Except Misfit ButtonMap :=
  pairs.foldlM (fun m (line, command) => m.assign line command) empty

/-- Of the first `count` lines each selects the command of its own number. -/
def firstLines (count : Nat) : ButtonMap :=
  ⟨Vector.ofFn fun line => if line.val < count then some (UInt8.ofNat line.val) else none⟩

def numbered (count : Nat) : Except Misfit ButtonMap :=
  if count ≤ Snapshot.lineCount then .ok (firstLines count) else .error .tooManyLines

def command (m : ButtonMap) (line : Nat) : Option UInt8 := m.commands[line]?.join

/-- The lowest pressed line that has a command. -/
def firstPress (m : ButtonMap) (s : Snapshot) : Option Press :=
  s.downLines.findSome? fun line => (m.command line).map (⟨line, ·⟩)

/-- The lines with a command, in ascending order. -/
def toList (m : ButtonMap) : List (Nat × UInt8) :=
  (List.range Snapshot.lineCount).filterMap fun line => (m.command line).map (line, ·)

theorem command_assign {m n : ButtonMap} {line : Nat} {c : UInt8} (h : m.assign line c = .ok n)
    (i : Nat) : n.command i = if i = line then some c else m.command i := by
  unfold assign at h
  split at h
  case isFalse => simp at h
  case isTrue hl =>
    cases h
    by_cases hi : i = line
    · simp [hi, command, hl]
    · simp [command, hi, Vector.getElem?_set_ne, Ne.symm hi]

/-- A line is the first press if it is down and mapped, and no lower line is both. -/
theorem firstPress_eq_some_iff {m : ButtonMap} {s : Snapshot} {line : Nat} {c : UInt8} :
    m.firstPress s = some ⟨line, c⟩ ↔ s.isDown line ∧ m.command line = some c ∧
      ∀ lower < line, s.isDown lower → m.command lower = none := by
  have hsome : ∀ l, (m.command l).map (⟨l, ·⟩) = some (⟨line, c⟩ : Press) ↔
      l = line ∧ m.command l = some c := by
    intro l
    rw [Option.map_eq_some_iff]
    constructor
    · rintro ⟨d, hd, he⟩
      cases he
      exact ⟨rfl, hd⟩
    · rintro ⟨rfl, hd⟩
      exact ⟨c, hd, rfl⟩
  rw [firstPress, List.findSome?_eq_some_iff]
  constructor
  · rintro ⟨before, l, after, hlines, hl, hbefore⟩
    obtain ⟨rfl, hc⟩ := (hsome l).mp hl
    have hsorted := hlines ▸ s.pairwise_downLines
    have hmem : l ∈ s.downLines := by simp [hlines]
    refine ⟨Snapshot.mem_downLines.mp hmem, hc, fun lower hlt hdown => ?_⟩
    have hlower := hlines ▸ Snapshot.mem_downLines.mpr hdown
    rcases List.mem_append.mp hlower with hin | hin
    · simpa using hbefore lower hin
    · rcases List.mem_cons.mp hin with rfl | hin
      · exact absurd hlt (Nat.lt_irrefl _)
      · have hgt := List.rel_of_pairwise_cons (List.pairwise_append.mp hsorted).2.1 hin
        omega
  · rintro ⟨hdown, hc, hlowest⟩
    obtain ⟨before, after, hlines⟩ := List.append_of_mem (Snapshot.mem_downLines.mpr hdown)
    have hsorted := hlines ▸ s.pairwise_downLines
    refine ⟨before, line, after, hlines, (hsome line).mpr ⟨rfl, hc⟩, fun lower hin => ?_⟩
    have hlt := (List.pairwise_append.mp hsorted).2.2 lower hin line List.mem_cons_self
    have hmem : lower ∈ s.downLines := by simp [hlines, hin]
    simp [hlowest lower hlt (Snapshot.mem_downLines.mp hmem)]

end ButtonMap

end ButtonPad
