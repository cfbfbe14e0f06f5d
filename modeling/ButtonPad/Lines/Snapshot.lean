/-! Snapshots of the debounced input lines, one bit a line. -/
namespace ButtonPad

/-- The level of every input line; a set bit is a pressed line. -/
structure Snapshot where
  bits : UInt16 := 0
  deriving DecidableEq, Repr

namespace Snapshot

def lineCount : Nat := 16

def empty : Snapshot := {}

def isEmpty (s : Snapshot) : Bool := s.bits = 0

/-- Whether the line is pressed; a line that the snapshot does not hold is not. -/
def isDown (s : Snapshot) (line : Nat) : Bool := s.bits.toNat.testBit line

/-- The snapshot with one line changed; a line that it does not hold changes nothing. -/
def set (s : Snapshot) (line : Nat) (pressed : Bool) : Snapshot :=
  if line < lineCount then
    let mask : UInt16 := 1 <<< UInt16.ofNat line
    if pressed then ⟨s.bits ||| mask⟩ else ⟨s.bits &&& ~~~mask⟩
  else
    s

def downLines (s : Snapshot) : List Nat := (List.range lineCount).filter s.isDown

/-! ## One line at a time -/

theorem testBit_mask {line : Nat} (h : line < lineCount) (i : Nat) :
    ((1 : UInt16) <<< UInt16.ofNat line).toNat.testBit i = decide (i = line) := by
  have h16 : line < 16 := h
  have hl : (UInt16.ofNat line).toNat = line := by
    rw [UInt16.toNat_ofNat']
    omega
  simp only [UInt16.toNat_shiftLeft, hl, Nat.mod_eq_of_lt h16, UInt16.toNat_one,
    Nat.one_shiftLeft, Nat.testBit_mod_two_pow, Nat.testBit_two_pow]
  by_cases hi : line = i
  · simp [← hi, h16]
  · simp [hi, Ne.symm hi]

theorem testBit_complement {bits : UInt16} {i : Nat} (h : i < lineCount) :
    (~~~bits).toNat.testBit i = !bits.toNat.testBit i := by
  have h16 : i < 16 := h
  have e : UInt16.size - 1 - bits.toNat = 2 ^ 16 - (bits.toNat + 1) := by
    show 65536 - 1 - bits.toNat = 2 ^ 16 - (bits.toNat + 1)
    omega
  rw [UInt16.toNat_not, e, Nat.testBit_two_pow_sub_succ bits.toNat_lt]
  simp [h16]

/-- No line is pressed that the snapshot does not hold. -/
theorem isDown_of_le (s : Snapshot) {i : Nat} (h : lineCount ≤ i) : s.isDown i = false :=
  Nat.testBit_lt_two_pow (Nat.lt_of_lt_of_le s.bits.toNat_lt (Nat.pow_le_pow_right (by decide) h))

theorem isDown_set (s : Snapshot) (line : Nat) (pressed : Bool) (i : Nat) :
    (s.set line pressed).isDown i =
      if i = line ∧ line < lineCount then pressed else s.isDown i := by
  unfold set
  split
  case isFalse h => simp [h]
  case isTrue h =>
    cases pressed with
    | true =>
      simp only [isDown, if_true, UInt16.toNat_or, Nat.testBit_or, testBit_mask h]
      by_cases hi : i = line <;> simp [hi, h]
    | false =>
      by_cases hl : i < lineCount
      · simp only [isDown, Bool.false_eq_true, if_false, UInt16.toNat_and, Nat.testBit_and,
          testBit_complement hl, testBit_mask h]
        by_cases hi : i = line <;> simp [hi, h]
      · have hle : lineCount ≤ i := Nat.le_of_not_lt hl
        have hi : i ≠ line := by omega
        rw [isDown_of_le _ hle, isDown_of_le _ hle]
        simp [hi]

/-! ## The pressed lines -/

theorem mem_downLines {s : Snapshot} {line : Nat} : line ∈ s.downLines ↔ s.isDown line := by
  rw [downLines, List.mem_filter, List.mem_range, and_iff_right_iff_imp]
  intro hdown
  rcases Nat.lt_or_ge line lineCount with hlt | hle
  · exact hlt
  · rw [isDown_of_le s hle] at hdown
    cases hdown

theorem pairwise_downLines (s : Snapshot) : s.downLines.Pairwise (· < ·) :=
  List.pairwise_lt_range.filter _

end Snapshot

end ButtonPad
