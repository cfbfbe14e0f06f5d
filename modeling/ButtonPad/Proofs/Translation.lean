import ButtonPad.Proofs.Alphabet
import ButtonPad.Text.Grid
import Mathlib.Logic.Function.Iterate

/-! # Text translated in place

Both rows of a grid lie in one buffer, and the row that is read is overwritten meanwhile. The pass
can go through the buffer column by column all the same (`Grid.inPlace?_eq`): a column is written to
only by its own turn, which writes the flag before the character is gone. A usage is no letter and
no digit, so a second pass finds nothing to translate. -/
namespace ButtonPad.Grid

/-! ## Cell by cell -/

theorem two_mul_fit_le (buffer : List UInt8) (columns : Nat) :
    2 * fit buffer columns ≤ buffer.length := by
  unfold fit
  omega

/-- What a pass leaves in each cell: the usages, then the flags, then what was there. -/
theorem getElem?_translate (buffer : List UInt8) (columns i : Nat) :
    (translate buffer columns)[i]? =
      if i < fit buffer columns then buffer[i]?.map usageCell
      else if i < 2 * fit buffer columns then buffer[i - fit buffer columns]?.map shiftCell
      else buffer[i]? := by
  have hfit := two_mul_fit_le buffer columns
  unfold translate
  generalize fit buffer columns = n at hfit ⊢
  have hrow : ∀ cell : UInt8 → UInt8, ((buffer.take n).map cell).length = n := by
    intro cell
    rw [List.length_map, List.length_take_of_le (by omega)]
  dsimp only
  rw [List.append_assoc]
  by_cases hfirst : i < n
  · rw [if_pos hfirst, List.getElem?_append_left (by rw [hrow]; exact hfirst), List.getElem?_map,
      List.getElem?_take_of_lt hfirst]
  rw [if_neg hfirst, List.getElem?_append_right (by rw [hrow]; omega), hrow]
  by_cases hsecond : i < 2 * n
  · rw [if_pos hsecond, List.getElem?_append_left (by rw [hrow]; omega), List.getElem?_map,
      List.getElem?_take_of_lt (by omega)]
  · have hindex : 2 * n + (i - n - n) = i := by omega
    rw [if_neg hsecond, List.getElem?_append_right (by rw [hrow]; omega), hrow,
      List.getElem?_drop, hindex]

/-! ## Column by column -/

def put? (i : Nat) (cell : UInt8) (buffer : List UInt8) : Option (List UInt8) :=
  if i < buffer.length then some (buffer.set i cell) else none

/-- Translates column `i` in place. The flags begin at cell `n`, and the flag is written first. -/
def column? (n i : Nat) (buffer : List UInt8) : Option (List UInt8) := do
  let c ← buffer[i]?
  match Stroke.ofAscii? c with
  | some stroke =>
    let buffer ← put? (n + i) (if stroke.shift then 1 else 0) buffer
    put? i stroke.usage buffer
  | none => put? (n + i) gap buffer

def sweep? (n : Nat) : (columns : Nat) → List UInt8 → Option (List UInt8)
  | 0, buffer => some buffer
  | i + 1, buffer => do column? n i (← sweep? n i buffer)

/-- The pass as it goes through the buffer, and how many columns it translates. There is no result
if it reads or writes a cell outside the buffer. -/
def inPlace? (buffer : List UInt8) (columns : Nat) : Option (List UInt8 × Nat) := do
  let n := min columns (buffer.length / 2)
  return (← sweep? n n buffer, n)

/-- What a buffer has become when `k` of its `n` columns are translated. -/
structure Swept (n k : Nat) (buffer now : List UInt8) : Prop where
  length : now.length = buffer.length
  cell (i : Nat) : now[i]? =
    if i < k then buffer[i]?.map usageCell
    else if n ≤ i ∧ i < n + k then buffer[i - n]?.map shiftCell
    else buffer[i]?

theorem Swept.start (n : Nat) (buffer : List UInt8) : Swept n 0 buffer buffer where
  length := rfl
  cell i := by
    have hnone : ¬(n ≤ i ∧ i < n + 0) := by omega
    rw [if_neg (Nat.not_lt_zero i), if_neg hnone]

theorem put?_eq {i : Nat} {buffer : List UInt8} (h : i < buffer.length) (cell : UInt8) :
    put? i cell buffer = some (buffer.set i cell) := if_pos h

/-- A column whose cells both lie in the buffer gets a usage and a flag; a character that no key
types is written back to where it stands. -/
theorem column?_eq {n i : Nat} {buffer : List UInt8} {c : UInt8} (hc : buffer[i]? = some c)
    (hi : i < n) (hn : n + i < buffer.length) :
    column? n i buffer = some ((buffer.set (n + i) (shiftCell c)).set i (usageCell c)) := by
  have hflagged : ∀ flag : UInt8, i < (buffer.set (n + i) flag).length := by
    intro flag
    rw [List.length_set]
    omega
  simp only [column?, hc, Option.bind_eq_bind, Option.bind_some, usageCell, shiftCell]
  cases Stroke.ofAscii? c with
  | some stroke => simp only [put?_eq hn, Option.bind_some, put?_eq (hflagged _)]
  | none =>
    have hkept : (buffer.set (n + i) gap)[i]? = some c := by
      rw [List.getElem?_set_ne (by omega), hc]
    obtain ⟨-, rfl⟩ := List.getElem?_eq_some_iff.mp hkept
    rw [put?_eq hn, List.set_getElem_self]

theorem Swept.column {n k : Nat} {buffer now : List UInt8} (h : Swept n k buffer now) (hk : k < n)
    (hn : 2 * n ≤ buffer.length) :
    ∃ next, column? n k now = some next ∧ Swept n (k + 1) buffer next := by
  have hcell : buffer[k]? = some buffer[k] := List.getElem?_eq_getElem (by omega)
  have hkept : now[k]? = some buffer[k] := by
    rw [h.cell, if_neg (Nat.lt_irrefl k), if_neg (by omega), hcell]
  have hroom : n + k < now.length := by
    rw [h.length]
    omega
  refine ⟨_, column?_eq hkept hk hroom, ?_, fun i => ?_⟩
  · rw [List.length_set, List.length_set, h.length]
  · rw [List.getElem?_set, List.getElem?_set, h.cell]
    grind

theorem sweep?_swept {n : Nat} {buffer : List UInt8} (hn : 2 * n ≤ buffer.length) {k : Nat}
    (hk : k ≤ n) : ∃ now, sweep? n k buffer = some now ∧ Swept n k buffer now := by
  induction k with
  | zero => exact ⟨buffer, rfl, .start n buffer⟩
  | succ k ih =>
    obtain ⟨now, hsweep, hswept⟩ := ih (Nat.le_of_succ_le hk)
    obtain ⟨next, hcolumn, hnext⟩ := hswept.column hk hn
    refine ⟨next, ?_, hnext⟩
    rw [sweep?, hsweep]
    exact hcolumn

/-- The pass never leaves the buffer, and comes to the translation of all columns at once. -/
theorem inPlace?_eq (buffer : List UInt8) (columns : Nat) :
    inPlace? buffer columns = some (translate buffer columns, fit buffer columns) := by
  have hfit := two_mul_fit_le buffer columns
  obtain ⟨now, hsweep, hswept⟩ := sweep?_swept hfit (Nat.le_refl _)
  have hnow : now = translate buffer columns := by
    refine List.ext_getElem? fun i => ?_
    rw [hswept.cell, getElem?_translate]
    grind
  subst hnow
  unfold inPlace?
  show (do return (← sweep? (fit buffer columns) (fit buffer columns) buffer, _) : Option _) = _
  rw [hsweep]
  rfl

/-! ## Pass after pass -/

/-- What a pass leaves in the first row has no stroke. -/
theorem ofAscii?_usageCell (c : UInt8) : Stroke.ofAscii? (usageCell c) = none := by
  unfold usageCell
  cases hc : Stroke.ofAscii? c with
  | some stroke => exact Stroke.ofAscii?_usage hc
  | none => exact hc

theorem usageCell_usageCell (c : UInt8) : usageCell (usageCell c) = usageCell c := by
  rw [usageCell, ofAscii?_usageCell]

theorem shiftCell_usageCell (c : UInt8) : shiftCell (usageCell c) = gap := by
  rw [shiftCell, ofAscii?_usageCell]

@[simp] theorem fit_translate (buffer : List UInt8) (columns again : Nat) :
    fit (translate buffer columns) again = fit buffer again := by
  rw [fit, fit, length_translate]

/-- A second pass leaves the first row alone and turns the second one into gaps. -/
theorem getElem?_translate_translate (buffer : List UInt8) (columns i : Nat) :
    (translate (translate buffer columns) columns)[i]? =
      if fit buffer columns ≤ i ∧ i < 2 * fit buffer columns then some gap
      else (translate buffer columns)[i]? := by
  have hfit := two_mul_fit_le buffer columns
  rw [getElem?_translate, fit_translate]
  by_cases hfirst : i < fit buffer columns
  · rw [if_pos hfirst, if_neg (by omega), getElem?_translate, if_pos hfirst, Option.map_map]
    congr 1
    funext c
    exact usageCell_usageCell c
  rw [if_neg hfirst]
  by_cases hsecond : i < 2 * fit buffer columns
  · have hcell : ∃ c, buffer[i - fit buffer columns]? = some c :=
      ⟨_, List.getElem?_eq_getElem (by omega)⟩
    obtain ⟨c, hc⟩ := hcell
    rw [if_pos hsecond, if_pos (by omega), getElem?_translate, if_pos (by omega), hc]
    exact congrArg some (shiftCell_usageCell c)
  · rw [if_neg hsecond, if_neg (by omega)]

/-- A third pass changes nothing. -/
theorem translate_spent (buffer : List UInt8) (columns : Nat) :
    translate (translate (translate buffer columns) columns) columns =
      translate (translate buffer columns) columns := by
  refine List.ext_getElem? fun i => ?_
  rw [getElem?_translate_translate, fit_translate]
  split
  case isTrue hflag => rw [getElem?_translate_translate, if_pos hflag]
  case isFalse => rfl

/-- **Columns are translated once.** A pass over any buffer, however many columns are asked for,
stays inside the buffer and translates the columns that have both of their cells there. The next
pass turns every flag into a gap and changes nothing else, and the passes behind it change nothing
at all. -/
theorem columns_translate_once (buffer : List UInt8) (columns : Nat) :
    inPlace? buffer columns = some (translate buffer columns, min columns (buffer.length / 2)) ∧
      let n := min columns (buffer.length / 2)
      let once := translate buffer columns
      let twice := translate once columns
      (∀ i < n, ∃ c, buffer[i]? = some c ∧
        match Stroke.ofAscii? c with
        | some stroke =>
          once[i]? = some stroke.usage ∧ once[n + i]? = some (if stroke.shift then 1 else 0)
        | none => once[i]? = some c ∧ once[n + i]? = some 0xFF) ∧
      (∀ i, 2 * n ≤ i → once[i]? = buffer[i]?) ∧
      inPlace? once columns = some (twice, n) ∧
      (∀ i, twice[i]? = if n ≤ i ∧ i < 2 * n then some 0xFF else once[i]?) ∧
      inPlace? twice columns = some (twice, n) ∧
      ∀ more, (fun b => translate b columns)^[more] twice = twice := by
  refine ⟨inPlace?_eq buffer columns, ?_⟩
  intro n once twice
  have hn : fit buffer columns = n := rfl
  have hfit : 2 * n ≤ buffer.length := two_mul_fit_le buffer columns
  have hagain : fit once columns = n := fit_translate buffer columns columns
  have hspent : translate twice columns = twice := translate_spent buffer columns
  refine ⟨fun i hi => ?_, fun i hi => ?_, ?_, fun i => ?_, ?_,
    fun more => Function.iterate_fixed hspent more⟩
  · have hc : buffer[i]? = some buffer[i] := List.getElem?_eq_getElem (by omega)
    have husage : once[i]? = some (usageCell buffer[i]) := by
      rw [getElem?_translate, hn, if_pos hi, hc]
      rfl
    have hflag : once[n + i]? = some (shiftCell buffer[i]) := by
      rw [getElem?_translate, hn, if_neg (by omega), if_pos (by omega), Nat.add_sub_cancel_left, hc]
      rfl
    refine ⟨_, hc, ?_⟩
    rw [husage, hflag, usageCell, shiftCell]
    cases Stroke.ofAscii? buffer[i] <;> exact ⟨rfl, rfl⟩
  · rw [getElem?_translate, hn, if_neg (by omega), if_neg (by omega)]
  · rw [inPlace?_eq, hagain]
  · exact getElem?_translate_translate buffer columns i
  · have hthird : fit twice columns = n := (fit_translate once columns columns).trans hagain
    rw [inPlace?_eq, hthird, hspent]

/-- Three columns fit into seven cells, whatever is asked for; the last cell is in neither row. -/
theorem columns_translate_once_specimen :
    let buffer : List UInt8 := [0x61, 0x42, 0x2D, 7, 7, 7, 7]
    let once : List UInt8 := [0x04, 0x05, 0x2D, 0, 1, 0xFF, 7]
    let twice : List UInt8 := [0x04, 0x05, 0x2D, 0xFF, 0xFF, 0xFF, 7]
    inPlace? buffer 18446744073709551615 = some (once, 3) ∧
      (1 < 3 ∧ once[1]? = some 0x05 ∧ once[3 + 1]? = some 1) ∧
      (2 < 3 ∧ once[2]? = some 0x2D ∧ once[3 + 2]? = some 0xFF) ∧
      (2 * 3 ≤ 6 ∧ once[6]? = some 7) ∧
      inPlace? once 18446744073709551615 = some (twice, 3) ∧
      inPlace? twice 18446744073709551615 = some (twice, 3) := by
  intro buffer once twice
  have hn : min 18446744073709551615 (buffer.length / 2) = 3 := by decide
  have honce : translate buffer 18446744073709551615 = once := by decide +kernel
  have htwice : translate once 18446744073709551615 = twice := by decide +kernel
  have hpasses := columns_translate_once buffer 18446744073709551615
  simp only [hn, honce, htwice] at hpasses
  obtain ⟨hfirst, hcells, hbehind, hsecond, -, hthird, -⟩ := hpasses
  obtain ⟨_, ⟨⟩, hcapital⟩ := hcells 1 (by decide)
  obtain ⟨_, ⟨⟩, hdash⟩ := hcells 2 (by decide)
  exact ⟨hfirst, ⟨by decide, hcapital⟩, ⟨by decide, hdash⟩, ⟨by decide, hbehind 6 (by decide)⟩,
    hsecond, hthird⟩

end ButtonPad.Grid
