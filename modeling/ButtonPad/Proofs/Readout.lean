import ButtonPad.Text.Grid

/-! # A text read out as strokes

A text that fits lies in the first row of a fresh buffer. It is translated there and read column by
column, with the flags right behind the text, wherever the buffer ends. What is read out is the
stroke of each character, or a gap (`Grid.strokes_of_load`), one for each time that the strokes are
asked (`Grid.next_asked`), and nothing behind the last one. -/
namespace ButtonPad

/-! ## Strokes, column by column -/

namespace Strokes

theorem take_left {n : Nat} {s : Strokes} (h : s.left = n) :
    s.take n = (List.range' s.position n).map s.column := by
  induction n generalizing s with
  | zero => rfl
  | succ n ih =>
    unfold left at h
    have hnext : s.next = (some (s.column s.position), { s with position := s.position + 1 }) :=
      if_pos (by omega)
    have hrest : ({ s with position := s.position + 1 } : Strokes).left = n := by
      show s.columns - (s.position + 1) = n
      omega
    rw [take, hnext, List.range'_succ, List.map_cons]
    exact congrArg (_ :: ·) (ih hrest)

theorem toList_eq {s : Strokes} (h : s.position = 0) :
    s.toList = (List.range s.columns).map s.column := by
  rw [toList, take_left rfl, left, h, List.range_eq_range']
  rfl

/-- The strokes when the next one has been asked for `n` times. -/
def asked : Nat → Strokes → Strokes
  | 0, s => s
  | n + 1, s => asked n s.next.2

theorem asked_eq (n : Nat) {s : Strokes} (h : s.position ≤ s.columns) :
    s.asked n = { s with position := min (s.position + n) s.columns } := by
  induction n generalizing s with
  | zero => rw [asked, Nat.add_zero, Nat.min_eq_left h]
  | succ n ih =>
    rw [asked]
    by_cases hmore : s.position < s.columns
    · have hrest : ({ s with position := s.position + 1 } : Strokes).position ≤ s.columns := hmore
      rw [next, if_pos hmore, ih hrest]
      simp only [Nat.add_assoc, Nat.add_comm 1]
    · have hend : s.position = s.columns := by omega
      rw [next, if_neg hmore, ih h]
      simp only [hend]
      congr 1
      omega

end Strokes

namespace Grid

/-! ## Texts that fit -/

theorem load_eq_ok_iff {capacity : Nat} {text : List UInt8} {grid : Grid} :
    load capacity text = .ok grid ↔ 2 * text.length ≤ capacity ∧
      grid = ⟨text ++ List.replicate (capacity - text.length) 0, text.length⟩ := by
  unfold load
  rw [Nat.mul_comm 2]
  split
  case isTrue hfits => simp [hfits, eq_comm]
  case isFalse hlong => simp [hlong]

/-- Two cells of a column that a character was translated to are read as its stroke. -/
theorem stroke_of_cells (c : UInt8) :
    (if shiftCell c = gap then none
      else some ({ usage := usageCell c, shift := shiftCell c != 0 } : Stroke)) =
      Stroke.ofAscii? c := by
  unfold shiftCell usageCell
  cases Stroke.ofAscii? c with
  | none => rfl
  | some stroke =>
    obtain ⟨usage, shift⟩ := stroke
    cases shift <;> rfl

variable {capacity : Nat} {text : List UInt8} {grid : Grid}

theorem columns_strokes (h : load capacity text = .ok grid) :
    grid.strokes.columns = text.length := by
  obtain ⟨hfits, rfl⟩ := load_eq_ok_iff.mp h
  simp only [strokes, fit, List.length_append, List.length_replicate]
  omega

theorem length_cells_strokes (h : load capacity text = .ok grid) :
    grid.strokes.cells.length = capacity := by
  obtain ⟨hfits, rfl⟩ := load_eq_ok_iff.mp h
  simp only [strokes, length_translate, List.length_append, List.length_replicate]
  omega

theorem rows_strokes (h : load capacity text = .ok grid) :
    grid.strokes.rows = text.map usageCell ++ text.map shiftCell := by
  have hcolumns := columns_strokes h
  obtain ⟨-, rfl⟩ := load_eq_ok_iff.mp h
  unfold strokes at hcolumns
  simp only at hcolumns
  rw [strokes, Strokes.rows, hcolumns]
  simp only [translate, hcolumns, List.take_left]
  exact List.take_left' (by simp [Nat.mul_two])

theorem column_strokes (h : load capacity text = .ok grid) {i : Nat} (hi : i < text.length) :
    grid.strokes.column i = Stroke.ofAscii? text[i] := by
  have hcell : ∀ j, j < 2 * text.length →
      grid.strokes.cells[j]? = (text.map usageCell ++ text.map shiftCell)[j]? := by
    intro j hj
    rw [← rows_strokes h, Strokes.rows, columns_strokes h, List.getElem?_take_of_lt (by omega)]
  have husage : grid.strokes.cells.getD i 0 = usageCell text[i] := by
    rw [List.getD_eq_getElem?_getD, hcell i (by omega), List.getElem?_append_left (by simpa using hi)]
    simp [hi]
  have hflag : grid.strokes.cells.getD (text.length + i) 0 = shiftCell text[i] := by
    rw [List.getD_eq_getElem?_getD, hcell _ (by omega), List.getElem?_append_right (by simp)]
    simp [hi]
  rw [Strokes.column, columns_strokes h, husage, hflag]
  exact stroke_of_cells text[i]

/-- A translated text is read back as the strokes of its characters. -/
theorem strokes_of_load (h : load capacity text = .ok grid) :
    grid.strokes.toList = text.map Stroke.ofAscii? := by
  rw [Strokes.toList_eq rfl, columns_strokes h]
  refine List.ext_getElem (by simp) fun i _ hi => ?_
  rw [List.getElem_map, List.getElem_range, List.getElem_map]
  exact column_strokes h (by simpa using hi)

theorem asked_strokes (grid : Grid) (n : Nat) :
    grid.strokes.asked n = { grid.strokes with position := min n grid.strokes.columns } := by
  rw [Strokes.asked_eq n (Nat.zero_le _)]
  show ({ grid.strokes with position := min (0 + n) grid.strokes.columns } : Strokes) = _
  rw [Nat.zero_add]

/-- The answers, one after the other, and none behind the last. -/
theorem next_asked (h : load capacity text = .ok grid) (n : Nat) :
    (grid.strokes.asked n).next.1 = (text.map Stroke.ofAscii?)[n]? := by
  have hcolumns := columns_strokes h
  rw [asked_strokes, Strokes.next, List.getElem?_map]
  by_cases hn : n < text.length
  · have hmin : min n grid.strokes.columns = n := by omega
    have hmore : n < grid.strokes.columns := by omega
    simp only [hmin, if_pos hmore, List.getElem?_eq_getElem hn, Option.map_some]
    exact congrArg some (column_strokes h hn)
  · have hmin : min n grid.strokes.columns = grid.strokes.columns := by omega
    simp only [hmin, Nat.lt_irrefl, if_false, List.getElem?_eq_none (Nat.le_of_not_lt hn),
      Option.map_none]

/-- **A text is read out.** A text can be loaded into a buffer exactly if two of its lengths fit.
Then the strokes answer with the stroke or the gap of one character after the other, and behind the
last one with nothing, however often they are asked. At any time all columns lie in the buffer, and
as many strokes are left as there are characters to come. -/
theorem text_is_read_out (capacity : Nat) (text : List UInt8) :
    ((∃ grid, load capacity text = .ok grid) ↔ 2 * text.length ≤ capacity) ∧
      ∀ grid, load capacity text = .ok grid → ∀ n,
        let strokes := grid.strokes.asked n
        let answers := text.map Stroke.ofAscii?
        strokes.next.1 = answers[n]? ∧
          strokes.position ≤ strokes.columns ∧ 2 * strokes.columns ≤ strokes.cells.length ∧
          strokes.left = (answers.drop n).length ∧
          strokes.rows = text.map usageCell ++ text.map shiftCell := by
  have hfits : (∃ grid, load capacity text = .ok grid) ↔ 2 * text.length ≤ capacity :=
    ⟨fun ⟨_, h⟩ => (load_eq_ok_iff.mp h).1, fun hle => ⟨_, load_eq_ok_iff.mpr ⟨hle, rfl⟩⟩⟩
  refine ⟨hfits, fun grid h n => ⟨next_asked h n, ?_⟩⟩
  have hcolumns := columns_strokes h
  have hcells := length_cells_strokes h
  have hrows := rows_strokes h
  have hle := hfits.mp ⟨grid, h⟩
  rw [asked_strokes]
  refine ⟨Nat.min_le_right _ _, ?_, ?_, hrows⟩
  · show 2 * grid.strokes.columns ≤ grid.strokes.cells.length
    omega
  · show grid.strokes.columns - min n grid.strokes.columns = _
    rw [List.length_drop, List.length_map]
    omega

/-- The buffer has a cell more than four columns need. -/
theorem text_is_read_out_specimen :
    let text : List UInt8 := [0x61, 0x42, 0x2D, 0x30]
    2 * text.length ≤ 9 ∧ ∃ grid, load 9 text = .ok grid ∧
      (grid.strokes.asked 1).next.1 = some (some ⟨0x05, true⟩) ∧
      (grid.strokes.asked 2).next.1 = some none ∧ (grid.strokes.asked 2).left = 2 ∧
      (grid.strokes.asked 7).next.1 = none ∧ (grid.strokes.asked 7).left = 0 ∧
      grid.strokes.rows = [0x04, 0x05, 0x2D, 0x27, 0, 1, 0xFF, 0] := by
  intro text
  obtain ⟨hfits, hanswers⟩ := text_is_read_out 9 text
  obtain ⟨grid, h⟩ := hfits.mpr (by decide)
  obtain ⟨hcapital, -⟩ := hanswers grid h 1
  obtain ⟨hgap, -, -, htwo, -⟩ := hanswers grid h 2
  obtain ⟨hend, -, -, hzero, hrows⟩ := hanswers grid h 7
  rw [asked_strokes] at hrows
  exact ⟨by decide, grid, h, hcapital, hgap, htwo, hend, hzero, hrows⟩

end Grid

end ButtonPad
