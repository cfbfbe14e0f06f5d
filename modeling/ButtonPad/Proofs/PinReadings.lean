import ButtonPad.Lines.Pins

/-! # What is read from pins

A pin is read or it is not, by its line alone (`read_cases`). A snapshot goes through the pins from
the first one on; what it shows of the pins that it has come to (`shown`) grows by one line at a
time, and only by a line that reads as pressed. -/
namespace ButtonPad.Pins
variable {p : Pins} {line : Nat}

/-! ## One line -/

theorem read_cases (p : Pins) (line : Nat) :
    p.pins.length ≤ line ∧ p.read line = .error .invalidConfig ∨
      ∃ h : line < p.pins.length,
        p.pins[line].broken = true ∧ p.read line = .error .input ∨
          p.pins[line].broken = false ∧ p.read line = .ok (p.pins[line].low == p.activeLow) := by
  rcases Nat.lt_or_ge line p.pins.length with hlt | hge
  · refine .inr ⟨hlt, ?_⟩
    rw [read, List.getElem?_eq_getElem hlt]
    cases hbroken : p.pins[line].broken with
    | true => exact .inl ⟨rfl, if_pos hbroken⟩
    | false => exact .inr ⟨rfl, if_neg (by simp [hbroken])⟩
  · rw [read, List.getElem?_eq_none hge]
    exact .inl ⟨hge, rfl⟩

theorem read_eq_invalidConfig_iff :
    p.read line = .error .invalidConfig ↔ p.pins.length ≤ line := by
  rcases p.read_cases line with ⟨hge, hr⟩ | ⟨hlt, ⟨-, hr⟩ | ⟨-, hr⟩⟩
  · simp [hr, hge]
  · simp [hr, hlt]
  · simp [hr, hlt]

theorem read_eq_input_iff :
    p.read line = .error .input ↔ ∃ h : line < p.pins.length, p.pins[line].broken = true := by
  rcases p.read_cases line with ⟨hge, hr⟩ | ⟨hlt, ⟨hbroken, hr⟩ | ⟨hbroken, hr⟩⟩
  · simp [hr, Nat.not_lt.mpr hge]
  · simp [hr, hlt, hbroken]
  · simp [hr, hlt, hbroken]

theorem read_eq_ok_iff {pressed : Bool} :
    p.read line = .ok pressed ↔ ∃ h : line < p.pins.length,
      p.pins[line].broken = false ∧ (p.pins[line].low == p.activeLow) = pressed := by
  rcases p.read_cases line with ⟨hge, hr⟩ | ⟨hlt, ⟨hbroken, hr⟩ | ⟨hbroken, hr⟩⟩
  · simp [hr, Nat.not_lt.mpr hge]
  · simp [hr, hlt, hbroken]
  · simp [hr, hlt, hbroken]

theorem read_set_of_ne (p : Pins) (pin : Pin) {other : Nat} (h : other ≠ line) :
    (p.set line pin).read other = p.read other := by
  simp only [read, set, List.getElem?_set_ne h.symm]

theorem read_set_broken_ne_ok (p : Pins) (line : Nat) (low pressed : Bool) :
    (p.set line ⟨low, true⟩).read line ≠ .ok pressed := by
  intro h
  obtain ⟨hlt, hgood, -⟩ := read_eq_ok_iff.mp h
  simp [set] at hgood

/-! ## All lines -/

/-- What a snapshot shows when it has gone through the first `n` pins. -/
def shown (p : Pins) (n : Nat) : Snapshot :=
  (List.range n).foldl
    (fun s line =>
      match p.read line with
      | .ok true => s.set line true
      | _ => s)
    .empty

theorem snapshot_eq_shown (p : Pins) : p.snapshot = p.shown p.pins.length := rfl

/-- One more pin can press its own line and changes nothing else. -/
theorem isDown_shown_succ (p : Pins) (n line : Nat) :
    (p.shown (n + 1)).isDown line ↔
      (p.shown n).isDown line ∨ line = n ∧ line < 16 ∧ p.read line = .ok true := by
  have hstep : p.shown (n + 1) =
      match p.read n with
      | .ok true => (p.shown n).set n true
      | _ => p.shown n := by
    rw [shown, List.range_succ, List.foldl_append]
    rfl
  rw [hstep]
  split
  case h_1 hread =>
    rw [Snapshot.isDown_set]
    split
    case isTrue h =>
      obtain ⟨rfl, h16⟩ := h
      simpa [hread] using .inr h16
    case isFalse h =>
      refine ⟨.inl, fun hdown => hdown.resolve_right fun ⟨hline, h16, _⟩ => ?_⟩
      exact h ⟨hline, hline ▸ h16⟩
  case h_2 hread =>
    refine ⟨.inl, fun hdown => hdown.resolve_right fun ⟨hline, _, hok⟩ => ?_⟩
    exact hread (hline ▸ hok)

theorem isDown_shown (p : Pins) (n line : Nat) :
    (p.shown n).isDown line ↔ line < n ∧ line < 16 ∧ p.read line = .ok true := by
  induction n with
  | zero => simp [shown, Snapshot.empty, Snapshot.isDown]
  | succ n ih =>
    rw [isDown_shown_succ, ih, ← or_and_right, ← Nat.lt_succ_iff_lt_or_eq]

theorem isDown_snapshot (p : Pins) (line : Nat) :
    p.snapshot.isDown line ↔ line < 16 ∧ p.read line = .ok true := by
  rw [snapshot_eq_shown, isDown_shown, and_iff_right_iff_imp]
  rintro ⟨-, hok⟩
  exact (read_eq_ok_iff.mp hok).1

/-- **A snapshot shows what the pins say.** A line is down if and only if a snapshot has room for
it, it has a pin that can be read, and the pin has the level at which a line counts as pressed.
Reading a line alone fails in two ways only: if it has no pin, and if its pin is broken. A pin that
breaks releases its line, and the snapshot shows the others as before. -/
theorem snapshot_shows_pins (p : Pins) :
    (∀ line, p.snapshot.isDown line ↔ ∃ h : line < p.pins.length,
      line < 16 ∧ p.pins[line].broken = false ∧ p.pins[line].low = p.activeLow) ∧
    (∀ line, p.snapshot.isDown line ↔ line < 16 ∧ p.read line = .ok true) ∧
    (∀ line, p.read line = .error .invalidConfig ↔ p.pins.length ≤ line) ∧
    (∀ line, p.read line = .error .input ↔
      ∃ h : line < p.pins.length, p.pins[line].broken = true) ∧
    (∀ line pressed, p.read line = .ok pressed ↔ ∃ h : line < p.pins.length,
      p.pins[line].broken = false ∧ (p.pins[line].low == p.activeLow) = pressed) ∧
    ∀ line low other, (p.set line ⟨low, true⟩).snapshot.isDown other =
      if other = line then false else p.snapshot.isDown other := by
  refine ⟨fun line => ?_, p.isDown_snapshot, fun _ => read_eq_invalidConfig_iff,
    fun _ => read_eq_input_iff, fun _ _ => read_eq_ok_iff, fun line low other => ?_⟩
  · rw [isDown_snapshot, read_eq_ok_iff]
    simp only [beq_iff_eq, exists_and_left]
  · split
    case isTrue h =>
      subst h
      refine Bool.eq_false_iff.mpr fun hdown => ?_
      exact read_set_broken_ne_ok p other low true ((isDown_snapshot _ _).mp hdown).2
    case isFalse h =>
      rw [Bool.eq_iff_iff, isDown_snapshot, isDown_snapshot, read_set_of_ne p _ h]

/-- All of eighteen lines are pressed; one has a broken pin, and for two there is no room. -/
example :
    (({ pins := List.replicate 18 ⟨true, false⟩ } : Pins).set 3 ⟨true, true⟩).snapshot.bits =
      0xFFF7 := by decide

end ButtonPad.Pins
