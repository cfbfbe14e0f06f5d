import ButtonPad.Script.Check
import ButtonPad.Script.Decoder

/-! # Decoding a row, rule by rule

`Decodes row slot items` says what a decoder yields from a slot on, with one rule for each way in
which it goes on or stops. The decoder follows it (`decodes_items`) and nothing else does
(`Decodes.eq_take`). The check of a row, written as a loop of its own, takes the same rules slot by
slot (`checkFrom_eq`). -/
namespace ButtonPad.Row
open Script (Fault)
open Decoder (Item stepAt keys)

/-! ## The rules -/

/-- What is decoded of the row from the slot on. -/
inductive Decodes (row : Row) : Nat → List Item → Prop
  | ranOut {slot : Nat} : row[slot]? = none → Decodes row slot []
  | fault {slot : Nat} {code : Code} {f : Fault} :
      row[slot]? = some code → stepAt row slot code = .error f → Decodes row slot [.error f]
  | finish {slot : Nat} {code : Code} :
      row[slot]? = some code → stepAt row slot code = .ok .finish →
      Decodes row slot [.ok (slot, .finish)]
  | step {slot : Nat} {code : Code} {step : Step} {rest : List Item} :
      row[slot]? = some code → stepAt row slot code = .ok step → step ≠ .finish →
      Decodes row (slot + step.width) rest → Decodes row slot (.ok (slot, step) :: rest)

/-- What the first of several questions to a decoder gives, and where the others go on. -/
theorem take_succ (row : Row) (slot n : Nat) :
    Decoder.take (n + 1) { row, cursor := slot } =
      match row[slot]? with
      | none => []
      | some code =>
        match stepAt row slot code with
        | .error f => [.error f]
        | .ok step =>
          if step = .finish then [.ok (slot, .finish)]
          else .ok (slot, step) :: Decoder.take n { row, cursor := slot + step.width } := by
  cases hc : row[slot]? with
  | none => simp [Decoder.take, Decoder.next, hc]
  | some code =>
    cases hs : stepAt row slot code with
    | error f => cases n <;> simp [Decoder.take, Decoder.next, hc, hs]
    | ok step =>
      by_cases hf : step = .finish
      · cases n <;> simp [Decoder.take, Decoder.next, hc, hs, hf]
      · simp [Decoder.take, Decoder.next, hc, hs, hf]

theorem decodes_take {row : Row} {n slot : Nat} (h : row.length ≤ slot + n) :
    Decodes row slot (Decoder.take n { row, cursor := slot }) := by
  induction n generalizing slot with
  | zero => exact .ranOut (List.getElem?_eq_none (by omega))
  | succ n ih =>
    cases hc : row[slot]? with
    | none =>
      simp only [take_succ, hc]
      exact .ranOut hc
    | some code =>
      cases hs : stepAt row slot code with
      | error f =>
        simp only [take_succ, hc, hs]
        exact .fault hc hs
      | ok step =>
        by_cases hf : step = .finish
        · subst hf
          simp only [take_succ, hc, hs, if_true]
          exact .finish hc hs
        · simp only [take_succ, hc, hs, if_neg hf]
          have hpos := step.width_pos
          exact .step hc hs hf (ih (by omega))

/-- The rules leave no choice: what follows them is what the decoder yields. -/
theorem Decodes.eq_take {row : Row} {slot : Nat} {items : List Item}
    (h : Decodes row slot items) :
    ∀ n, row.length ≤ slot + n → items = Decoder.take n { row, cursor := slot } := by
  induction h with
  | ranOut hc =>
    intro n _
    cases n with
    | zero => rfl
    | succ n => rw [take_succ, hc]
  | fault hc hs | finish hc hs =>
    intro n hn
    have hlt := (List.getElem?_eq_some_iff.mp hc).1
    obtain ⟨n, rfl⟩ := Nat.exists_eq_add_one_of_ne_zero (n := n) (by omega)
    simp [take_succ, hc, hs]
  | @step slot code step rest hc hs hne _ ih =>
    intro n hn
    have hlt := (List.getElem?_eq_some_iff.mp hc).1
    obtain ⟨n, rfl⟩ := Nat.exists_eq_add_one_of_ne_zero (n := n) (by omega)
    have hpos := step.width_pos
    simp [take_succ, hc, hs, hne, ih n (by omega)]

theorem decodes_items (row : Row) : Decodes row 1 row.items :=
  decodes_take (Nat.le_add_left row.length 1)

theorem take_decoder {row : Row} {n : Nat} (h : row.length ≤ n) :
    row.decoder.take n = row.items :=
  ((decodes_items row).eq_take n (by omega)).symm

/-! ## Operands -/

/-- The keys of a combo, or the operand that the check names first. -/
theorem keys_eq (slot : Nat) (codes : List Code) :
    keys slot codes =
      match firstNonKey slot codes with
      | some (operand, code) => .error (.comboKey operand code)
      | none => .ok (codes.filterMap Code.key?) := by
  induction codes generalizing slot with
  | nil => rfl
  | cons c rest ih =>
    cases hk : c.kind with
    | key usage =>
      have hkey : c.key? = some usage := by simp [Code.key?, hk]
      simp only [keys, firstNonKey, hk, hkey, ih (slot + 1), Option.isSome_some, if_true]
      cases firstNonKey (slot + 1) rest with
      | none => simp [Functor.map, Except.map, hkey]
      | some _ => rfl
    | finish | special | combo | click | reserved =>
      have hkey : c.key? = none := by simp [Code.key?, hk]
      simp [keys, firstNonKey, hk, hkey]

theorem length_of_keys {slot : Nat} {codes : List Code} {usages : List Usage}
    (h : keys slot codes = .ok usages) : usages.length = codes.length := by
  induction codes generalizing slot usages with
  | nil => cases h; rfl
  | cons c rest ih =>
    simp only [keys] at h
    split at h
    · cases hr : keys (slot + 1) rest with
      | error f => rw [hr] at h; cases h
      | ok us =>
        rw [hr] at h
        cases h
        simp [ih hr]
    · cases h

theorem width_le_of_stepAt {row : Row} {slot : Nat} {code : Code} {step : Step}
    (hc : row[slot]? = some code) (hs : stepAt row slot code = .ok step) :
    slot + step.width ≤ row.length := by
  have hlt := (List.getElem?_eq_some_iff.mp hc).1
  unfold stepAt at hs
  split at hs
  · cases hs; exact hlt
  · cases hs; exact hlt
  · cases hs; exact hlt
  · split at hs
    · cases hs
    · next index hi =>
      have hlt' := (List.getElem?_eq_some_iff.mp hi).1
      split at hs
      · cases hs; exact hlt'
      · cases hs
  · next n _ =>
    simp only at hs
    split at hs
    · next hlen =>
      cases hk : keys (slot + 1) (row.extract (slot + 1) (slot + 1 + n)) with
      | error f => rw [hk] at hs; cases hs
      | ok usages =>
        rw [hk] at hs
        cases hs
        have hu := length_of_keys hk
        rw [List.extract_eq_take_drop, List.length_take, List.length_drop] at hu hlen
        simp only [Step.width]
        omega
    · cases hs
  · cases hs

/-- Every decoded step lies within the row, behind the slot that decoding began in. -/
theorem Decodes.bounds {row : Row} {start : Nat} {items : List Item} (h : Decodes row start items)
    {slot : Nat} {step : Step} (hm : .ok (slot, step) ∈ items) :
    start ≤ slot ∧ slot + step.width ≤ row.length := by
  induction h with
  | ranOut => cases hm
  | fault => simp at hm
  | finish hc hs =>
    simp only [List.mem_singleton, Except.ok.injEq, Prod.mk.injEq] at hm
    obtain ⟨rfl, rfl⟩ := hm
    exact ⟨Nat.le_refl _, width_le_of_stepAt hc hs⟩
  | step hc hs _ _ ih =>
    rcases List.mem_cons.mp hm with he | hm
    · cases he
      exact ⟨Nat.le_refl _, width_le_of_stepAt hc hs⟩
    · have := ih hm
      exact ⟨by omega, this.2⟩

/-- The check passes over the operands of a step that it has checked. -/
theorem checkFrom_operands (slot n : Nat) (codes : List Code) :
    checkFrom slot n codes = checkFrom (slot + n) 0 (codes.drop n) := by
  induction n generalizing slot codes with
  | zero => rfl
  | succ n ih =>
    cases codes with
    | nil => simp [checkFrom]
    | cons c rest =>
      rw [checkFrom, ih, List.drop_succ_cons, Nat.add_right_comm, Nat.add_assoc]

/-! ## The check takes the decoder's steps -/

/-- One step of the check is the decoder's step in the same slot. -/
theorem checkFrom_eq {row : Row} {slot : Nat} {code : Code} (hc : row[slot]? = some code) :
    checkFrom slot 0 (row.drop slot) =
      match stepAt row slot code with
      | .error f => .error f
      | .ok step =>
        if step = .finish then .ok ()
        else checkFrom (slot + step.width) 0 (row.drop (slot + step.width)) := by
  obtain ⟨hlt, rfl⟩ := List.getElem?_eq_some_iff.mp hc
  rw [List.drop_eq_getElem_cons hlt]
  cases hk : row[slot].kind with
  | finish => simp [checkFrom, stepAt, hk]
  | key usage => simp [checkFrom, stepAt, hk, Step.width]
  | click button => simp [checkFrom, stepAt, hk, Step.width]
  | reserved => simp [checkFrom, stepAt, hk]
  | special =>
    have hhead : (row.drop (slot + 1)).head? = row[slot + 1]? := by simp
    simp only [checkFrom, stepAt, hk, hhead]
    cases row[slot + 1]? with
    | none => rfl
    | some index =>
      cases hi : index.index? with
      | none => simp [hi]
      | some i => simp [hi, checkFrom_operands, Step.width]
  | combo n =>
    -- the check counts the codes that are left, the decoder those that it has taken out
    have htake : row.extract (slot + 1) (slot + 1 + n) = (row.drop (slot + 1)).take n := by
      simp [List.extract_eq_take_drop]
    simp only [checkFrom, stepAt, hk, htake, List.length_take]
    by_cases hn : (row.drop (slot + 1)).length < n
    · rw [if_pos hn, if_neg (by omega)]
    · rw [if_neg hn, if_pos (by omega), keys_eq]
      cases hf : firstNonKey (slot + 1) ((row.drop (slot + 1)).take n) with
      | some o => rfl
      | none =>
        have hlen : (((row.drop (slot + 1)).take n).filterMap Code.key?).length = n := by
          have hk := keys_eq (slot + 1) ((row.drop (slot + 1)).take n)
          rw [hf] at hk
          rw [length_of_keys hk, List.length_take]
          omega
        simp [Functor.map, Except.map, Step.width, hlen, checkFrom_operands, Nat.add_assoc,
          Nat.add_comm 1]

theorem Decodes.checkFrom_ok_iff {row : Row} {slot : Nat} {items : List Item}
    (h : Decodes row slot items) :
    checkFrom slot 0 (row.drop slot) = .ok () ↔ ∀ item ∈ items, item.isOk := by
  induction h with
  | ranOut hc => simp [List.drop_eq_nil_of_le (List.getElem?_eq_none_iff.mp hc), checkFrom]
  | fault hc hs => simp [checkFrom_eq hc, hs, Except.isOk, Except.toBool]
  | finish hc hs => simp [checkFrom_eq hc, hs, Except.isOk, Except.toBool]
  | step hc hs hne _ ih =>
    simp only [checkFrom_eq hc, hs, if_neg hne, ih, List.forall_mem_cons]
    simp [Except.isOk, Except.toBool]

theorem Decodes.checkFrom_error_iff {row : Row} {slot : Nat} {items : List Item} {f : Fault}
    (h : Decodes row slot items) :
    checkFrom slot 0 (row.drop slot) = .error f ↔
      ∃ before, items = before ++ [.error f] ∧ ∀ item ∈ before, item.isOk := by
  induction h with
  | ranOut hc => simp [List.drop_eq_nil_of_le (List.getElem?_eq_none_iff.mp hc), checkFrom]
  | fault hc hs =>
    simp only [checkFrom_eq hc, hs]
    constructor
    · rintro ⟨⟩
      exact ⟨[], rfl, by simp⟩
    · rintro ⟨before, hb, -⟩
      cases before with
      | nil => simpa using hb
      | cons _ _ => simp at hb
  | finish hc hs =>
    simp only [checkFrom_eq hc, hs, if_true]
    constructor
    · rintro ⟨⟩
    · rintro ⟨before, hb, -⟩
      cases before <;> simp at hb
  | step hc hs hne _ ih =>
    simp only [checkFrom_eq hc, hs, if_neg hne, ih]
    constructor
    · rintro ⟨before, rfl, hok⟩
      exact ⟨_ :: before, rfl, List.forall_mem_cons.mpr ⟨rfl, hok⟩⟩
    · rintro ⟨before, hb, hok⟩
      cases before with
      | nil => simp at hb
      | cons first before =>
        rw [List.cons_append, List.cons.injEq] at hb
        exact ⟨before, hb.2, (List.forall_mem_cons.mp hok).2⟩

theorem check_eq_checkFrom {row : Row} (h : 2 ≤ row.length) :
    row.check = checkFrom 1 0 (row.drop 1) := by
  rw [check, if_neg (by omega), List.drop_one]

/-- What passes the check is long enough and decodes to steps alone. -/
theorem check_eq_ok_iff {row : Row} :
    row.check = .ok () ↔ 2 ≤ row.length ∧ ∀ item ∈ row.items, item.isOk := by
  by_cases hlen : 2 ≤ row.length
  · rw [check_eq_checkFrom hlen, and_iff_right hlen]
    exact (decodes_items row).checkFrom_ok_iff
  · rw [check, if_pos (by omega)]
    simp [hlen]

theorem isOk_of_check {row : Row} (h : row.check = .ok ()) : ∀ item ∈ row.items, item.isOk :=
  (check_eq_ok_iff.mp h).2

/-- **The check and the decoder agree.** A row passes the check if and only if all that is decoded
of it are steps, and fails it with a fault if and only if decoding ends with that fault, behind
steps alone. Nothing is decoded beyond these items. -/
theorem check_agrees_with_decoder {row : Row} (h : 2 ≤ row.length) :
    (row.check = .ok () ↔ ∀ item ∈ row.items, item.isOk) ∧
      (∀ f, row.check = .error f ↔
        ∃ before, row.items = before ++ [.error f] ∧ ∀ item ∈ before, item.isOk) ∧
      ∀ n, row.length ≤ n → row.decoder.take n = row.items := by
  rw [check_eq_checkFrom h]
  exact ⟨(decodes_items row).checkFrom_ok_iff, fun _ => (decodes_items row).checkFrom_error_iff,
    fun _ => take_decoder⟩

/-- A combo's bad operand, behind a special step whose index looks like a finish code. -/
theorem check_agrees_with_decoder_behind_zero_index :
    2 ≤ ([7, 4, 232, 0, 242, 5, 253] : Row).length ∧
      Row.check [7, 4, 232, 0, 242, 5, 253] = .error (.comboKey 6 253) ∧
      ∃ before, Row.items [7, 4, 232, 0, 242, 5, 253] = before ++ [.error (.comboKey 6 253)] ∧
        ∀ item ∈ before, item.isOk :=
  have hcheck : Row.check [7, 4, 232, 0, 242, 5, 253] = .error (.comboKey 6 253) := by rfl
  ⟨by decide, hcheck, ((check_agrees_with_decoder (by decide)).2.1 _).mp hcheck⟩

end ButtonPad.Row
