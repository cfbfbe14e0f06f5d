import ButtonPad.Proofs.Spelling
import ButtonPad.Proofs.Score

/-! # How decoded steps lie in a row

A decoder is asked one question after the other, of any row. It reads no slot that the row does not
have (`Decoder.guardedNext_eq`), and it answers with the decoded row and then with nothing
(`Row.next_asked`). The steps lie one behind the other from slot 1 on, and unless something stops
the decoder they take every slot of the budget (`Row.Decodes.slots_eq`). -/
namespace ButtonPad
open Script (Fault)

namespace Decoder

/-! ## Reading inside the row -/

/-- The step that starts in the slot; nothing comes of it if a slot is read that the row does not
have. What may be missing is looked for before it is read. -/
def guardedStepAt (row : Row) (slot : Nat) : Option (Except Fault Step) :=
  row[slot]?.bind fun code =>
    match code.kind with
    | .finish => some (.ok .finish)
    | .key usage => some (.ok (.key usage))
    | .click button => some (.ok (.click button))
    | .special =>
      if slot + 1 < row.length then
        row[slot + 1]?.map fun index =>
          match index.index? with
          | some i => .ok (.special i)
          | none => .error (.actionIndex (slot + 1) index)
      else some (.error (.truncated slot))
    | .combo n =>
      if slot + n < row.length then
        ((List.range' (slot + 1) n).mapM (row[·]?)).map fun operands =>
          .combo <$> keys (slot + 1) operands
      else some (.error (.truncated slot))
    | .reserved => some (.error (.reserved slot code))

/-- The next item, in which nothing is read behind the row's end. -/
def guardedNext (d : Decoder) : Option (Option Item × Decoder) :=
  if d.finished ∨ d.row.length ≤ d.cursor then some (none, { d with finished := true })
  else (guardedStepAt d.row d.cursor).map fun
    | .error fault => (some (.error fault), { d with finished := true })
    | .ok step =>
      (some (.ok (d.cursor, step)),
        { d with cursor := d.cursor + step.width, finished := step = .finish })

theorem mapM_getElem? {row : Row} {slot n : Nat} (h : slot + n ≤ row.length) :
    (List.range' slot n).mapM (row[·]?) = some (row.extract slot (slot + n)) := by
  induction n generalizing slot with
  | zero => simp
  | succ n ih =>
    have hrest : (List.range' (slot + 1) n).mapM (row[·]?) =
        some (row.extract (slot + 1) (slot + 1 + n)) := ih (by omega)
    have hfirst : row[slot]? = some row[slot] := List.getElem?_eq_getElem (by omega)
    have hextract : row.extract slot (slot + (n + 1)) =
        row[slot] :: row.extract (slot + 1) (slot + 1 + n) := by
      rw [List.extract_eq_take_drop, List.extract_eq_take_drop,
        List.drop_eq_getElem_cons (by omega), Nat.add_sub_cancel_left, Nat.add_sub_cancel_left,
        List.take_succ_cons]
    rw [List.range'_succ, List.mapM_cons, hfirst, hrest, hextract]
    rfl

theorem guardedStepAt_eq {row : Row} {slot : Nat} {code : Code} (hc : row[slot]? = some code) :
    guardedStepAt row slot = some (stepAt row slot code) := by
  rw [guardedStepAt, hc, Option.bind_some, stepAt]
  cases hk : code.kind with
  | finish | key | click | reserved => rfl
  | special =>
    by_cases hroom : slot + 1 < row.length
    · cases hindex : row[slot + 1].index? <;>
        simp only [hroom, if_true, List.getElem?_eq_getElem hroom, Option.map_some, hindex]
    · simp only [hroom, if_false, List.getElem?_eq_none (Nat.le_of_not_lt hroom)]
  | combo n =>
    have hlen : (row.extract (slot + 1) (slot + 1 + n)).length = n ↔ slot + n < row.length := by
      have hlt := (List.getElem?_eq_some_iff.mp hc).1
      rw [List.extract_eq_take_drop, List.length_take, List.length_drop]
      omega
    by_cases hroom : slot + n < row.length
    · simp only [hroom, if_true, hlen, mapM_getElem? (by omega : slot + 1 + n ≤ row.length),
        Option.map_some]
    · simp only [hroom, if_false, hlen]

/-- Whatever state a decoder is in, nothing is read behind the row's end. -/
theorem guardedNext_eq (d : Decoder) : d.guardedNext = some d.next := by
  obtain ⟨row, cursor, finished⟩ := d
  cases finished with
  | true => simp [guardedNext, next]
  | false =>
    cases hc : row[cursor]? with
    | none =>
      have hend := List.getElem?_eq_none_iff.mp hc
      simp [guardedNext, next, hend]
    | some code =>
      have hlt := (List.getElem?_eq_some_iff.mp hc).1
      simp only [guardedNext, next, hc, guardedStepAt_eq hc, Nat.not_le.mpr hlt]
      cases stepAt row cursor code <;> simp

/-! ## Questions -/

/-- The decoder when the next item has been asked for `n` times. -/
def asked : Nat → Decoder → Decoder
  | 0, d => d
  | n + 1, d => asked n d.next.2

theorem asked_of_finished {d : Decoder} (h : d.finished = true) (n : Nat) : d.asked n = d := by
  induction n with
  | zero => rfl
  | succ n ih =>
    rw [asked, next_of_finished h]
    exact ih

theorem asked_succ (n : Nat) (d : Decoder) : d.asked (n + 1) = (d.asked n).next.2 := by
  induction n generalizing d with
  | zero => rfl
  | succ n ih => exact ih d.next.2

/-- A decoder that has no answer will have none again. -/
theorem finished_of_next_eq_none {d : Decoder} (h : d.next.1 = none) :
    d.next.2.finished = true := by
  unfold next at h ⊢
  split
  case isTrue hfinished => exact hfinished
  case isFalse hgoing =>
    rw [if_neg hgoing] at h
    split
    case h_1 => rfl
    case h_2 hc =>
      rw [hc] at h
      cases hs : stepAt d.row d.cursor _ <;> simp [hs] at h

theorem next_asked (d : Decoder) {n total : Nat} (h : n < total) :
    (d.asked n).next.1 = (d.take total)[n]? := by
  induction total generalizing d n with
  | zero => cases h
  | succ total ih =>
    rw [take]
    generalize hnext : d.next = answered
    obtain ⟨answer, after⟩ := answered
    cases answer with
    | none =>
      have hend : after.finished = true := by
        have hnone := finished_of_next_eq_none (congrArg Prod.fst hnext)
        rwa [hnext] at hnone
      cases n with
      | zero => rw [asked, hnext]; rfl
      | succ n =>
        rw [asked, hnext, asked_of_finished hend, next_of_finished hend]
        rfl
    | some item =>
      cases n with
      | zero => rw [asked, hnext]; rfl
      | succ n =>
        rw [asked, hnext, List.getElem?_cons_succ]
        exact ih after (by omega)

/-- The item that decoding stops behind. -/
def Stops : Item → Prop
  | .error _ => True
  | .ok (_, step) => step = .finish

instance : DecidablePred Stops
  | .error _ => inferInstanceAs (Decidable True)
  | .ok (_, step) => inferInstanceAs (Decidable (step = .finish))

end Decoder

namespace Row
open Decoder (Item stepAt)

/-- However often a row's decoder is asked, its answers are the decoded items, one after the other,
and nothing behind the last. -/
theorem next_asked (row : Row) (n : Nat) : (row.decoder.asked n).next.1 = row.items[n]? := by
  have htaken : row.decoder.take (row.length + n + 1) = row.items := take_decoder (by omega)
  rw [← htaken]
  exact row.decoder.next_asked (by omega)

/-! ## Places -/

def slots (steps : List (Nat × Step)) : List Nat :=
  steps.flatMap fun (slot, step) => List.range' slot step.width

namespace Decodes
variable {row : Row} {slot : Nat} {items : List Item}

theorem placed_eq (h : Decodes row slot items) :
    items.filterMap Except.toOption =
      Step.placed slot ((items.filterMap Except.toOption).map (·.2)) := by
  induction h with
  | ranOut | fault => rfl
  | finish => rfl
  | step _ _ _ _ ih => exact congrArg (_ :: ·) ih

theorem length_le (h : Decodes row slot items) : items.length ≤ row.length - slot := by
  induction h with
  | ranOut => exact Nat.zero_le _
  | fault hc | finish hc =>
    have hlt := (List.getElem?_eq_some_iff.mp hc).1
    rw [List.length_singleton]
    omega
  | @step slot code step rest hc hs _ _ ih =>
    have hlt := (List.getElem?_eq_some_iff.mp hc).1
    have hpos := step.width_pos
    rw [List.length_cons]
    omega

theorem eq_nil_of_stops (h : Decodes row slot items) {before after : List Item} {item : Item}
    (hitems : items = before ++ item :: after) (hstops : Decoder.Stops item) : after = [] := by
  induction h generalizing before with
  | ranOut => simp at hitems
  | fault | finish =>
    cases before with
    | nil => exact (List.cons.inj hitems).2.symm
    | cons first before => simp at hitems
  | step _ _ hne _ ih =>
    cases before with
    | nil =>
      obtain ⟨rfl, -⟩ := List.cons.inj hitems
      exact absurd hstops hne
    | cons first before => exact ih (List.cons.inj hitems).2

/-- Where nothing stops the decoder, the steps take all slots that are left. -/
theorem slots_eq (h : Decodes row slot items) (hgoing : ∀ item ∈ items, ¬ Decoder.Stops item) :
    slots (items.filterMap Except.toOption) = List.range' slot (row.length - slot) := by
  induction h with
  | ranOut hc =>
    rw [Nat.sub_eq_zero_of_le (List.getElem?_eq_none_iff.mp hc)]
    rfl
  | fault => exact absurd trivial (hgoing _ List.mem_cons_self)
  | finish => exact absurd rfl (hgoing _ List.mem_cons_self)
  | @step slot code step rest hc hs _ _ ih =>
    have hroom := width_le_of_stepAt hc hs
    have hrest := ih fun item hm => hgoing item (List.mem_cons_of_mem _ hm)
    have hsum : row.length - slot = step.width + (row.length - (slot + step.width)) := by omega
    rw [hsum, ← List.range'_append_1, ← hrest]
    rfl

/-- A combo's keys are what stands in the slots behind its mark. -/
theorem combo_keys (h : Decodes row slot items) {place : Nat} {keys : List Usage}
    (hm : .ok (place, .combo keys) ∈ items) :
    2 ≤ keys.length ∧ keys.length ≤ 9 ∧
      ∀ (i : Nat) (usage : Usage), keys[i]? = some usage →
        usage.Plain ∧ row[place + 1 + i]? = some (Code.ofByte usage) := by
  obtain ⟨codes, hspelt, hrow⟩ := h.spelt hm nofun
  cases hspelt with
  | @combo mark _ hmark hshort hlong hplain =>
    refine ⟨hshort, hlong, fun i usage hkey => ⟨hplain usage (List.mem_of_getElem? hkey), ?_⟩⟩
    have hlt := (List.getElem?_eq_some_iff.mp hkey).1
    rw [Nat.add_assoc, Nat.add_comm 1, ← List.getElem?_drop, hrow, List.cons_append,
      List.getElem?_cons_succ, List.getElem?_append_left (by simpa using hlt), List.getElem?_map,
      hkey]
    rfl

end Decodes

theorem mem_steps {row : Row} {slot : Nat} {step : Step} :
    (slot, step) ∈ row.steps ↔ .ok (slot, step) ∈ row.items := by
  rw [steps, List.mem_filterMap]
  refine ⟨?_, fun hm => ⟨_, hm, rfl⟩⟩
  rintro ⟨item, hm, hok⟩
  cases item with
  | error => cases hok
  | ok entry =>
    obtain rfl := Option.some.inj hok
    exact hm

/-- **Decoded steps tile their row.** Whatever codes a row has, its decoder reads no slot behind the
row's end, however often it is asked, and answers with the decoded items and then with nothing. The
steps begin in slot 1 and lie one behind the other inside the budget. A combo has two to nine keys,
the plain ones behind its mark. Nothing comes behind an end or a fault, and if neither comes, the
steps take every slot of the budget. -/
theorem steps_tile_row (row : Row) :
    (∀ n, (row.decoder.asked n).guardedNext = some (row.items[n]?, row.decoder.asked (n + 1))) ∧
      row.items.length ≤ row.budget ∧ (row.length < 2 → row.items = []) ∧
      row.steps = Step.placed 1 (row.steps.map (·.2)) ∧
      (∀ slot step, (slot, step) ∈ row.steps →
        ∀ taken ∈ List.range' slot step.width, 1 ≤ taken ∧ taken ≤ row.budget) ∧
      (∀ slot keys, (slot, .combo keys) ∈ row.steps →
        2 ≤ keys.length ∧ keys.length ≤ 9 ∧
          ∀ (i : Nat) (usage : Usage), keys[i]? = some usage →
            usage.Plain ∧ row[slot + 1 + i]? = some (Code.ofByte usage)) ∧
      (∀ before item after, row.items = before ++ item :: after → Decoder.Stops item →
        after = []) ∧
      ((∀ item ∈ row.items, ¬ Decoder.Stops item) →
        slots row.steps = List.range' 1 row.budget) := by
  have hdecodes := decodes_items row
  have hfew : row.items.length ≤ row.budget := hdecodes.length_le
  refine ⟨fun n => ?_, hfew, fun hshort => ?_, hdecodes.placed_eq, fun slot step hm => ?_,
    fun slot keys hm => hdecodes.combo_keys (mem_steps.mp hm), fun before item after =>
    hdecodes.eq_nil_of_stops, hdecodes.slots_eq⟩
  · rw [Decoder.guardedNext_eq, ← next_asked, Decoder.asked_succ]
  · unfold budget at hfew
    exact List.length_eq_zero_iff.mp (by omega)
  · obtain ⟨hlow, hhigh⟩ := hdecodes.bounds (mem_steps.mp hm)
    intro taken htaken
    rw [List.mem_range'_1] at htaken
    unfold budget
    omega

/-- A full row with an operand that looks like the end, a row whose combo is cut off, and a row
without steps. -/
theorem steps_tile_row_specimen :
    let full : Row := [7, 4, 232, 0, 242, 5, 6]
    let cut : Row := [7, 232, 0, 242, 5]
    (∀ item ∈ full.items, ¬ Decoder.Stops item) ∧ slots full.steps = [1, 2, 3, 4, 5, 6] ∧
      full[6]? = some (Code.ofByte 6) ∧
      (cut.decoder.asked 1).guardedNext =
        some (some (.error (.truncated 3)), cut.decoder.asked 2) ∧
      (cut.decoder.asked 2).guardedNext = some (none, cut.decoder.asked 3) ∧
      items [7] = [] := by
  intro full cut
  have hgoing : ∀ item ∈ full.items, ¬ Decoder.Stops item := by decide
  obtain ⟨-, -, -, -, -, hcombo, -, htiles⟩ := steps_tile_row full
  obtain ⟨-, -, hkeys⟩ := hcombo 4 [5, 6] (by decide)
  obtain ⟨hanswers, -⟩ := steps_tile_row cut
  obtain ⟨-, -, hnone, -⟩ := steps_tile_row [7]
  exact ⟨hgoing, htiles hgoing, (hkeys 1 6 rfl).2, hanswers 1, hanswers 2, hnone (by decide)⟩

end Row

end ButtonPad
