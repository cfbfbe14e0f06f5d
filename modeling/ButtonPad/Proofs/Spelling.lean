import ButtonPad.Proofs.Decoding

/-! # Steps and their spelling

`Step.Spelt` says which codes a step can be written in. The decoder reads a step off the codes that
spell it (`Step.Spelt.stepAt_eq`), and off no others (`Row.spelt_of_stepAt`). So a row that spells
steps one behind the other decodes to these steps, each in its slot, and to the end behind them if
there is room for one (`Row.items_of_spelt`). -/
namespace ButtonPad

/-! ## Codes by their value -/

namespace Code

theorem kind_eq (c : Code) :
    c.kind =
      if c.toInt = 0 then .finish
      else if c.toInt = 232 then .special
      else if 1 ≤ c.toInt ∧ c.toInt ≤ 231 then .key c.toInt.toNat.toUInt8
      else if 242 ≤ c.toInt ∧ c.toInt ≤ 249 then .combo (c.toInt - 240).toNat
      else if 250 < c.toInt ∧ c.toInt ≤ 255 then .click (if c = leftClick then .left else .right)
      else .reserved := by
  simp only [kind, ← Int32.toInt_inj, Int32.le_iff_toInt_le, Int32.lt_iff_toInt_lt]
  rfl

theorem kind_eq_finish_iff {c : Code} : c.kind = .finish ↔ c.toInt = 0 := by
  rw [kind_eq]
  grind

theorem kind_eq_special_iff {c : Code} : c.kind = .special ↔ c.toInt = 232 := by
  rw [kind_eq]
  grind

theorem kind_eq_click_iff {c : Code} {button : Button} :
    c.kind = .click button ↔
      250 < c.toInt ∧ c.toInt ≤ 255 ∧ button = if c = leftClick then .left else .right := by
  rw [kind_eq]
  grind

theorem kind_eq_combo_iff {c : Code} {n : Nat} :
    c.kind = .combo n ↔ c.toInt = 240 + n ∧ 2 ≤ n ∧ n ≤ 9 := by
  rw [kind_eq]
  grind

theorem toInt_ofByte (b : UInt8) : (ofByte b).toInt = b.toNat := by
  have hlt := b.toNat_lt
  exact Int32.toInt_ofNat_of_lt (by omega)

theorem toUInt8_ofByte (b : UInt8) : (ofByte b).toInt.toNat.toUInt8 = b := by
  simp [toInt_ofByte]

theorem ofByte_toUInt8 {c : Code} (h : 0 ≤ c.toInt) (h' : c.toInt ≤ 255) :
    ofByte c.toInt.toNat.toUInt8 = c := by
  have hbyte : c.toInt.toNat.toUInt8.toNat = c.toInt.toNat :=
    UInt8.toNat_ofNat_of_lt' (show c.toInt.toNat < 256 by omega)
  rw [← Int32.toInt_inj, toInt_ofByte, hbyte, Int.toNat_of_nonneg h]

theorem kind_eq_key_iff {c : Code} {usage : Usage} :
    c.kind = .key usage ↔ c = ofByte usage ∧ 1 ≤ c.toInt ∧ c.toInt ≤ 231 := by
  rw [kind_eq]
  grind [toUInt8_ofByte, ofByte_toUInt8]

theorem index?_eq_some_iff {c : Code} {index : UInt8} :
    c.index? = some index ↔ c = ofByte index := by
  rw [index?]
  constructor
  · intro h
    split at h
    · next hr =>
      cases h
      exact (ofByte_toUInt8 hr.1 hr.2).symm
    · cases h
  · rintro rfl
    have hlt := index.toNat_lt
    rw [if_pos (by rw [toInt_ofByte]; omega), toUInt8_ofByte]

theorem toInt_combo {n : Nat} (h : 2 ≤ n) (h' : n ≤ 9) : (combo n).toInt = 240 + n := by
  have hlt : ¬(n < shortestCombo ∨ longestCombo < n) :=
    not_or.mpr ⟨Nat.not_lt.mpr h, Nat.not_lt.mpr h'⟩
  rw [combo, if_neg hlt, show comboBase = Int32.ofNat 240 from rfl, ← Int32.ofNat_add,
    Int32.toInt_ofNat_of_lt (by omega)]
  omega

end Code

/-! ## Steps -/

/-- The usage is one that a plain key's code can have. -/
def Usage.Plain (usage : Usage) : Prop := 1 ≤ usage.toNat ∧ usage.toNat ≤ 231

instance (usage : Usage) : Decidable usage.Plain := inferInstanceAs (Decidable (_ ∧ _))

theorem Code.kind_ofByte {usage : Usage} (h : usage.Plain) :
    (ofByte usage).kind = .key usage := by
  obtain ⟨hlow, hhigh⟩ := h
  rw [kind_eq_key_iff, toInt_ofByte]
  exact ⟨rfl, by omega, by omega⟩

namespace Step

/-- The codes are a way to write the step. -/
inductive Spelt : Step → List Code → Prop
  | key {usage : Usage} : usage.Plain → Spelt (.key usage) [.ofByte usage]
  | click {c : Code} : 250 < c.toInt → c.toInt ≤ 255 →
      Spelt (.click (if c = .leftClick then .left else .right)) [c]
  | special {index : UInt8} : Spelt (.special index) [.special, .ofByte index]
  | combo {mark : Code} {keys : List Usage} : mark.toInt = 240 + keys.length → 2 ≤ keys.length →
      keys.length ≤ 9 → (∀ key ∈ keys, key.Plain) → Spelt (.combo keys) (mark :: keys.map .ofByte)

namespace Spelt
variable {step : Step} {codes : List Code}

theorem length_eq (h : step.Spelt codes) : codes.length = step.width := by
  cases h <;> simp [width]

theorem ne_finish (h : step.Spelt codes) : step ≠ .finish := by
  cases h <;> simp

end Spelt
end Step

namespace Row
open Decoder (Item stepAt keys)

theorem keys_ofByte {usages : List Usage} (h : ∀ usage ∈ usages, usage.Plain) (slot : Nat) :
    keys slot (usages.map .ofByte) = .ok usages := by
  induction usages generalizing slot with
  | nil => rfl
  | cons usage rest ih =>
    have hkind := Code.kind_ofByte (h usage List.mem_cons_self)
    have hrest := ih (fun key hk => h key (List.mem_cons_of_mem _ hk)) (slot + 1)
    simp only [List.map_cons, keys, hkind, hrest]
    rfl

/-- Operands that are read as keys are plain keys' codes. -/
theorem eq_ofByte_of_keys {slot : Nat} {codes : List Code} {usages : List Usage}
    (h : keys slot codes = .ok usages) :
    codes = usages.map .ofByte ∧ ∀ usage ∈ usages, usage.Plain := by
  induction codes generalizing slot usages with
  | nil =>
    cases h
    exact ⟨rfl, by simp⟩
  | cons c rest ih =>
    simp only [keys] at h
    split at h
    · next usage hkind =>
      obtain ⟨rfl, hlow, hhigh⟩ := Code.kind_eq_key_iff.mp hkind
      rw [Code.toInt_ofByte] at hlow hhigh
      cases hr : keys (slot + 1) rest with
      | error f =>
        rw [hr] at h
        cases h
      | ok others =>
        rw [hr] at h
        cases h
        obtain ⟨rfl, hothers⟩ := ih hr
        exact ⟨rfl, List.forall_mem_cons.mpr ⟨⟨by omega, by omega⟩, hothers⟩⟩
    · cases h

end Row

theorem Step.Spelt.stepAt_eq {step : Step} {codes : List Code} (h : step.Spelt codes) {row : Row}
    {slot : Nat} {rest : List Code} (hrow : row.drop slot = codes ++ rest) :
    ∃ code, row[slot]? = some code ∧ Decoder.stepAt row slot code = .ok step := by
  have hget : ∀ i, row[slot + i]? = (codes ++ rest)[i]? := by
    intro i
    rw [← hrow, List.getElem?_drop]
  have hfirst := hget 0
  rw [Nat.add_zero] at hfirst
  cases h with
  | key hplain => exact ⟨_, hfirst, by simp only [Decoder.stepAt, Code.kind_ofByte hplain]⟩
  | click hlow hhigh =>
    exact ⟨_, hfirst, by simp only [Decoder.stepAt, Code.kind_eq_click_iff.mpr ⟨hlow, hhigh, rfl⟩]⟩
  | @special index =>
    have hindex : row[slot + 1]? = some (.ofByte index) := hget 1
    have hbyte : (Code.ofByte index).index? = some index := Code.index?_eq_some_iff.mpr rfl
    refine ⟨_, hfirst, ?_⟩
    simp only [Decoder.stepAt, show Code.special.kind = .special from rfl, hindex, hbyte]
  | @combo mark keys hmark hshort hlong hplain =>
    have hkind := Code.kind_eq_combo_iff.mpr ⟨hmark, hshort, hlong⟩
    have hbehind : row.drop (slot + 1) = keys.map .ofByte ++ rest := by
      rw [← List.drop_drop, hrow]
      rfl
    have hoperands : row.extract (slot + 1) (slot + 1 + keys.length) = keys.map .ofByte := by
      rw [List.extract_eq_take_drop, hbehind, Nat.add_sub_cancel_left,
        List.take_left' (List.length_map _)]
    refine ⟨_, hfirst, ?_⟩
    simp only [Decoder.stepAt, hkind, hoperands, List.length_map, if_true, Row.keys_ofByte hplain]
    rfl

namespace Row
open Decoder (Item stepAt keys)

/-- The end is read off the finish code alone. -/
theorem eq_finish_of_stepAt {row : Row} {slot : Nat} {code : Code}
    (hs : stepAt row slot code = .ok .finish) : code = .finish := by
  unfold stepAt at hs
  split at hs
  · next hkind => exact Int32.toInt_inj.mp (Code.kind_eq_finish_iff.mp hkind)
  · cases hs
  · cases hs
  · split at hs
    · cases hs
    · split at hs <;> cases hs
  · next n _ =>
    simp only at hs
    split at hs
    · cases hk : keys (slot + 1) (row.extract (slot + 1) (slot + 1 + n)) <;> rw [hk] at hs <;>
        cases hs
    · cases hs
  · cases hs

theorem spelt_of_stepAt {row : Row} {slot : Nat} {code : Code} {step : Step}
    (hc : row[slot]? = some code) (hs : stepAt row slot code = .ok step) (hf : step ≠ .finish) :
    ∃ codes, step.Spelt codes ∧ row.drop slot = codes ++ row.drop (slot + step.width) := by
  have hrow : row.drop slot = code :: row.drop (slot + 1) := by
    obtain ⟨hlt, rfl⟩ := List.getElem?_eq_some_iff.mp hc
    exact List.drop_eq_getElem_cons hlt
  -- a case for each kind of code: the end, a key, a click, a special action, a combo, or none
  unfold stepAt at hs
  split at hs
  · cases hs
    exact absurd rfl hf
  · next usage hkind =>
    cases hs
    obtain ⟨rfl, hlow, hhigh⟩ := Code.kind_eq_key_iff.mp hkind
    rw [Code.toInt_ofByte] at hlow hhigh
    exact ⟨_, .key ⟨by omega, by omega⟩, hrow⟩
  · next button hkind =>
    cases hs
    obtain ⟨hlow, hhigh, rfl⟩ := Code.kind_eq_click_iff.mp hkind
    exact ⟨_, .click hlow hhigh, hrow⟩
  · next hkind =>
    have hmark : code = .special := Int32.toInt_inj.mp (Code.kind_eq_special_iff.mp hkind)
    split at hs
    · cases hs
    · next operand hoperand =>
      split at hs
      · next index hindex =>
        cases hs
        obtain rfl := Code.index?_eq_some_iff.mp hindex
        obtain ⟨hlt, hget⟩ := List.getElem?_eq_some_iff.mp hoperand
        refine ⟨_, .special, ?_⟩
        rw [hrow, hmark, List.drop_eq_getElem_cons hlt, hget]
        rfl
      · cases hs
  · next n hkind =>
    obtain ⟨hmark, hshort, hlong⟩ := Code.kind_eq_combo_iff.mp hkind
    simp only at hs
    split at hs
    · next hlen =>
      cases hk : keys (slot + 1) (row.extract (slot + 1) (slot + 1 + n)) with
      | error f =>
        rw [hk] at hs
        cases hs
      | ok usages =>
        rw [hk] at hs
        cases hs
        obtain ⟨hcodes, hplain⟩ := eq_ofByte_of_keys hk
        obtain rfl : usages.length = n := (length_of_keys hk).trans hlen
        refine ⟨_, .combo hmark hshort hlong hplain, ?_⟩
        have hbehind : row.drop (slot + (usages.length + 1)) =
            (row.drop (slot + 1)).drop usages.length := by
          rw [List.drop_drop]
          congr 1
          omega
        rw [hrow, ← hcodes, List.extract_eq_take_drop, Nat.add_sub_cancel_left, List.cons_append,
          Step.width, hbehind, List.take_append_drop]
    · cases hs
  · cases hs

theorem Decodes.spelt {row : Row} {start : Nat} {items : List Item} (h : Decodes row start items)
    {slot : Nat} {step : Step} (hm : .ok (slot, step) ∈ items) (hne : step ≠ .finish) :
    ∃ codes, step.Spelt codes ∧ row.drop slot = codes ++ row.drop (slot + step.width) := by
  induction h with
  | ranOut => cases hm
  | fault => simp at hm
  | finish =>
    obtain ⟨-, rfl⟩ : _ ∧ step = .finish := by simpa using hm
    exact absurd rfl hne
  | step hc hs hne' _ ih =>
    rcases List.mem_cons.mp hm with he | hm
    · cases he
      exact spelt_of_stepAt hc hs hne'
    · exact ih hm

end Row

/-! ## Scripts -/

namespace Step

def total (steps : List Step) : Nat := steps.foldr (fun step slots => step.width + slots) 0

/-- The steps, each with the slot that it starts in, one behind the other from a slot on. -/
def placed : Nat → List Step → List (Nat × Step)
  | _, [] => []
  | slot, step :: rest => (slot, step) :: placed (slot + step.width) rest

def call? : Step → Option UInt8
  | .special index => some index
  | _ => none

/-- The step can stand in a script: its keys are plain, and a combo has a count that a mark
exists for. -/
def Writable : Step → Prop
  | .finish => False
  | .key usage => usage.Plain
  | .combo keys => 2 ≤ keys.length ∧ keys.length ≤ 9 ∧ ∀ key ∈ keys, key.Plain
  | .click _ | .special _ => True

instance : DecidablePred Writable
  | .finish => inferInstanceAs (Decidable False)
  | .key usage => inferInstanceAs (Decidable usage.Plain)
  | .combo keys =>
    -- key by key, not by running through all usages
    have : Decidable (∀ key ∈ keys, key.Plain) := List.decidableBAll _ keys
    inferInstanceAs (Decidable (_ ∧ _ ∧ _))
  | .click _ | .special _ => inferInstanceAs (Decidable True)

theorem Writable.spelt {step : Step} (h : step.Writable) : step.Spelt step.codes := by
  cases step with
  | finish => exact h.elim
  | key usage => exact .key h
  | combo keys =>
    obtain ⟨hshort, hlong, hplain⟩ := h
    exact .combo (Code.toInt_combo hshort hlong) hshort hlong hplain
  | click button =>
    cases button with
    | left => exact .click (c := .leftClick) (by decide) (by decide)
    | right => exact .click (c := .rightClick) (by decide) (by decide)
  | special index => exact .special

theorem length_flatMap_codes (steps : List Step) : (steps.flatMap codes).length = total steps := by
  induction steps with
  | nil => rfl
  | cons step rest ih =>
    rw [List.flatMap_cons, List.length_append, length_codes, ih]
    rfl

end Step

namespace Row
open Decoder (Item)

/-- Nothing is left, or the script is finished, whatever else is left. -/
def Ends (rest : List Code) : Prop := rest = [] ∨ ∃ more, rest = .finish :: more

/-- What is decoded behind the last step, from a slot on. -/
def ending (row : Row) (slot : Nat) : List Item :=
  if slot < row.length then [.ok (slot, .finish)] else []

theorem decodes_ending {row : Row} {slot : Nat} (h : Ends (row.drop slot)) :
    Decodes row slot (row.ending slot) := by
  rcases h with hnil | ⟨more, hfinish⟩
  · have hle := List.drop_eq_nil_iff.mp hnil
    rw [ending, if_neg (Nat.not_lt.mpr hle)]
    exact .ranOut (List.getElem?_eq_none hle)
  · have hfirst : row[slot]? = some .finish := by
      have hget : (row.drop slot)[0]? = some .finish := by rw [hfinish]; rfl
      rwa [List.getElem?_drop, Nat.add_zero] at hget
    rw [ending, if_pos (List.getElem?_eq_some_iff.mp hfirst).1]
    exact .finish hfirst rfl

/-- Steps are decoded off the codes that spell them, each in its slot. -/
theorem decodes_of_spelt {row : Row} {written : List (Step × List Code)}
    (h : ∀ x ∈ written, x.1.Spelt x.2) {slot : Nat} {rest : List Code}
    (hrow : row.drop slot = written.flatMap (·.2) ++ rest) {items : List Item}
    (hrest : Decodes row (slot + Step.total (written.map (·.1))) items) :
    Decodes row slot ((Step.placed slot (written.map (·.1))).map .ok ++ items) := by
  induction written generalizing slot with
  | nil => exact hrest
  | cons x more ih =>
    obtain ⟨step, codes⟩ := x
    have hstep : step.Spelt codes := h _ List.mem_cons_self
    rw [List.flatMap_cons, List.append_assoc] at hrow
    obtain ⟨code, hc, hs⟩ := hstep.stepAt_eq hrow
    refine .step hc hs hstep.ne_finish (ih (fun x hx => h x (List.mem_cons_of_mem _ hx)) ?_ ?_)
    · rw [← List.drop_drop, hrow, ← hstep.length_eq, List.drop_left]
    · rw [Nat.add_assoc]
      exact hrest

theorem length_written {written : List (Step × List Code)} (h : ∀ x ∈ written, x.1.Spelt x.2) :
    (written.flatMap (·.2)).length = Step.total (written.map (·.1)) := by
  induction written with
  | nil => rfl
  | cons x more ih =>
    have hstep := (h x List.mem_cons_self).length_eq
    have hmore := ih fun x hx => h x (List.mem_cons_of_mem _ hx)
    rw [List.flatMap_cons, List.length_append, hstep, hmore]
    rfl

/-- A row that spells steps decodes to them and to the end behind them. -/
theorem items_of_spelt {row : Row} {written : List (Step × List Code)}
    (h : ∀ x ∈ written, x.1.Spelt x.2) {rest : List Code}
    (hrow : row.tail = written.flatMap (·.2) ++ rest) (hrest : Ends rest) :
    row.items = (Step.placed 1 (written.map (·.1))).map .ok ++
      row.ending (1 + Step.total (written.map (·.1))) := by
  have hdrop : row.drop 1 = written.flatMap (·.2) ++ rest := List.drop_one.trans hrow
  have hbehind : row.drop (1 + Step.total (written.map (·.1))) = rest := by
    rw [← List.drop_drop, hdrop, ← length_written h, List.drop_left]
  have hdecodes := decodes_of_spelt h hdrop (decodes_ending (hbehind ▸ hrest))
  exact (hdecodes.eq_take row.length (by omega)).symm

/-! ## Round trip -/

theorem ends_padding (n : Nat) : Ends (List.replicate n .finish) := by
  cases n with
  | zero => exact .inl rfl
  | succ n => exact .inr ⟨_, rfl⟩

theorem filterMap_call?_placed (slot : Nat) (steps : List Step) :
    (Step.placed slot steps).filterMap (Step.call? ·.2) = steps.filterMap Step.call? := by
  induction steps generalizing slot with
  | nil => rfl
  | cons step rest ih => simp only [Step.placed, List.filterMap_cons, ih]

theorem isOk_of_items {row : Row} {placed : List (Nat × Step)} {slot : Nat}
    (h : row.items = placed.map .ok ++ row.ending slot) : ∀ item ∈ row.items, item.isOk := by
  intro item hitem
  rw [h, List.mem_append] at hitem
  rcases hitem with hstep | hend
  · obtain ⟨entry, -, rfl⟩ := List.mem_map.mp hstep
    rfl
  · unfold ending at hend
    split at hend
    · rw [List.mem_singleton.mp hend]
      rfl
    · cases hend

theorem calls_of_items {row : Row} {steps : List Step} {slot : Nat}
    (h : row.items = (Step.placed 1 steps).map .ok ++ row.ending slot) :
    row.calls = steps.filterMap Step.call? := by
  have hcall : row.calls = row.items.filterMap fun item =>
      item.toOption.bind (Step.call? ·.2) := by
    unfold calls
    congr 1
    funext item
    rcases item with fault | ⟨place, _ | _ | _ | _ | index⟩ <;> rfl
  have hend :
      (row.ending slot).filterMap (fun item => item.toOption.bind (Step.call? ·.2)) = [] := by
    unfold ending
    split <;> rfl
  rw [hcall, h, List.filterMap_append, List.filterMap_map, hend, List.append_nil]
  exact filterMap_call?_placed 1 steps

theorem items_of_codes {row : Row} {steps : List Step} (h : ∀ step ∈ steps, step.Writable)
    {rest : List Code} (hrow : row.tail = steps.flatMap Step.codes ++ rest) (hrest : Ends rest) :
    row.items = (Step.placed 1 steps).map .ok ++ row.ending (1 + Step.total steps) := by
  let written := steps.map fun step => (step, step.codes)
  have hspelt : ∀ x ∈ written, x.1.Spelt x.2 :=
    List.forall_mem_map.mpr fun step hstep => (h step hstep).spelt
  have hcodes : written.flatMap (·.2) = steps.flatMap Step.codes := List.flatMap_map ..
  have hfst : written.map (·.1) = steps := by
    rw [List.map_map]
    exact List.map_id'' (fun _ => rfl) steps
  have hitems := items_of_spelt hspelt (hcodes ▸ hrow) hrest
  rwa [hfst] at hitems

/-- **Decoding undoes encoding.** Steps that fit into a row can be written to it. The row passes its
check, and it decodes to the same steps, each in the slot behind the steps before it, then to one
end if a slot is left; then nothing more comes. The actions it calls are those of its special steps.
Steps that do not fit are refused. -/
theorem decoding_undoes_encoding {width : Nat} (hwidth : 2 ≤ width) (id : Code)
    {steps : List Step} (hsteps : ∀ step ∈ steps, step.Writable) :
    (Step.total steps < width → ∃ row,
      build width id (steps.flatMap Step.codes) = .ok row ∧ row.id = id ∧ row.length = width ∧
      row.check = .ok () ∧
      row.items = (Step.placed 1 steps).map .ok ++
        (if Step.total steps < width - 1 then [.ok (Step.total steps + 1, .finish)] else []) ∧
      (∀ n, width ≤ n → row.decoder.take n = row.items) ∧
      row.calls = steps.filterMap Step.call?) ∧
    (width ≤ Step.total steps →
      build width id (steps.flatMap Step.codes) = .error .overBudget) := by
  have hlen := Step.length_flatMap_codes steps
  refine ⟨fun hfit => ?_, fun hover => by rw [build, if_neg (by omega)]⟩
  let row := padded width id (steps.flatMap Step.codes)
  have hrow : row.length = width := length_padded (by omega)
  have htail : row.tail = steps.flatMap Step.codes ++
      List.replicate (width - 1 - (steps.flatMap Step.codes).length) .finish := rfl
  have hitems := items_of_codes hsteps htail (ends_padding _)
  have hending : row.ending (1 + Step.total steps) =
      if Step.total steps < width - 1 then [.ok (Step.total steps + 1, .finish)] else [] := by
    have hslot : Step.total steps + 1 < width ↔ Step.total steps < width - 1 := by omega
    simp only [ending, hrow, Nat.add_comm 1, hslot]
  have hcheck : row.check = .ok () :=
    check_eq_ok_iff.mpr ⟨hrow ▸ hwidth, isOk_of_items hitems⟩
  exact ⟨row, by rw [build, if_pos (by omega)], rfl, hrow, hcheck,
    hending ▸ hitems, fun n hn => take_decoder (hrow ▸ hn), calls_of_items hitems⟩

/-- Operands that look like the end or a mark, in a row that they fill, in one with a slot more
and in one with a slot too few. -/
theorem decoding_undoes_encoding_specimen :
    let steps : List Step :=
      [.special 0, .combo [4, 231], .click .right, .special 232, .click .left, .special 245]
    let placed : List Decoder.Item :=
      [.ok (1, .special 0), .ok (3, .combo [4, 231]), .ok (6, .click .right),
        .ok (7, .special 232), .ok (9, .click .left), .ok (10, .special 245)]
    (∀ step ∈ steps, step.Writable) ∧
    steps.flatMap Step.codes = [232, 0, 242, 4, 231, 254, 232, 232, 253, 232, 245] ∧
    (∃ row, build 12 7 (steps.flatMap Step.codes) = .ok row ∧ row.check = .ok () ∧
      row.items = placed ∧ row.calls = [0, 232, 245]) ∧
    (∃ row, build 13 7 (steps.flatMap Step.codes) = .ok row ∧ row.check = .ok () ∧
      row.items = placed ++ [.ok (12, .finish)] ∧ row.calls = [0, 232, 245]) ∧
    build 11 7 (steps.flatMap Step.codes) = .error .overBudget := by
  intro steps placed
  have hsteps : ∀ step ∈ steps, step.Writable := by decide
  obtain ⟨full, hfull, -, -, hcheck, hitems, -, hcalls⟩ :=
    (decoding_undoes_encoding (show 2 ≤ 12 by decide) 7 hsteps).1 (by decide)
  obtain ⟨roomy, hroomy, -, -, hcheck', hitems', -, hcalls'⟩ :=
    (decoding_undoes_encoding (show 2 ≤ 13 by decide) 7 hsteps).1 (by decide)
  exact ⟨hsteps, rfl, ⟨full, hfull, hcheck, hitems, hcalls⟩,
    ⟨roomy, hroomy, hcheck', hitems', hcalls'⟩,
    (decoding_undoes_encoding (show 2 ≤ 11 by decide) 7 hsteps).2 (by decide)⟩

end Row

end ButtonPad
