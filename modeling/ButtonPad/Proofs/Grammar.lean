import ButtonPad.Proofs.Spelling

/-! # The grammar of scripts

`Phrase` says, by the codes' values alone, which codes make one step, and `Row.Splits` that codes
are phrases up to the end of the script. What passes the check is what splits, and it splits in one
way only: the phrases are the codes of the decoder's steps. -/
namespace ButtonPad

/-! ## Phrases -/

/-- The codes make one step. -/
inductive Phrase : List Code → Prop
  | key {c : Code} : 1 ≤ c.toInt → c.toInt ≤ 231 → Phrase [c]
  | click {c : Code} : 251 ≤ c.toInt → c.toInt ≤ 255 → Phrase [c]
  | special {mark index : Code} : mark.toInt = 232 → 0 ≤ index.toInt → index.toInt ≤ 255 →
      Phrase [mark, index]
  | combo {mark : Code} {keys : List Code} : mark.toInt = 240 + keys.length → 2 ≤ keys.length →
      keys.length ≤ 9 → (∀ c ∈ keys, 1 ≤ c.toInt ∧ c.toInt ≤ 231) → Phrase (mark :: keys)

theorem Usage.Plain.toInt_ofByte {usage : Usage} (h : usage.Plain) :
    1 ≤ (Code.ofByte usage).toInt ∧ (Code.ofByte usage).toInt ≤ 231 := by
  obtain ⟨hlow, hhigh⟩ := h
  rw [Code.toInt_ofByte]
  omega

theorem Code.exists_plain {c : Code} (h : 1 ≤ c.toInt ∧ c.toInt ≤ 231) :
    ∃ usage : Usage, usage.Plain ∧ c = ofByte usage := by
  have hbyte : ofByte c.toInt.toNat.toUInt8 = c := ofByte_toUInt8 (by omega) (by omega)
  refine ⟨c.toInt.toNat.toUInt8, ?_, hbyte.symm⟩
  rw [← hbyte, toInt_ofByte] at h
  exact ⟨by omega, by omega⟩

theorem Code.exists_plain_map {codes : List Code}
    (h : ∀ c ∈ codes, 1 ≤ c.toInt ∧ c.toInt ≤ 231) :
    ∃ usages : List Usage, (∀ usage ∈ usages, usage.Plain) ∧ codes = usages.map ofByte := by
  induction codes with
  | nil => exact ⟨[], by simp, rfl⟩
  | cons c rest ih =>
    obtain ⟨usage, hplain, hc⟩ := exists_plain (h c List.mem_cons_self)
    obtain ⟨usages, hall, hrest⟩ := ih fun c hc => h c (List.mem_cons_of_mem _ hc)
    exact ⟨usage :: usages, List.forall_mem_cons.mpr ⟨hplain, hall⟩, by rw [hc, hrest]; rfl⟩

theorem Step.Spelt.phrase {step : Step} {codes : List Code} (h : step.Spelt codes) :
    Phrase codes := by
  cases h with
  | key hplain => exact .key hplain.toInt_ofByte.1 hplain.toInt_ofByte.2
  | click hlow hhigh => exact .click hlow hhigh
  | @special index =>
    have hlt := index.toNat_lt
    exact .special rfl (by rw [Code.toInt_ofByte]; omega) (by rw [Code.toInt_ofByte]; omega)
  | combo hmark hshort hlong hplain =>
    refine .combo (by rw [List.length_map]; exact hmark) (by rwa [List.length_map])
      (by rwa [List.length_map]) (List.forall_mem_map.mpr fun key hkey => ?_)
    exact (hplain key hkey).toInt_ofByte

theorem Phrase.spelt {codes : List Code} (h : Phrase codes) : ∃ step : Step, step.Spelt codes := by
  cases h with
  | key hlow hhigh =>
    obtain ⟨usage, hplain, rfl⟩ := Code.exists_plain ⟨hlow, hhigh⟩
    exact ⟨_, .key hplain⟩
  | click hlow hhigh => exact ⟨_, .click hlow hhigh⟩
  | @special mark index hmark hlow hhigh =>
    obtain rfl : mark = .special := Int32.toInt_inj.mp hmark
    rw [← Code.ofByte_toUInt8 hlow hhigh]
    exact ⟨_, .special⟩
  | combo hmark hshort hlong hkeys =>
    obtain ⟨usages, hplain, rfl⟩ := Code.exists_plain_map hkeys
    rw [List.length_map] at hmark hshort hlong
    exact ⟨_, .combo hmark hshort hlong hplain⟩

/-- Phrases are what steps are spelt in, one step for each. -/
theorem exists_written {phrases : List (List Code)} (h : ∀ phrase ∈ phrases, Phrase phrase) :
    ∃ written : List (Step × List Code),
      (∀ x ∈ written, x.1.Spelt x.2) ∧ written.map (·.2) = phrases := by
  induction phrases with
  | nil => exact ⟨[], by simp, rfl⟩
  | cons phrase rest ih =>
    obtain ⟨step, hstep⟩ := (h phrase List.mem_cons_self).spelt
    obtain ⟨written, hspelt, hrest⟩ := ih fun phrase hp => h phrase (List.mem_cons_of_mem _ hp)
    exact ⟨(step, phrase) :: written, List.forall_mem_cons.mpr ⟨hstep, hspelt⟩,
      congrArg (phrase :: ·) hrest⟩

/-! ## Writing steps back -/

/-- The codes that a step is written back in, where its first code is at hand. Several codes mean
the same click. -/
def Step.rewrite (first : Code) : Step → List Code
  | .click _ => [first]
  | step => step.codes

theorem Step.Spelt.rewrite_eq {step : Step} {codes : List Code} (h : step.Spelt codes)
    {first : Code} (hfirst : codes.head? = some first) : step.rewrite first = codes := by
  cases h with
  | key => rfl
  | click => rw [← Option.some.inj hfirst]; rfl
  | special => rfl
  | combo hmark hshort hlong =>
    -- no two codes mark combos of as many keys
    have hcode := Int32.toInt_inj.mp ((Code.toInt_combo hshort hlong).trans hmark.symm)
    simp only [rewrite, Step.codes, hcode]

namespace Row
open Decoder (Item stepAt)

/-- The codes are the phrases up to the end of the script. -/
def Splits (codes : List Code) (phrases : List (List Code)) : Prop :=
  (∀ phrase ∈ phrases, Phrase phrase) ∧ ∃ rest, codes = phrases.flatten ++ rest ∧ Ends rest

/-- A decoded step, written back; the end and a fault are not. -/
def phrase? (row : Row) : Item → Option (List Code)
  | .error _ | .ok (_, .finish) => none
  | .ok (slot, step) => some (step.rewrite (row[slot]?.getD .finish))

def phrases (row : Row) : List (List Code) := row.items.filterMap row.phrase?

theorem phrase?_of_spelt {row : Row} {slot : Nat} {step : Step} {codes rest : List Code}
    (h : step.Spelt codes) (hrow : row.drop slot = codes ++ rest) :
    row.phrase? (.ok (slot, step)) = some codes := by
  have hne : codes ≠ [] := by
    have hpos := step.width_pos
    rw [← h.length_eq] at hpos
    exact List.ne_nil_of_length_pos hpos
  obtain ⟨first, others, rfl⟩ := List.exists_cons_of_ne_nil hne
  have hget : row[slot]? = some first := by
    rw [← List.head?_drop, hrow]
    rfl
  have hback := h.rewrite_eq rfl
  have hnot := h.ne_finish
  cases step with
  | finish => exact absurd rfl hnot
  | _ => simp only [phrase?, hget, Option.getD_some, hback]

/-- Steps in their slots are written back in the codes that they are spelt in. -/
theorem filterMap_phrase?_placed {row : Row} {written : List (Step × List Code)}
    (h : ∀ x ∈ written, x.1.Spelt x.2) {slot : Nat} {rest : List Code}
    (hrow : row.drop slot = written.flatMap (·.2) ++ rest) :
    ((Step.placed slot (written.map (·.1))).map .ok).filterMap row.phrase? =
      written.map (·.2) := by
  induction written generalizing slot with
  | nil => rfl
  | cons x more ih =>
    obtain ⟨step, codes⟩ := x
    have hstep : step.Spelt codes := h _ List.mem_cons_self
    rw [List.flatMap_cons, List.append_assoc] at hrow
    have hbehind : row.drop (slot + step.width) = more.flatMap (·.2) ++ rest := by
      rw [← List.drop_drop, hrow, ← hstep.length_eq, List.drop_left]
    have hmore := ih (fun x hx => h x (List.mem_cons_of_mem _ hx)) hbehind
    simp only [List.map_cons, Step.placed, List.filterMap_cons, phrase?_of_spelt hstep hrow, hmore]

/-- A row splits into the decoder's steps and in no other way. -/
theorem Splits.eq_phrases {row : Row} {phrases : List (List Code)}
    (h : Splits row.tail phrases) : phrases = row.phrases := by
  obtain ⟨hphrases, rest, hrow, hrest⟩ := h
  obtain ⟨written, hspelt, rfl⟩ := exists_written hphrases
  rw [← List.flatMap_def] at hrow
  have hitems := items_of_spelt hspelt hrow hrest
  have hend : ∀ slot, (row.ending slot).filterMap row.phrase? = [] := by
    intro slot
    unfold ending
    split <;> rfl
  rw [Row.phrases, hitems, List.filterMap_append, hend, List.append_nil,
    filterMap_phrase?_placed hspelt (List.drop_one.trans hrow)]

theorem Splits.isOk_items {row : Row} {phrases : List (List Code)}
    (h : Splits row.tail phrases) : ∀ item ∈ row.items, item.isOk := by
  obtain ⟨hphrases, rest, hrow, hrest⟩ := h
  obtain ⟨written, hspelt, rfl⟩ := exists_written hphrases
  rw [← List.flatMap_def] at hrow
  exact isOk_of_items (items_of_spelt hspelt hrow hrest)

theorem Decodes.splits {row : Row} {slot : Nat} {items : List Item} (h : Decodes row slot items)
    (hok : ∀ item ∈ items, item.isOk) : ∃ phrases, Splits (row.drop slot) phrases := by
  induction h with
  | ranOut hc =>
    have hle := List.getElem?_eq_none_iff.mp hc
    exact ⟨[], by simp, _, List.drop_eq_nil_iff.mpr hle, .inl rfl⟩
  | fault hc hs => cases hok _ List.mem_cons_self
  | @finish slot code hc hs =>
    -- no phrase is left, and whatever stands behind the finish code is free
    obtain rfl := eq_finish_of_stepAt hs
    obtain ⟨hlt, hget⟩ := List.getElem?_eq_some_iff.mp hc
    exact ⟨[], by simp, _, List.drop_eq_getElem_cons hlt, .inr ⟨_, by rw [hget]⟩⟩
  | @step slot code step rest hc hs hne _ ih =>
    obtain ⟨phrases, hphrases, more, hrow, hmore⟩ :=
      ih fun item hi => hok item (List.mem_cons_of_mem _ hi)
    obtain ⟨codes, hspelt, hcodes⟩ := spelt_of_stepAt hc hs hne
    refine ⟨codes :: phrases, List.forall_mem_cons.mpr ⟨hspelt.phrase, hphrases⟩, more, ?_, hmore⟩
    rw [hcodes, hrow, List.flatten_cons, List.append_assoc]

/-- **The check accepts the grammar.** A row passes the check if and only if it has a slot behind
its id and what stands there is phrases up to the end of the script. It is so in one way only: the
phrases are the decoded steps, written back in the codes that they were read from. -/
theorem check_accepts_grammar (row : Row) :
    (row.check = .ok () ↔ 2 ≤ row.length ∧ ∃ phrases, Splits row.tail phrases) ∧
    (row.check = .ok () → Splits row.tail row.phrases) ∧
    ∀ phrases, Splits row.tail phrases → phrases = row.phrases := by
  have hiff : (∀ item ∈ row.items, item.isOk) ↔ ∃ phrases, Splits row.tail phrases := by
    constructor
    · intro hok
      rw [← List.drop_one]
      exact (decodes_items row).splits hok
    · rintro ⟨phrases, hsplits⟩
      exact hsplits.isOk_items
  refine ⟨by rw [check_eq_ok_iff, hiff], fun hcheck => ?_, fun phrases h => h.eq_phrases⟩
  obtain ⟨phrases, hsplits⟩ := hiff.mp (isOk_of_check hcheck)
  exact hsplits.eq_phrases ▸ hsplits

/-- An index that looks like the end, a click code that is not the button's own, and codes behind
the end that mean nothing. -/
theorem check_accepts_grammar_specimen :
    let row : Row := [7, 4, 232, 0, 242, 5, 6, 251, 0, 999]
    row.check = .ok () ∧ Splits row.tail [[4], [232, 0], [242, 5, 6], [251]] ∧
      row.phrases = [[4], [232, 0], [242, 5, 6], [251]] := by
  intro row
  have hphrases : row.phrases = [[4], [232, 0], [242, 5, 6], [251]] := by rfl
  have hcheck : row.check = .ok () := by rfl
  exact ⟨hcheck, hphrases ▸ (check_accepts_grammar row).2.1 hcheck, hphrases⟩

end Row

end ButtonPad
