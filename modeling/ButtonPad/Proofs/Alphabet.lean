import ButtonPad.Text.Stroke
import Mathlib.Data.UInt

/-! # The characters that keys type

Each letter and digit has a stroke of its own, and nothing else has one. So a stroke can be read
back as a character (`Stroke.character?`), and reading is typing turned around
(`Stroke.character?_eq_some_iff`). No usage is the code of a letter or digit, so what was typed once
cannot be taken for a text again (`Stroke.ofAscii?_usage`). -/
namespace ButtonPad.Stroke

def character? (s : Stroke) : Option UInt8 :=
  if Usage.a ≤ s.usage ∧ s.usage ≤ Usage.z then
    some ((if s.shift then 'A' else 'a').toUInt8 + (s.usage - Usage.a))
  else if s.shift then none
  else if s.usage = Usage.zero then some '0'.toUInt8
  else if Usage.one ≤ s.usage ∧ s.usage ≤ Usage.nine then
    some ('1'.toUInt8 + (s.usage - Usage.one))
  else none

/-! ## In numbers -/

theorem ofAscii?_eq (c : UInt8) :
    ofAscii? c =
      if 97 ≤ c ∧ c ≤ 122 then some ⟨4 + (c - 97), false⟩
      else if 65 ≤ c ∧ c ≤ 90 then some ⟨4 + (c - 65), true⟩
      else if c = 48 then some ⟨39, false⟩
      else if 49 ≤ c ∧ c ≤ 57 then some ⟨30 + (c - 49), false⟩
      else none := rfl

theorem character?_eq (usage : Usage) (shift : Bool) :
    character? ⟨usage, shift⟩ =
      if 4 ≤ usage ∧ usage ≤ 29 then some ((if shift then 65 else 97) + (usage - 4))
      else if shift then none
      else if usage = 39 then some 48
      else if 30 ≤ usage ∧ usage ≤ 38 then some (49 + (usage - 30))
      else none := by
  cases shift <;> rfl

/-- Characters in a row are typed by keys in a row. -/
theorem row_iff {first last key lastKey : UInt8} (hchars : first ≤ last) (hkeys : key ≤ lastKey)
    (h : lastKey - key = last - first) {c usage : UInt8} :
    (first ≤ c ∧ c ≤ last) ∧ key + (c - first) = usage ↔
      (key ≤ usage ∧ usage ≤ lastKey) ∧ first + (usage - key) = c := by
  grind

theorem lower_iff {c usage : UInt8} :
    (97 ≤ c ∧ c ≤ 122) ∧ 4 + (c - 97) = usage ↔ (4 ≤ usage ∧ usage ≤ 29) ∧ 97 + (usage - 4) = c :=
  row_iff (by decide) (by decide) (by decide)

theorem upper_iff {c usage : UInt8} :
    (65 ≤ c ∧ c ≤ 90) ∧ 4 + (c - 65) = usage ↔ (4 ≤ usage ∧ usage ≤ 29) ∧ 65 + (usage - 4) = c :=
  row_iff (by decide) (by decide) (by decide)

theorem digit_iff {c usage : UInt8} :
    (49 ≤ c ∧ c ≤ 57) ∧ 30 + (c - 49) = usage ↔
      (30 ≤ usage ∧ usage ≤ 38) ∧ 49 + (usage - 30) = c :=
  row_iff (by decide) (by decide) (by decide)

/-! ## Reading is typing turned around -/

theorem character?_of_ofAscii? {s : Stroke} {c : UInt8} (h : ofAscii? c = some s) :
    s.character? = some c := by
  obtain ⟨usage, shift⟩ := s
  rw [ofAscii?_eq] at h
  rw [character?_eq]
  split at h
  case isTrue hlower =>
    cases h
    obtain ⟨hkey, hchar⟩ := lower_iff.mp ⟨hlower, rfl⟩
    rw [if_pos hkey]
    exact congrArg some hchar
  split at h
  case isTrue hupper =>
    cases h
    obtain ⟨hkey, hchar⟩ := upper_iff.mp ⟨hupper, rfl⟩
    rw [if_pos hkey]
    exact congrArg some hchar
  split at h
  case isTrue hzero =>
    cases h
    subst hzero
    rfl
  split at h
  case isTrue hdigit =>
    cases h
    obtain ⟨hkey, hchar⟩ := digit_iff.mp ⟨hdigit, rfl⟩
    have hletter : ¬(4 ≤ 30 + (c - 49) ∧ 30 + (c - 49) ≤ 29) := by grind
    have hzero : ¬30 + (c - 49) = 39 := by grind
    rw [if_neg hletter, if_neg Bool.false_ne_true, if_neg hzero, if_pos hkey]
    exact congrArg some hchar
  case isFalse => cases h

theorem ofAscii?_of_character? {s : Stroke} {c : UInt8} (h : s.character? = some c) :
    ofAscii? c = some s := by
  obtain ⟨usage, shift⟩ := s
  rw [character?_eq] at h
  rw [ofAscii?_eq]
  split at h
  case isTrue hkey =>
    cases shift with
    | false =>
      obtain ⟨hlower, rfl⟩ := lower_iff.mpr ⟨hkey, Option.some.inj h⟩
      rw [if_pos hlower]
    | true =>
      obtain ⟨hupper, rfl⟩ := upper_iff.mpr ⟨hkey, Option.some.inj h⟩
      have hlower : ¬(97 ≤ c ∧ c ≤ 122) := by grind
      rw [if_neg hlower, if_pos hupper]
  cases shift with
  | true => cases h
  | false =>
    rw [if_neg Bool.false_ne_true] at h
    split at h
    case isTrue hzero =>
      cases h
      subst hzero
      rfl
    split at h
    case isTrue hkey =>
      obtain ⟨hdigit, rfl⟩ := digit_iff.mpr ⟨hkey, Option.some.inj h⟩
      have hlower : ¬(97 ≤ c ∧ c ≤ 122) := by grind
      have hupper : ¬(65 ≤ c ∧ c ≤ 90) := by grind
      have hzero : ¬c = 48 := by grind
      rw [if_neg hlower, if_neg hupper, if_neg hzero, if_pos hdigit]
    case isFalse => cases h

theorem character?_eq_some_iff {s : Stroke} {c : UInt8} :
    s.character? = some c ↔ ofAscii? c = some s :=
  ⟨ofAscii?_of_character?, character?_of_ofAscii?⟩

theorem isSome_ofAscii? (c : UInt8) : (ofAscii? c).isSome = c.isASCIIAlphanum := by
  rw [ofAscii?_eq]
  grind [UInt8.isASCIIAlphanum, UInt8.isASCIIAlpha, UInt8.isASCIIUpper, UInt8.isASCIILower,
    UInt8.isASCIIDigit]

/-- The usages of letters and digits end before the codes of the digits begin. -/
theorem ofAscii?_usage {s : Stroke} {c : UInt8} (h : ofAscii? c = some s) :
    ofAscii? s.usage = none := by
  have hsmall : s.usage < 48 := by
    rw [ofAscii?_eq] at h
    grind
  rw [ofAscii?_eq]
  grind

end ButtonPad.Stroke
