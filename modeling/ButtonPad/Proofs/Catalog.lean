import ButtonPad.Setup.Catalog

/-! # Catalogs built by registrations

A catalog grows by registrations alone, and a rejected one leaves it as it is (`register_cases`).
What a registration checks once therefore holds of every application that is ever looked up. -/
namespace ButtonPad

/-- The application's rows are as long as its budget says, and all of them pass the check. -/
structure Application.Sound (a : Application) : Prop where
  length_row : ∀ row ∈ a.scripts, row.length = a.budget + 1
  check_row : ∀ row ∈ a.scripts, row.check = .ok ()

namespace Catalog

/-- An application to register, with a table of rows of one width. -/
structure Registration where
  id : AppId
  name : String
  width : Nat
  rows : List Row
  length_row : ∀ row ∈ rows, row.length = width

def Registration.application (q : Registration) : Application :=
  { id := q.id, name := q.name, budget := q.width - 1, scripts := q.rows }

def register (c : Catalog) (q : Registration) : Catalog :=
  match c.add q.id q.name q.width q.rows with
  | .ok (_, c) => c
  | .error _ => c

def after (capacity : Nat) (qs : List Registration) : Catalog := qs.foldl register { capacity }

theorem find?_eq_none_iff {c : Catalog} {id : AppId} : c.find? id = none ↔ id ∉ c.ids := by
  simp [find?, ids]

theorem firstFault_eq_none_iff {n : Nat} {rows : List Row} :
    firstFault n rows = none ↔ ∀ row ∈ rows, row.check = .ok () := by
  induction rows generalizing n with
  | nil => simp [firstFault]
  | cons row rest ih =>
    cases hr : row.check with
    | ok u => simp [firstFault, hr, ih]
    | error f => simp [firstFault, hr]

theorem rejection?_eq_none_iff {c : Catalog} {id : AppId} {width : Nat} {rows : List Row} :
    c.rejection? id width rows = none ↔
      c.applications.length < c.capacity ∧ c.find? id = none ∧ 2 ≤ width ∧
        rows.length ≤ Application.scriptLimit ∧ ∀ row ∈ rows, row.check = .ok () := by
  unfold rejection?
  split
  case isTrue hfull => simp [Nat.not_lt.mpr hfull]
  case isFalse hfull =>
    split
    case isTrue hdup =>
      simp [Option.isSome_iff_ne_none.mp hdup]
    case isFalse hdup =>
      split
      case isTrue hwidth => simp [Nat.not_le.mpr hwidth]
      case isFalse hwidth =>
        split
        case isTrue hmany => simp [Nat.not_le.mpr hmany]
        case isFalse hmany =>
          rw [Option.map_eq_none_iff, firstFault_eq_none_iff]
          rw [Option.not_isSome_iff_eq_none] at hdup
          exact ⟨fun h => ⟨Nat.not_le.mp hfull, hdup, Nat.not_lt.mp hwidth, Nat.not_lt.mp hmany, h⟩,
            fun h => h.2.2.2.2⟩

/-- A registration changes nothing, or it met all conditions and one application is stored. -/
theorem register_cases (c : Catalog) (q : Registration) :
    c.register q = c ∨
      (c.applications.length < c.capacity ∧ c.find? q.id = none ∧ 2 ≤ q.width ∧
        q.rows.length ≤ Application.scriptLimit ∧ ∀ row ∈ q.rows, row.check = .ok ()) ∧
      c.register q = { c with applications := c.applications ++ [q.application] } := by
  unfold register add
  cases hr : c.rejection? q.id q.width q.rows with
  | some r => exact .inl rfl
  | none => exact .inr ⟨rejection?_eq_none_iff.mp hr, rfl⟩

theorem register_sound {c : Catalog} (h : ∀ a ∈ c.applications, a.Sound) (q : Registration) :
    ∀ a ∈ (c.register q).applications, a.Sound := by
  rcases c.register_cases q with he | ⟨⟨_, _, hwidth, _, hcheck⟩, he⟩
  · rwa [he]
  · rw [he]
    intro a ha
    rcases List.mem_append.mp ha with ha | ha
    · exact h a ha
    · rw [List.mem_singleton.mp ha]
      refine ⟨fun row hrow => ?_, hcheck⟩
      rw [q.length_row row hrow]
      show q.width = q.width - 1 + 1
      omega

/-- Every application of a catalog is sound, however the catalog came about. -/
theorem after_sound (capacity : Nat) (qs : List Registration) :
    ∀ a ∈ (after capacity qs).applications, a.Sound := by
  unfold after
  have start : ∀ a ∈ ({ capacity } : Catalog).applications, a.Sound := by simp
  generalize ({ capacity } : Catalog) = c at start
  induction qs generalizing c with
  | nil => exact start
  | cons q qs ih => exact ih (c.register q) (register_sound start q)

end Catalog

end ButtonPad
