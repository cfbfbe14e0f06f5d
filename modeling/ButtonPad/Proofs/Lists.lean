import Mathlib.Data.List.Induction

/-! # Facts about lists

What several proofs need to know of histories, of tables of pairs, and of lists that are built from
the front or the back. -/
namespace ButtonPad
variable {α β : Type}

/-- A split of a list with one more element behind it is at this element or in front of it. -/
theorem concat_eq_split_iff {l front back : List α} {a x : α} :
    l ++ [a] = front ++ x :: back ↔
      l = front ∧ a = x ∧ back = [] ∨ ∃ more, back = more ++ [a] ∧ l = front ++ x :: more := by
  constructor
  · intro h
    rcases List.eq_nil_or_concat back with rfl | ⟨more, b, rfl⟩
    · obtain ⟨rfl, hx⟩ := List.append_inj' h rfl
      cases hx
      exact .inl ⟨rfl, rfl, rfl⟩
    · rw [List.concat_eq_append, ← List.cons_append, ← List.append_assoc] at h
      obtain ⟨rfl, hb⟩ := List.append_inj' h rfl
      cases hb
      exact .inr ⟨more, List.concat_eq_append, rfl⟩
  · intro h
    rcases h with ⟨rfl, rfl, rfl⟩ | ⟨more, rfl, rfl⟩
    · rfl
    · simp

theorem mem_middle_iff {front back : List α} {a x : α} :
    a ∈ front ++ x :: back ↔ a = x ∨ a ∈ front ++ back :=
  List.perm_middle.mem_iff.trans List.mem_cons

theorem eraseDups_concat [DecidableEq α] (l : List α) (a : α) :
    (l ++ [a]).eraseDups = if a ∈ l then l.eraseDups else l.eraseDups ++ [a] := by
  rw [List.eraseDups_append]
  split
  case isTrue h => simp [List.removeAll, h]
  case isFalse h =>
    rw [show [a].removeAll l = [a] by simp [List.removeAll, h]]
    rfl

/-- Where no two have the same key, a key finds the one that has it. -/
theorem find?_eq_some_of_nodup [DecidableEq β] {key : α → β} {l : List α} {a : α}
    (h : (l.map key).Nodup) (ha : a ∈ l) : l.find? (key · = key a) = some a := by
  obtain ⟨front, back, rfl⟩ := List.append_of_mem ha
  rw [List.map_append, List.map_cons, List.nodup_append] at h
  refine List.find?_eq_some_iff_append.mpr ⟨by simp, front, back, rfl, fun b hb => ?_⟩
  simpa using h.2.2 (key b) (List.mem_map_of_mem hb) (key a) List.mem_cons_self

end ButtonPad
