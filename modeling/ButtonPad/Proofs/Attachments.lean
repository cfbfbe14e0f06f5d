import ButtonPad.Proofs.Lists
import ButtonPad.Setup.Repertoire

/-! # Any sequence of attachments

A repertoire grows by attachments alone, one for each application and ten at most. So its
applications are the first ten that were ever asked for (`owners_after`). What it stores is what
was attached (`mem_entries_after_iff`), so an application finds its slots whatever is asked for
later. -/
namespace ButtonPad.Repertoire
variable {A : Type} {r r' : Repertoire A} {app : AppId} {slots : List (Slot A)}

/-! ## One attachment -/

theorem add_eq_ok_iff : r.add app slots = .ok r' ↔
    app ∉ r.owners ∧ r.owners.length < capacity ∧ r' = ⟨r.entries ++ [(app, slots)]⟩ := by
  have hlength : r.owners.length = r.entries.length := List.length_map _
  rw [add, hlength]
  split
  case isTrue hdup => simp [hdup]
  case isFalse hnew =>
    split
    case isTrue hfull => simp [Nat.not_lt.mpr hfull]
    case isFalse hroom => simp [hnew, Nat.not_le.mp hroom, eq_comm]

/-- Being attached already is found out first. -/
theorem add_eq_error_iff {e : Rejection} : r.add app slots = .error e ↔
    app ∈ r.owners ∧ e = .duplicate app ∨
      app ∉ r.owners ∧ capacity ≤ r.owners.length ∧ e = .full := by
  have hlength : r.owners.length = r.entries.length := List.length_map _
  rw [add, hlength]
  split
  case isTrue hdup => simp [hdup, eq_comm]
  case isFalse hnew =>
    split
    case isTrue hfull => simp [hnew, hfull, eq_comm]
    case isFalse hroom => simp [hnew, hroom]

/-- The repertoire behind an attempt to attach slots, successful or not. -/
def attach (r : Repertoire A) (q : AppId × List (Slot A)) : Repertoire A :=
  match r.add q.1 q.2 with
  | .ok r => r
  | .error _ => r

theorem attach_of_ok (h : r.add app slots = .ok r') : r.attach (app, slots) = r' := by
  simp [attach, h]

theorem attach_of_error {e : Rejection} (h : r.add app slots = .error e) :
    r.attach (app, slots) = r := by
  simp [attach, h]

/-- An attempt changes nothing, or it succeeds and stores the slots behind the others. -/
theorem attach_cases (r : Repertoire A) (q : AppId × List (Slot A)) :
    (q.1 ∈ r.owners ∨ capacity ≤ r.owners.length) ∧ r.attach q = r ∨
      (q.1 ∉ r.owners ∧ r.owners.length < capacity) ∧ r.attach q = ⟨r.entries ++ [q]⟩ := by
  cases hadd : r.add q.1 q.2 with
  | error e =>
    rcases add_eq_error_iff.mp hadd with ⟨hdup, -⟩ | ⟨-, hfull, -⟩
    · exact .inl ⟨.inl hdup, attach_of_error hadd⟩
    · exact .inl ⟨.inr hfull, attach_of_error hadd⟩
  | ok r' =>
    obtain ⟨hnew, hroom, rfl⟩ := add_eq_ok_iff.mp hadd
    exact .inr ⟨⟨hnew, hroom⟩, attach_of_ok hadd⟩

/-! ## Sequences of attachments -/

def after (qs : List (AppId × List (Slot A))) : Repertoire A := qs.foldl attach {}

/-- In this sequence the attempt behind `front` succeeded, and attached the slots. -/
def Attaches (qs front : List (AppId × List (Slot A))) (app : AppId) (slots : List (Slot A)) :
    Prop :=
  ∃ back r, qs = front ++ (app, slots) :: back ∧ (after front).add app slots = .ok r

variable {qs front : List (AppId × List (Slot A))}

theorem after_concat (qs : List (AppId × List (Slot A))) (q : AppId × List (Slot A)) :
    after (qs ++ [q]) = (after qs).attach q := by
  simp [after]

/-- The first ten applications that were asked for, in the order in which they were. -/
theorem owners_after (qs : List (AppId × List (Slot A))) :
    (after qs).owners = (qs.map (·.1)).eraseDups.take capacity := by
  induction qs using List.reverseRecOn with
  | nil => rfl
  | append_singleton qs q ih =>
    rw [after_concat, List.map_append, List.map_singleton, eraseDups_concat]
    rcases (after qs).attach_cases q with ⟨hrefused, he⟩ | ⟨⟨hnew, hroom⟩, he⟩
    · rw [he, ih]
      rw [ih] at hrefused
      split
      · rfl
      case isFalse hasked =>
        -- a refusal of what was never asked for is for want of room
        have hfull : capacity ≤ (qs.map (·.1)).eraseDups.length := by
          rcases hrefused with hmem | hfull
          · exact absurd (List.mem_eraseDups.mp (List.mem_of_mem_take hmem)) hasked
          · exact Nat.le_trans hfull (List.length_take_le' ..)
        rw [List.take_append_of_le_length hfull]
    · rw [ih, List.length_take] at hroom
      have hall : (qs.map (·.1)).eraseDups.take capacity = (qs.map (·.1)).eraseDups :=
        List.take_of_length_le (by omega)
      rw [ih, hall, List.mem_eraseDups] at hnew
      rw [he, if_neg hnew, List.take_of_length_le (by simp; omega), ← hall, ← ih]
      exact List.map_append

theorem nodup_owners_after (qs : List (AppId × List (Slot A))) : (after qs).owners.Nodup := by
  induction qs using List.reverseRecOn with
  | nil => exact List.nodup_nil
  | append_singleton qs q ih =>
    rw [after_concat]
    rcases (after qs).attach_cases q with ⟨-, he⟩ | ⟨⟨hnew, -⟩, he⟩
    · rwa [he]
    · rw [he, owners, List.map_append, List.nodup_append]
      refine ⟨ih, by simp, ?_⟩
      intro app happ app' hq heq
      rw [List.map_singleton, List.mem_singleton] at hq
      exact hnew (hq ▸ heq ▸ happ)

theorem attaches_concat_iff {q : AppId × List (Slot A)} :
    Attaches (qs ++ [q]) front app slots ↔ Attaches qs front app slots ∨
      (front = qs ∧ q = (app, slots) ∧ ∃ r, (after qs).add app slots = .ok r) := by
  constructor
  · intro h
    obtain ⟨back, r, heq, hadd⟩ := h
    rcases concat_eq_split_iff.mp heq with ⟨rfl, rfl, rfl⟩ | ⟨more, rfl, rfl⟩
    · exact .inr ⟨rfl, rfl, r, hadd⟩
    · exact .inl ⟨more, r, rfl, hadd⟩
  · intro h
    rcases h with ⟨back, r, rfl, hadd⟩ | ⟨rfl, rfl, r, hadd⟩
    · exact ⟨back ++ [q], r, by simp, hadd⟩
    · exact ⟨[], r, rfl, hadd⟩

theorem Attaches.append (h : Attaches qs front app slots) (later : List (AppId × List (Slot A))) :
    Attaches (qs ++ later) front app slots := by
  obtain ⟨back, r, rfl, hadd⟩ := h
  exact ⟨back ++ later, r, by simp, hadd⟩

/-- What is stored was attached, and what was attached is stored. -/
theorem mem_entries_after_iff :
    (app, slots) ∈ (after qs).entries ↔ ∃ front, Attaches qs front app slots := by
  induction qs using List.reverseRecOn with
  | nil => simp [after, Attaches]
  | append_singleton qs q ih =>
    obtain ⟨app', slots'⟩ := q
    simp only [after_concat, attaches_concat_iff, exists_or, ← ih, exists_eq_left, Prod.mk.injEq]
    cases hadd : (after qs).add app' slots' with
    | error e =>
      rw [attach_of_error hadd]
      constructor
      · exact .inl
      · intro h
        rcases h with h | ⟨⟨rfl, rfl⟩, r, hok⟩
        · exact h
        · rw [hadd] at hok
          cases hok
    | ok r' =>
      rw [attach_of_ok hadd]
      obtain ⟨-, -, rfl⟩ := add_eq_ok_iff.mp hadd
      rw [List.mem_append, List.mem_singleton, Prod.mk.injEq]
      refine or_congr_right ⟨fun h => ?_, fun h => ?_⟩
      · obtain ⟨rfl, rfl⟩ := h
        exact ⟨⟨rfl, rfl⟩, _, hadd⟩
      · obtain ⟨⟨rfl, rfl⟩, -⟩ := h
        exact ⟨rfl, rfl⟩

theorem Attaches.mem_owners (h : Attaches qs front app slots) : app ∈ (after qs).owners :=
  List.mem_map.mpr ⟨_, mem_entries_after_iff.mpr ⟨front, h⟩, rfl⟩

theorem Attaches.eq {front' : List (AppId × List (Slot A))} {slots' : List (Slot A)}
    (h : Attaches qs front app slots) (h' : Attaches qs front' app slots') : front = front' := by
  induction qs using List.reverseRecOn with
  | nil =>
    obtain ⟨_, _, heq, -⟩ := h
    simp at heq
  | append_singleton qs q ih =>
    -- an application that has slots is known, so a later attempt for it fails
    rcases attaches_concat_iff.mp h with h | ⟨rfl, rfl, _, hok⟩
    · rcases attaches_concat_iff.mp h' with h' | ⟨-, hq, _, hok'⟩
      · exact ih h h'
      · exact absurd h.mem_owners (add_eq_ok_iff.mp hok').1
    · rcases attaches_concat_iff.mp h' with h' | ⟨rfl, -⟩
      · exact absurd h'.mem_owners (add_eq_ok_iff.mp hok).1
      · rfl

theorem Attaches.slotsOf_eq (h : Attaches qs front app slots) : (after qs).slotsOf app = slots := by
  have hstored := mem_entries_after_iff.mpr ⟨front, h⟩
  rw [slotsOf, find?_eq_some_of_nodup (nodup_owners_after qs) hstored]

theorem slotsOf_eq_nil (h : app ∉ r.owners) : r.slotsOf app = [] := by
  have hfind : r.entries.find? (·.1 = app) = none :=
    List.find?_eq_none.mpr fun q hq happ =>
      h (List.mem_map.mpr ⟨q, hq, of_decide_eq_true happ⟩)
  rw [slotsOf, hfind]

/-- **A repertoire keeps what was attached.** Behind any sequence of attempts a further one succeeds
if and only if its application is new and there are fewer than ten; else it is told to be a
duplicate, even when there is no room left, or that there is no room, and nothing is changed. The
applications are the first ten that were asked for, in this order, and each finds its slots whatever
is asked for later. -/
theorem attachments_are_kept (qs : List (AppId × List (Slot A))) :
    let r := after qs
    (∀ app slots,
      ((∃ r', r.add app slots = .ok r') ↔ app ∉ r.owners ∧ r.owners.length < 10) ∧
      (∀ r', r.add app slots = .ok r' →
        r.attach (app, slots) = r' ∧ r' = ⟨r.entries ++ [(app, slots)]⟩) ∧
      (∀ e, r.add app slots = .error e ↔ app ∈ r.owners ∧ e = .duplicate app ∨
        app ∉ r.owners ∧ 10 ≤ r.owners.length ∧ e = .full) ∧
      ∀ e, r.add app slots = .error e → r.attach (app, slots) = r) ∧
    r.owners.Nodup ∧ r.owners = ((qs.map (·.1)).eraseDups).take 10 ∧
    (∀ app, app ∈ r.owners ↔ ∃ front slots, Attaches qs front app slots) ∧
    (∀ app, app ∉ r.owners → ∀ index, r.slot? app index = none) ∧
    ∀ app front slots, Attaches qs front app slots →
      (∀ front' slots', Attaches qs front' app slots' → front' = front) ∧
      ∀ later index, (after (qs ++ later)).slot? app index = slots[index.toNat]? := by
  intro r
  refine ⟨fun app slots => ⟨?_, ?_, fun e => add_eq_error_iff, fun e => attach_of_error⟩,
    nodup_owners_after qs, owners_after qs, ?_, ?_, ?_⟩
  · constructor
    · intro h
      obtain ⟨r', hok⟩ := h
      obtain ⟨hnew, hroom, -⟩ := add_eq_ok_iff.mp hok
      exact ⟨hnew, hroom⟩
    · intro h
      obtain ⟨hnew, hroom⟩ := h
      exact ⟨_, add_eq_ok_iff.mpr ⟨hnew, hroom, rfl⟩⟩
  · intro r' hok
    exact ⟨attach_of_ok hok, (add_eq_ok_iff.mp hok).2.2⟩
  · intro app
    constructor
    · intro happ
      obtain ⟨⟨_, slots⟩, hmem, rfl⟩ := List.mem_map.mp happ
      obtain ⟨front, h⟩ := mem_entries_after_iff.mp hmem
      exact ⟨front, slots, h⟩
    · intro hattached
      obtain ⟨front, slots, h⟩ := hattached
      exact h.mem_owners
  · intro app hnone index
    rw [slot?, slotsOf_eq_nil hnone, List.getElem?_nil]
  · intro app front slots h
    refine ⟨fun front' slots' h' => h'.eq h, fun later index => ?_⟩
    rw [slot?, (h.append later).slotsOf_eq]

/-- The eleventh application finds no room, and the first one is still a duplicate then. -/
theorem attachments_are_kept_specimen :
    let slots : List (Slot Unit) := [{ action := (), arg1 := [1] }, { action := (), arg1 := [2] }]
    let qs : List (AppId × List (Slot Unit)) :=
      (9, slots) :: (9, []) :: ([0, 1, 2, 3, 4, 5, 6, 7, 8, 9, 10].map fun app => (app, []))
    (after qs).owners = [9, 0, 1, 2, 3, 4, 5, 6, 7, 8] ∧
      (after qs).add 9 [] = .error (.duplicate 9) ∧ (after qs).add 10 [] = .error .full ∧
      Attaches qs [] 9 slots ∧ (after qs).slot? 9 1 = slots[1]? ∧ (after qs).slot? 9 2 = none ∧
      (after qs).slot? 10 0 = none := by
  intro slots qs
  obtain ⟨hstep, -, howners, -, hnone, hkept⟩ := attachments_are_kept qs
  have hten : (after qs).owners = [9, 0, 1, 2, 3, 4, 5, 6, 7, 8] := by
    rw [howners]
    decide
  have hattached : Attaches qs [] 9 slots := ⟨_, _, rfl, rfl⟩
  have hfound := (hkept 9 [] slots hattached).2 []
  rw [List.append_nil] at hfound
  exact ⟨hten, ((hstep 9 []).2.2.1 _).mpr (.inl ⟨by rw [hten]; decide, rfl⟩),
    ((hstep 10 []).2.2.1 _).mpr (.inr ⟨by rw [hten]; decide, by rw [hten]; decide, rfl⟩),
    hattached, hfound 1, hfound 2, hnone 10 (by rw [hten]; decide) 0⟩

end ButtonPad.Repertoire
