import ButtonPad.Lines.ButtonMap
import ButtonPad.Proofs.Lists

/-! # Button maps built from pairs

A map is known by the command of each line (`ext_command`). A map built from pairs gives a line the
command of the last pair for it (`command_ofPairs`), and the list of a map is such pairs again. -/
namespace ButtonPad

/-! ## The last pair for a line -/

section LastFor
variable {α : Type} {pairs : List (Nat × α)} {line : Nat} {a : α}

/-- The last of the pairs for the line has this value. -/
def LastFor (pairs : List (Nat × α)) (line : Nat) (a : α) : Prop :=
  ∃ front back, pairs = front ++ (line, a) :: back ∧ line ∉ back.map (·.1)

theorem LastFor.mem (h : LastFor pairs line a) : (line, a) ∈ pairs := by
  obtain ⟨front, back, rfl, -⟩ := h
  exact List.mem_append_right _ List.mem_cons_self

/-- A pair in front counts where none behind it is for the same line. -/
theorem lastFor_cons_iff {p : Nat × α} :
    LastFor (p :: pairs) line a ↔
      LastFor pairs line a ∨ p = (line, a) ∧ line ∉ pairs.map (·.1) := by
  constructor
  · intro h
    obtain ⟨front, back, heq, hlast⟩ := h
    cases front with
    | nil =>
      cases heq
      exact .inr ⟨rfl, hlast⟩
    | cons q front =>
      cases heq
      exact .inl ⟨front, back, rfl, hlast⟩
  · intro h
    rcases h with ⟨front, back, rfl, hlast⟩ | ⟨rfl, hlast⟩
    · exact ⟨p :: front, back, rfl, hlast⟩
    · exact ⟨[], pairs, rfl, hlast⟩

theorem lastFor_concat_iff {p : Nat × α} :
    LastFor (pairs ++ [p]) line a ↔ if line = p.1 then a = p.2 else LastFor pairs line a := by
  constructor
  · intro h
    obtain ⟨front, back, heq, hlast⟩ := h
    rcases concat_eq_split_iff.mp heq with ⟨rfl, rfl, rfl⟩ | ⟨more, rfl, rfl⟩
    · exact if_pos rfl ▸ rfl
    · rw [List.map_append, List.mem_append, not_or] at hlast
      rw [if_neg (by simpa using hlast.2)]
      exact ⟨front, more, rfl, hlast.1⟩
  · intro h
    split at h
    case isTrue hline =>
      subst hline h
      exact ⟨pairs, [], rfl, by simp⟩
    case isFalse hline =>
      obtain ⟨front, back, rfl, hlast⟩ := h
      exact ⟨front, back ++ [p], by simp, by simp [hlast, hline]⟩

theorem exists_lastFor_iff : (∃ a, LastFor pairs line a) ↔ line ∈ pairs.map (·.1) := by
  induction pairs using List.reverseRecOn with
  | nil => simp [LastFor]
  | append_singleton pairs p ih =>
    simp only [lastFor_concat_iff, List.map_append, List.map_singleton, List.mem_append,
      List.mem_singleton]
    split
    case isTrue hline => simp [hline]
    case isFalse hline => simp [hline, ih]

theorem lastFor_iff_mem (h : pairs.Pairwise (·.1 < ·.1)) :
    LastFor pairs line a ↔ (line, a) ∈ pairs := by
  constructor
  · exact LastFor.mem
  · intro hmem
    obtain ⟨front, back, rfl⟩ := List.append_of_mem hmem
    refine ⟨front, back, rfl, fun hlast => ?_⟩
    obtain ⟨p, hp, hline⟩ := List.mem_map.mp hlast
    have hlt := List.rel_of_pairwise_cons (List.pairwise_append.mp h).2.1 hp
    exact absurd hline (Nat.ne_of_gt hlt)

end LastFor

namespace ButtonMap

/-! ## Commands and lists -/

theorem command_of_le {m : ButtonMap} {line : Nat} (h : Snapshot.lineCount ≤ line) :
    m.command line = none := by
  rw [command, Vector.getElem?_eq_none h]
  rfl

theorem ext_command {m n : ButtonMap} (h : ∀ line, m.command line = n.command line) : m = n := by
  obtain ⟨commands⟩ := m
  obtain ⟨commands'⟩ := n
  congr 1
  refine Vector.ext fun line hlt => ?_
  have hline := h line
  simp only [command, Vector.getElem?_eq_getElem hlt, Option.join_some] at hline
  exact hline

theorem mem_toList {m : ButtonMap} {line : Nat} {command : UInt8} :
    (line, command) ∈ m.toList ↔ m.command line = some command := by
  simp only [toList, List.mem_filterMap, List.mem_range, Option.map_eq_some_iff, Prod.mk.injEq]
  constructor
  · intro h
    obtain ⟨line', -, command', hc, rfl, rfl⟩ := h
    exact hc
  · intro hc
    obtain ⟨hlt, -⟩ := Vector.getElem?_eq_some_iff.mp (Option.join_eq_some_iff.mp hc)
    exact ⟨line, hlt, command, hc, rfl, rfl⟩

theorem pairwise_toList (m : ButtonMap) : m.toList.Pairwise (·.1 < ·.1) := by
  refine List.Pairwise.filterMap _ (fun line line' hlt => ?_) List.pairwise_lt_range
  intro press hp press' hp'
  obtain ⟨command, -, rfl⟩ := Option.map_eq_some_iff.mp hp
  obtain ⟨command', -, rfl⟩ := Option.map_eq_some_iff.mp hp'
  exact hlt

theorem firstPress_eq_none_iff {m : ButtonMap} {s : Snapshot} :
    m.firstPress s = none ↔ ∀ line, s.isDown line → m.command line = none := by
  rw [firstPress, List.findSome?_eq_none_iff]
  refine forall_congr' fun line => ?_
  rw [Snapshot.mem_downLines, Option.map_eq_none_iff]

/-! ## Maps of pairs -/

variable {pairs : List (Nat × UInt8)} {m : ButtonMap}

theorem command_empty (line : Nat) : empty.command line = none := by
  rw [command, empty, Vector.getElem?_replicate]
  split <;> rfl

theorem ofPairs_concat (pairs : List (Nat × UInt8)) (p : Nat × UInt8) :
    ofPairs (pairs ++ [p]) = (ofPairs pairs).bind fun m => m.assign p.1 p.2 := by
  rw [ofPairs, List.foldlM_append]
  simp only [List.foldlM_cons, List.foldlM_nil, bind_pure]
  rfl

/-- A map can be built if and only if all lines are in range, and what goes wrong otherwise. -/
theorem ofPairs_cases (pairs : List (Nat × UInt8)) :
    (∀ p ∈ pairs, p.1 < Snapshot.lineCount) ∧ (∃ m, ofPairs pairs = .ok m) ∨
      (∃ p ∈ pairs, Snapshot.lineCount ≤ p.1) ∧ ofPairs pairs = .error .lineOutOfRange := by
  induction pairs using List.reverseRecOn with
  | nil => exact .inl ⟨by simp, empty, rfl⟩
  | append_singleton pairs p ih =>
    rw [ofPairs_concat]
    rcases ih with ⟨hall, m, hm⟩ | ⟨⟨q, hq, hle⟩, herror⟩
    · rw [hm, Except.bind, assign]
      split
      case isTrue hlt =>
        refine .inl ⟨fun q hq => ?_, _, rfl⟩
        rcases List.mem_append.mp hq with hq | hq
        · exact hall q hq
        · rwa [List.mem_singleton.mp hq]
      case isFalse hge => exact .inr ⟨⟨p, by simp, Nat.le_of_not_lt hge⟩, rfl⟩
    · rw [herror]
      exact .inr ⟨⟨q, List.mem_append_left _ hq, hle⟩, rfl⟩

theorem command_ofPairs (h : ofPairs pairs = .ok m) (line : Nat) (c : UInt8) :
    m.command line = some c ↔ LastFor pairs line c := by
  induction pairs using List.reverseRecOn generalizing m with
  | nil =>
    cases h
    simp [command_empty, LastFor]
  | append_singleton pairs p ih =>
    rw [ofPairs_concat] at h
    cases hfront : ofPairs pairs with
    | error e =>
      rw [hfront] at h
      cases h
    | ok n =>
      rw [hfront] at h
      rw [command_assign h, lastFor_concat_iff, ← ih hfront]
      split
      · simp [eq_comm]
      · rfl

theorem command_ofPairs_eq_none_iff (h : ofPairs pairs = .ok m) (line : Nat) :
    m.command line = none ↔ line ∉ pairs.map (·.1) := by
  rw [← exists_lastFor_iff, Option.eq_none_iff_forall_ne_some, not_exists]
  exact forall_congr' fun c => not_congr (command_ofPairs h line c)

theorem ofPairs_toList (m : ButtonMap) : ofPairs m.toList = .ok m := by
  rcases ofPairs_cases m.toList with ⟨-, n, hn⟩ | ⟨⟨p, hp, hle⟩, -⟩
  · have hsame : n = m := ext_command fun line => Option.ext fun c => by
      rw [command_ofPairs hn, lastFor_iff_mem m.pairwise_toList, mem_toList]
    rw [hn, hsame]
  · rw [mem_toList, command_of_le hle] at hp
    cases hp

/-- **The last pair for a line counts.** Pairs make up a map unless a line is out of range. The
first press of the map is the lowest pressed line that occurs in the pairs, with the command of the
last pair for it. The map lists each line that occurs once, in ascending order and with that
command, and what it lists makes up the same map again. -/
theorem last_pairs_count (pairs : List (Nat × UInt8)) :
    (ofPairs pairs = .error .lineOutOfRange ↔ ∃ p ∈ pairs, 16 ≤ p.1) ∧
    ((∀ p ∈ pairs, p.1 < 16) → ∃ m, ofPairs pairs = .ok m ∧
      (∀ s line c, m.firstPress s = some ⟨line, c⟩ ↔ s.isDown line ∧ LastFor pairs line c ∧
        ∀ lower < line, s.isDown lower → lower ∉ pairs.map (·.1)) ∧
      (∀ s, m.firstPress s = none ↔ ∀ line, s.isDown line → line ∉ pairs.map (·.1)) ∧
      (∀ line, line ∈ m.toList.map (·.1) ↔ line ∈ pairs.map (·.1)) ∧
      (∀ line c, (line, c) ∈ m.toList ↔ LastFor pairs line c) ∧
      m.toList.Pairwise (·.1 < ·.1) ∧ ofPairs m.toList = .ok m) := by
  rcases ofPairs_cases pairs with ⟨hall, m, hm⟩ | ⟨⟨p, hp, hle⟩, herror⟩
  · refine ⟨⟨fun h => ?_, fun ⟨p, hp, hle⟩ => absurd (hall p hp) (Nat.not_lt.mpr hle)⟩, fun _ => ?_⟩
    · rw [hm] at h
      cases h
    · have hcommand := command_ofPairs hm
      have hnone := command_ofPairs_eq_none_iff hm
      have hlisted : ∀ line c, (line, c) ∈ m.toList ↔ LastFor pairs line c := fun line c => by
        rw [mem_toList, hcommand]
      refine ⟨m, hm, fun s line c => ?_, fun s => ?_, fun line => ?_, hlisted, m.pairwise_toList,
        ofPairs_toList m⟩
      · simp only [firstPress_eq_some_iff, hcommand, hnone]
      · simp only [firstPress_eq_none_iff, hnone]
      · rw [← exists_lastFor_iff, ← exists_lastFor_iff]
        exact exists_congr fun c => by rw [lastFor_iff_mem m.pairwise_toList, hlisted]
  · refine ⟨⟨fun _ => ⟨p, hp, hle⟩, fun _ => herror⟩, fun hall => ?_⟩
    exact absurd (hall p hp) (Nat.not_lt.mpr hle)

/-- A lower line is pressed that has no command, and the line that has one was mapped twice. -/
theorem last_pairs_count_specimen :
    let pairs : List (Nat × UInt8) := [(4, 2), (9, 7), (4, 5)]
    let s := (Snapshot.empty.set 0 true).set 4 true
    (∀ p ∈ pairs, p.1 < 16) ∧ ∃ m, ofPairs pairs = .ok m ∧ m.firstPress s = some ⟨4, 5⟩ ∧
      m.firstPress (s.set 4 false) = none ∧ m.toList.map (·.1) = [4, 9] ∧
      ofPairs m.toList = .ok m := by
  intro pairs s
  have hall : ∀ p ∈ pairs, p.1 < 16 := by decide
  obtain ⟨-, hmap⟩ := last_pairs_count pairs
  obtain ⟨m, hm, hsome, hnone, -, -, -, hagain⟩ := hmap hall
  refine ⟨hall, m, hm, ?_, ?_, ?_, hagain⟩
  · exact (hsome s 4 5).mpr ⟨by decide, ⟨[(4, 2), (9, 7)], [], rfl, by decide⟩, by decide⟩
  · refine (hnone _).mpr fun line hdown hmapped => ?_
    have hline : line = 4 ∨ line = 9 ∨ line = 4 := by simpa [pairs] using hmapped
    rcases hline with rfl | rfl | rfl <;> exact absurd hdown (by decide)
  · cases hm
    rfl

end ButtonMap

end ButtonPad
