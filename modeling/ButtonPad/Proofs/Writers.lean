import ButtonPad.Proofs.Mapping
import Mathlib.Logic.Relation

/-! # Writers of one bank

Several writers set levels in one bank, one call at a time and in any order, each on lines of its
own. What a line comes to is its writer's last call, or else its level before (`Due`). No call of
any writer changes that (`Due.step`), so it holds of whatever bank is left in the end. -/
namespace ButtonPad

theorem Snapshot.ext_isDown {s t : Snapshot} (h : ∀ line, s.isDown line = t.isDown line) :
    s = t := by
  obtain ⟨bits⟩ := s
  obtain ⟨bits'⟩ := t
  congr 1
  exact UInt16.toNat_inj.mp (Nat.eq_of_testBit_eq h)

/-- A bank of line levels, and the calls that each of its writers has still to make. A call names a
line and its level. -/
structure SharedBank where
  bank : Snapshot
  writers : List (List (Nat × Bool))

namespace SharedBank

/-- Some writer makes its next call, which sets the line at one stroke. -/
inductive Step : SharedBank → SharedBank → Prop
  | call (bank : Snapshot) (front back : List (List (Nat × Bool))) (line : Nat) (pressed : Bool)
    (rest : List (Nat × Bool)) :
    Step ⟨bank, front ++ ((line, pressed) :: rest) :: back⟩
      ⟨bank.set line pressed, front ++ rest :: back⟩

/-- Calls of any writers, in any order. -/
abbrev Reaches : SharedBank → SharedBank → Prop := Relation.ReflTransGen Step

def Done (s : SharedBank) : Prop := ∀ calls ∈ s.writers, calls = []

/-- No two writers write the same line. -/
def Apart (writers : List (List (Nat × Bool))) : Prop :=
  writers.Pairwise fun calls calls' => ∀ call ∈ calls, ∀ call' ∈ calls', call.1 ≠ call'.1

instance (writers : List (List (Nat × Bool))) : Decidable (Apart writers) :=
  inferInstanceAs (Decidable (List.Pairwise _ _))

/-- What the line comes to: the level of the last call for it that is still to be made, or the one
that it has, if there is none. -/
def Due (s : SharedBank) (line : Nat) (level : Bool) : Prop :=
  (∃ calls ∈ s.writers, LastFor calls line level) ∨
    (∀ calls ∈ s.writers, line ∉ calls.map (·.1)) ∧ s.bank.isDown line = level

variable {s t : SharedBank} {line : Nat} {level : Bool}

theorem exists_due (s : SharedBank) (line : Nat) : ∃ level, s.Due line level := by
  by_cases hwritten : ∃ calls ∈ s.writers, line ∈ calls.map (·.1)
  · obtain ⟨calls, hcalls, hline⟩ := hwritten
    obtain ⟨level, hlast⟩ := exists_lastFor_iff.mpr hline
    exact ⟨level, .inl ⟨calls, hcalls, hlast⟩⟩
  · refine ⟨s.bank.isDown line, .inr ⟨fun calls hcalls hline => ?_, rfl⟩⟩
    exact hwritten ⟨calls, hcalls, hline⟩

theorem Due.of_done (h : s.Due line level) (hdone : s.Done) : s.bank.isDown line = level := by
  rcases h with ⟨calls, hcalls, hlast⟩ | ⟨-, hlevel⟩
  · rw [hdone calls hcalls] at hlast
    cases hlast.mem
  · exact hlevel

section Step
variable {front back : List (List (Nat × Bool))} {calls : List (Nat × Bool)}

theorem apart_middle_iff : Apart (front ++ calls :: back) ↔
    (∀ calls' ∈ front ++ back, ∀ c ∈ calls, ∀ c' ∈ calls', c.1 ≠ c'.1) ∧
      Apart (front ++ back) := by
  have hsymm : ∀ {calls calls' : List (Nat × Bool)},
      (∀ c ∈ calls, ∀ c' ∈ calls', c.1 ≠ c'.1) → ∀ c ∈ calls', ∀ c' ∈ calls, c.1 ≠ c'.1 :=
    fun h c hc c' hc' => (h c' hc' c hc).symm
  rw [Apart, List.pairwise_middle hsymm, List.pairwise_cons]
  rfl

theorem Apart.step (h : Apart s.writers) (hstep : s.Step t) : Apart t.writers := by
  cases hstep
  obtain ⟨hothers, hrest⟩ := apart_middle_iff.mp h
  refine apart_middle_iff.mpr ⟨fun calls' hcalls' c hc => ?_, hrest⟩
  exact hothers calls' hcalls' c (List.mem_cons_of_mem _ hc)

theorem Due.step (h : s.Due line level) (hline : line < 16) (hapart : Apart s.writers)
    (hstep : s.Step t) : t.Due line level := by
  cases hstep with
  | call bank front back line' pressed rest =>
    have hothers := (apart_middle_iff.mp hapart).1
    rcases h with ⟨calls, hcalls, hlast⟩ | ⟨hnone, hlevel⟩
    · rcases mem_middle_iff.mp hcalls with rfl | hcalls
      · rcases lastFor_cons_iff.mp hlast with hlast | ⟨heq, hnoMore⟩
        · exact .inl ⟨rest, mem_middle_iff.mpr (.inl rfl), hlast⟩
        · -- this was the last call for its line
          cases heq
          refine .inr ⟨fun calls hcalls => ?_, ?_⟩
          · rcases mem_middle_iff.mp hcalls with rfl | hcalls
            · exact hnoMore
            · intro hmem
              obtain ⟨c, hc, hsame⟩ := List.mem_map.mp hmem
              exact hothers calls hcalls _ List.mem_cons_self c hc hsame.symm
          · rw [Snapshot.isDown_set, if_pos ⟨rfl, hline⟩]
      · exact .inl ⟨calls, mem_middle_iff.mpr (.inr hcalls), hlast⟩
    · have hown := hnone _ (mem_middle_iff.mpr (.inl rfl))
      obtain ⟨hne, hrest⟩ := not_or.mp (mt List.mem_cons.mpr hown)
      refine .inr ⟨fun calls hcalls => ?_, ?_⟩
      · rcases mem_middle_iff.mp hcalls with rfl | hcalls
        · exact hrest
        · exact hnone calls (mem_middle_iff.mpr (.inr hcalls))
      · rw [Snapshot.isDown_set, if_neg fun h => hne h.1]
        exact hlevel

/-- Whatever the writers do, each line comes to the same. -/
theorem Due.reaches (h : s.Due line level) (hline : line < 16) (hapart : Apart s.writers)
    (hreach : s.Reaches t) : t.Due line level := by
  induction hreach using Relation.ReflTransGen.head_induction_on with
  | refl => exact h
  | head hstep _ ih => exact ih (h.step hline hapart hstep) (hapart.step hstep)

end Step

/-! ## The end -/

def callsLeft (s : SharedBank) : Nat := s.writers.flatten.length

theorem Step.callsLeft (h : s.Step t) : s.callsLeft = t.callsLeft + 1 := by
  cases h
  simp only [SharedBank.callsLeft, List.flatten_append, List.flatten_cons, List.length_append,
    List.length_cons]
  omega

theorem exists_step (h : ¬ s.Done) : ∃ t, s.Step t := by
  obtain ⟨bank, writers⟩ := s
  obtain ⟨calls, hmore⟩ := not_forall.mp h
  obtain ⟨hcalls, hne⟩ := Classical.not_imp.mp hmore
  obtain ⟨⟨line, pressed⟩, rest, rfl⟩ := List.exists_cons_of_ne_nil hne
  obtain ⟨front, back, rfl⟩ := List.append_of_mem hcalls
  exact ⟨_, .call bank front back line pressed rest⟩

theorem exists_done (s : SharedBank) : ∃ t, s.Reaches t ∧ t.Done := by
  by_cases hdone : s.Done
  · exact ⟨s, .refl, hdone⟩
  · obtain ⟨t, hstep⟩ := exists_step hdone
    have hfewer := hstep.callsLeft
    obtain ⟨u, hreach, hu⟩ := exists_done t
    exact ⟨u, .head hstep hreach, hu⟩
termination_by s.callsLeft

/-- **No call is lost.** Writers that write to a bank at once, each on lines of its own, can always
go on until all their calls are made, and whatever the order of the calls, one and the same bank is
left. There each line has the level of its writer's last call for it, or else the level that it had.
-/
theorem writers_lose_no_call (bank : Snapshot) (writers : List (List (Nat × Bool)))
    (hapart : Apart writers) :
    let start : SharedBank := ⟨bank, writers⟩
    ∃ final : Snapshot,
      (∀ s, start.Reaches s → ∃ t, s.Reaches t ∧ t.Done) ∧
      (∀ t, start.Reaches t → t.Done → t.bank = final) ∧
      (∀ calls ∈ writers, ∀ line level, line < 16 → LastFor calls line level →
        final.isDown line = level) ∧
      (∀ line, (∀ calls ∈ writers, line ∉ calls.map (·.1)) →
        final.isDown line = bank.isDown line) ∧
      ∀ line, 16 ≤ line → final.isDown line = false := by
  intro start
  obtain ⟨t₀, hreach₀, hdone₀⟩ := start.exists_done
  have hends : ∀ {t : SharedBank} {line : Nat} {level : Bool}, start.Reaches t → t.Done →
      line < 16 → start.Due line level → t.bank.isDown line = level :=
    fun hreach hdone hline hdue => (hdue.reaches hline hapart hreach).of_done hdone
  have hbeyond : ∀ (s : Snapshot) (line : Nat), 16 ≤ line → s.isDown line = false :=
    fun s _ hle => s.isDown_of_le hle
  refine ⟨t₀.bank, fun s _ => s.exists_done, fun t hreach hdone => ?_, ?_, ?_, hbeyond _⟩
  · refine Snapshot.ext_isDown fun line => ?_
    rcases Nat.lt_or_ge line 16 with hline | hge
    · obtain ⟨level, hdue⟩ := start.exists_due line
      rw [hends hreach hdone hline hdue, hends hreach₀ hdone₀ hline hdue]
    · rw [hbeyond _ line hge, hbeyond _ line hge]
  · intro calls hcalls line level hline hlast
    exact hends hreach₀ hdone₀ hline (.inl ⟨calls, hcalls, hlast⟩)
  · intro line hnone
    rcases Nat.lt_or_ge line 16 with hline | hge
    · exact hends hreach₀ hdone₀ hline (.inr ⟨hnone, rfl⟩)
    · rw [hbeyond _ line hge, hbeyond _ line hge]

/-- One writer releases a line that was down, another one presses a line and calls for a line that
there is not, and a third line is left alone. -/
theorem writers_lose_no_call_specimen :
    let bank := (Snapshot.empty.set 3 true).set 7 true
    let writers : List (List (Nat × Bool)) := [[(3, false)], [(5, false), (20, true), (5, true)]]
    Apart writers ∧ ∃ final : Snapshot,
      (∃ t, Reaches ⟨bank, writers⟩ t ∧ t.Done ∧ t.bank = final) ∧
      final.isDown 3 = false ∧ final.isDown 5 = true ∧ final.isDown 7 = true ∧
      final.isDown 20 = false := by
  intro bank writers
  have hapart : Apart writers := by decide
  obtain ⟨final, hend, hsame, hlast, hkept, hbeyond⟩ := writers_lose_no_call bank writers hapart
  obtain ⟨t, hreach, hdone⟩ := hend _ .refl
  refine ⟨hapart, final, ⟨t, hreach, hdone, hsame t hreach hdone⟩, ?_, ?_, ?_, ?_⟩
  · exact hlast _ (.head _) 3 false (by decide) ⟨[], [], rfl, by decide⟩
  · exact hlast _ (.tail _ (.head _)) 5 true (by decide)
      ⟨[(5, false), (20, true)], [], rfl, by decide⟩
  · exact (hkept 7 (by decide)).trans (by decide)
  · exact hbeyond 20 (by decide)

end SharedBank

end ButtonPad
