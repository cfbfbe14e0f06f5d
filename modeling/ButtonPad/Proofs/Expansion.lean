import ButtonPad.Proofs.Pulses
import Mathlib.Data.List.Forall2

/-! # Pulses written out

Grouping reads the reports from the left, and each round takes some of them away (`Pulse.Scans`).
Whatever a round takes is said by its pulse (`Pulse.Takes`), but for the handle and, in a click, the
motion. So the pulses written out again (`Pulse.outlines`) fit the reports one by one. -/
namespace ButtonPad

namespace Pulse

/-! ## Outlines -/

/-- What a pulse keeps of a report. -/
inductive Outline where
  | stroke (modifiers : Modifiers) (usage : Usage) (pressed : Bool)
  | buttons (mask : UInt8)
  | whole (report : Report)
  deriving DecidableEq, Repr

/-- The report has this outline. A stroke may be sent to any session, and buttons may move the
pointer besides. -/
inductive Outline.Fits : Outline → Report → Prop where
  | stroke (handle : Handle) {modifiers : Modifiers} {usage : Usage} {pressed : Bool} :
      Fits (.stroke modifiers usage pressed) (.key handle modifiers usage pressed)
  | buttons (handle : Handle) {mask : UInt8} (dx dy : Int8) :
      Fits (.buttons mask) (.mouse handle mask dx dy)
  | whole (report : Report) : Fits (.whole report) report

/-- The pulse written out: a tap is pressed and released, the keys of a chord are pressed and then
released in the same order, and a click has buttons down and then all up. -/
def outlines : Pulse → List Outline
  | .tap modifiers usage => [.stroke modifiers usage true, .stroke modifiers usage false]
  | .chord modifiers keys =>
    keys.map (.stroke modifiers · true) ++ keys.map (.stroke modifiers · false)
  | .click mask => [.buttons mask, .buttons 0]
  | .raw report => [.whole report]

/-- A chord has at least two keys, and a click some button. -/
def Proper : Pulse → Prop
  | .chord _ keys => 2 ≤ keys.length
  | .click mask => mask ≠ 0
  | .tap .. | .raw _ => True

/-! ## One round -/

/-- The pulse takes so many reports from the front, and says all that they say. -/
structure Takes (pulse : Pulse) (used : Nat) (reports : List Report) : Prop where
  pos : 0 < used
  within : used ≤ reports.length
  fits : List.Forall₂ Outline.Fits pulse.outlines (reports.take used)
  proper : pulse.Proper

theorem takes_raw (r : Report) (rest : List Report) : (raw r).Takes 1 (r :: rest) where
  pos := Nat.one_pos
  within := Nat.succ_le_succ (Nat.zero_le _)
  fits := .cons (.whole r) .nil
  proper := trivial

theorem takes_click {reports : List Report} {pulse : Pulse} {used : Nat}
    (h : click? reports = some (pulse, used)) : pulse.Takes used reports := by
  unfold click? at h
  split at h
  next handle mask dx dy handle' after dx' dy' rest =>
    obtain ⟨⟨hdown, rfl⟩, rfl, rfl⟩ : (mask ≠ 0 ∧ after = 0) ∧ .click mask = pulse ∧ 2 = used := by
      simpa using h
    exact ⟨Nat.two_pos, by simp, .cons (.buttons ..) (.cons (.buttons ..) .nil), hdown⟩
  · cases h

theorem length_leading_le {α β : Type} (f : α → Option β) (as : List α) :
    (leading f as).length ≤ as.length := by
  induction as with
  | nil => exact Nat.le_refl _
  | cons a rest ih =>
    cases h : f a with
    | none => simp [leading, h]
    | some b => simpa [leading, h] using ih

theorem fits_leading {pressed : Bool} {reports : List Report} {strokes : List (Modifiers × Usage)}
    (h : leading (key? pressed) reports = strokes) :
    List.Forall₂ Outline.Fits (strokes.map fun s => .stroke s.1 s.2 pressed)
      (reports.take strokes.length) := by
  subst h
  induction reports with
  | nil => exact .nil
  | cons r rest ih =>
    cases h : key? pressed r with
    | none =>
      simp only [leading, h]
      exact .nil
    | some stroke =>
      have hfirst : Outline.Fits (.stroke stroke.1 stroke.2 pressed) r := by
        cases r with
        | mouse => cases h
        | key handle modifiers usage p =>
          obtain ⟨rfl, rfl⟩ : p = pressed ∧ (modifiers, usage) = stroke := by simpa [key?] using h
          exact .stroke handle
      simp only [leading, h]
      exact .cons hfirst ih

/-- As many releases as presses of the same keys are so many strokes in all. -/
theorem fits_pressed_released {reports : List Report} {strokes : List (Modifiers × Usage)}
    (hpresses : leading (key? true) reports = strokes)
    (hreleases :
      leading (key? false) ((reports.drop strokes.length).take strokes.length) = strokes) :
    strokes.length * 2 ≤ reports.length ∧
      List.Forall₂ Outline.Fits
        (strokes.map (fun s => .stroke s.1 s.2 true) ++
          strokes.map (fun s => .stroke s.1 s.2 false))
        (reports.take (strokes.length * 2)) := by
  have hdown := fits_leading hpresses
  have hup := fits_leading hreleases
  have hroom := length_leading_le (key? false)
    ((reports.drop strokes.length).take strokes.length)
  rw [hreleases, List.length_take, List.length_drop] at hroom
  rw [List.take_take, Nat.min_self] at hup
  refine ⟨by omega, ?_⟩
  rw [Nat.mul_two, List.take_add]
  exact List.rel_append hdown hup

/-- A match of keys takes as many releases as presses, of the same keys in the same order, all under
the same modifiers. -/
theorem takes_keys {reports : List Report} {pulse : Pulse} {used : Nat}
    (h : keys? reports = some (pulse, used)) : pulse.Takes used reports := by
  unfold keys? at h
  split at h
  · cases h
  next modifiers usage more hpresses =>
    simp only [Option.ite_none_left_eq_some, ne_eq, Decidable.not_not] at h
    obtain ⟨hreleases, hmodifiers, h⟩ := h
    obtain ⟨hroom, hfits⟩ := fits_pressed_released hpresses hreleases
    have hshared : ∀ s ∈ (modifiers, usage) :: more, s.1 = modifiers := by simpa using hmodifiers
    split at h
    next hone =>
      obtain rfl := List.isEmpty_iff.mp hone
      cases h
      exact ⟨Nat.two_pos, hroom, hfits, trivial⟩
    next hmany =>
      cases h
      refine ⟨by simp, hroom, ?_, ?_⟩
      · rw [outlines, List.map_map, List.map_map]
        refine (congrArg₂ (List.Forall₂ Outline.Fits · ·) ?_ rfl).mp hfits
        refine congrArg₂ (· ++ ·) ?_ ?_ <;>
          exact List.map_congr_left fun s hs => by simp [hshared s hs]
      · cases more with
        | nil => exact absurd rfl hmany
        | cons => simp [Proper]

/-- What a round of the grouping finds at the front, and how many reports that is. -/
def round (r : Report) (rest : List Report) : Pulse × Nat :=
  ((click? (r :: rest)).or (keys? (r :: rest))).getD (.raw r, 1)

theorem takes_round (r : Report) (rest : List Report) :
    (round r rest).1.Takes (round r rest).2 (r :: rest) := by
  unfold round
  cases hclick : click? (r :: rest) with
  | some found => exact takes_click hclick
  | none =>
    cases hkeys : keys? (r :: rest) with
    | some found => exact takes_keys hkeys
    | none => exact takes_raw r rest

theorem groupFrom_cons (r : Report) (rest : List Report) :
    groupFrom 0 (r :: rest) =
      (round r rest).1 :: groupFrom 0 ((r :: rest).drop (round r rest).2) := by
  have hpos := (takes_round r rest).pos
  unfold round at hpos ⊢
  rw [groupFrom]
  cases h : (click? (r :: rest)).or (keys? (r :: rest)) with
  | none => rfl
  | some found =>
    obtain ⟨pulse, used⟩ := found
    have hused : 0 < used := by simpa [h] using hpos
    obtain ⟨used, rfl⟩ := Nat.exists_eq_add_one_of_ne_zero (Nat.ne_of_gt hused)
    exact congrArg (pulse :: ·) (groupFrom_drop used rest)

/-! ## The scan -/

/-- The scan comes to an end with these pulses: as long as there are reports, a round takes one or
more from the front, and the next round begins behind them. -/
inductive Scans : List Report → List Pulse → Prop where
  | done : Scans [] []
  | round {r : Report} {rest : List Report} {pulses : List Pulse}
      (takes : (round r rest).1.Takes (round r rest).2 (r :: rest))
      (goesOn : Scans ((r :: rest).drop (round r rest).2) pulses) :
      Scans (r :: rest) ((round r rest).1 :: pulses)

/-- Each round leaves fewer reports, so there is a last one. -/
theorem scans_groupFrom (reports : List Report) : Scans reports (groupFrom 0 reports) := by
  induction h : reports.length using Nat.strongRecOn generalizing reports with
  | ind n ih =>
    cases reports with
    | nil => exact .done
    | cons r rest =>
      have htakes := takes_round r rest
      have hfewer : ((r :: rest).drop (round r rest).2).length < n := by
        have hpos := htakes.pos
        rw [List.length_drop, h]
        rw [List.length_cons] at h
        omega
      rw [groupFrom_cons]
      exact .round htakes (ih _ hfewer _ rfl)

theorem Scans.fits {reports : List Report} {pulses : List Pulse} (h : Scans reports pulses) :
    List.Forall₂ Outline.Fits (pulses.flatMap outlines) reports := by
  induction h with
  | done => exact .nil
  | @round r rest pulses htakes _ ih =>
    rw [List.flatMap_cons, ← List.take_append_drop (Pulse.round r rest).2 (r :: rest)]
    exact List.rel_append htakes.fits ih

theorem Scans.proper {reports : List Report} {pulses : List Pulse} (h : Scans reports pulses) :
    ∀ pulse ∈ pulses, pulse.Proper := by
  induction h with
  | done => simp
  | round htakes _ ih => exact List.forall_mem_cons.mpr ⟨htakes.proper, ih⟩

theorem group_insert_pause (front back : List Event) (ms : UInt32) :
    group (front ++ .pause ms :: back) = group (front ++ back) := by
  have hpause : Event.report? (.pause ms) = none := rfl
  simp only [group, List.filterMap_append, List.filterMap_cons_none hpause]

/-- **Grouping loses nothing and makes nothing up.** Whatever the events are, the scan of their
reports comes to an end. Written out again, its pulses fit the reports one by one and in order; all
that is free is the session, and in a click the motion. Chords have at least two keys, and clicks
some button. A pause put in or taken out anywhere changes nothing. -/
theorem group_keeps_reports (events : List Event) :
    Scans (events.filterMap Event.report?) (group events) ∧
      List.Forall₂ Outline.Fits ((group events).flatMap outlines)
        (events.filterMap Event.report?) ∧
      (∀ pulse ∈ group events, pulse.Proper) ∧
      ∀ front back ms, group (front ++ .pause ms :: back) = group (front ++ back) := by
  have hscans := scans_groupFrom (events.filterMap Event.report?)
  exact ⟨hscans, hscans.fits, hscans.proper, group_insert_pause⟩

/-- Behind a chord whose keys come up in another order, only the last press has its release; buttons
that go down twice are one report and one click. -/
example :
    group [.report (.key 1 2 4 true), .report (.key 1 2 5 true), .pause 10,
        .report (.key 1 2 5 false), .report (.key 1 2 4 false), .report (.mouse 1 1 3 0),
        .report (.mouse 1 2 0 0), .pause 20, .report (.mouse 7 0 0 4)] =
      [.raw (.key 1 2 4 true), .tap 2 5, .raw (.key 1 2 4 false), .raw (.mouse 1 1 3 0),
        .click 2] := rfl

end Pulse

end ButtonPad
