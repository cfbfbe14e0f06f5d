import ButtonPad.Proofs.Schedule
import ButtonPad.Proofs.Spelling

/-! # How long a command can take

A step is paid for by the slots it takes: none needs longer for a slot than a click or the longest
special action (`Stage.feat_ends_le`), and the accepted timing is what makes that so for keys. The
decoded steps of a row fit into its slots (`Row.total_steps_le`), so the row bounds its performance
whatever the special actions do. -/
namespace ButtonPad

/-! ## The price of a step -/

/-- The longest that a step can take for each of its slots. -/
def Timing.perSlot (t : Timing) : Nat := max t.clickHold.toNat t.actionLimit.toNat

theorem Timing.clickHold_le_perSlot (t : Timing) : t.clickHold.toNat ≤ t.perSlot :=
  Nat.le_max_left _ _

theorem Timing.actionLimit_le_perSlot (t : Timing) : t.actionLimit.toNat ≤ t.perSlot :=
  Nat.le_max_right _ _

theorem Timing.Sound.keyHold_le_perSlot {t : Timing} (h : t.Sound) :
    2 * t.keyHold.toNat ≤ t.perSlot :=
  Nat.le_trans h.actionLimit t.actionLimit_le_perSlot

theorem Act.feat_ends_le (a : Act) (limit : UInt32) (handle : Handle) (now : Nat) :
    (a.feat limit handle now).ends ≤ now + limit.toNat := by
  rcases a.inTime_or_late limit with ⟨outcome, hend, hle⟩ | hlate
  · rw [feat_inTime hend hle]
    exact Nat.add_le_add_left hle now
  · rw [feat_late hlate]
    exact Nat.le_refl _

namespace Stage
variable (stage : Stage)

theorem total_strokes (pressed : Bool) (keys : List Usage) :
    Event.total (keys.flatMap (stage.stroke pressed)) =
      keys.length * stage.timing.keyHold.toNat := by
  induction keys with
  | nil => exact (Nat.zero_mul _).symm
  | cons key rest ih =>
    have hone : Event.total (stage.stroke pressed key) = stage.timing.keyHold.toNat :=
      Nat.zero_add _
    rw [List.flatMap_cons, Event.total_append, ih, hone, List.length_cons, Nat.succ_mul,
      Nat.add_comm]

theorem total_keys_le (h : stage.timing.Sound) (keys : List Usage) :
    Event.total (keys.flatMap (stage.stroke true) ++ keys.flatMap (stage.stroke false)) ≤
      keys.length * stage.timing.perSlot := by
  calc Event.total (keys.flatMap (stage.stroke true) ++ keys.flatMap (stage.stroke false))
      = keys.length * (2 * stage.timing.keyHold.toNat) := by
        rw [Event.total_append, total_strokes, total_strokes, Nat.two_mul, Nat.mul_add]
    _ ≤ keys.length * stage.timing.perSlot := Nat.mul_le_mul_left _ h.keyHold_le_perSlot

theorem feat_ends_le (h : stage.timing.Sound) (calls slot now : Nat) (step : Step) :
    (stage.feat calls slot now step).ends ≤ now + step.width * stage.timing.perSlot := by
  cases step with
  | finish => exact Nat.le_add_right _ _
  | key usage =>
    have hkeys := stage.total_keys_le h [usage]
    exact Nat.add_le_add_left hkeys now
  | combo keys =>
    have hkeys := stage.total_keys_le h keys
    have hmark := Nat.mul_le_mul_right stage.timing.perSlot (Nat.le_succ keys.length)
    exact Nat.add_le_add_left (Nat.le_trans hkeys hmark) now
  | click button =>
    show now + (0 + (stage.timing.clickHold.toNat + (0 + 0))) ≤ now + 1 * stage.timing.perSlot
    have hclick := stage.timing.clickHold_le_perSlot
    omega
  | special index =>
    have hends := (stage.act slot index calls).feat_ends_le stage.timing.actionLimit stage.handle now
    have hlimit := stage.timing.actionLimit_le_perSlot
    show (Act.feat _ _ _ _).ends ≤ now + 2 * stage.timing.perSlot
    omega

end Stage

/-! ## The slots of a row -/

namespace Row

theorem Decodes.total_le {row : Row} {slot : Nat} {items : List Decoder.Item}
    (h : Decodes row slot items) (hslot : slot ≤ row.length) :
    slot + Step.total ((items.filterMap Except.toOption).map (·.2)) ≤ row.length := by
  induction h with
  | ranOut => exact hslot
  | fault => exact hslot
  | finish hc hs => exact width_le_of_stepAt hc hs
  | step hc hs _ _ ih =>
    have hrest := ih (width_le_of_stepAt hc hs)
    rw [Nat.add_assoc] at hrest
    exact hrest

theorem total_steps_le (row : Row) : Step.total (row.steps.map (·.2)) ≤ row.budget := by
  cases row with
  | nil => exact Nat.le_refl _
  | cons id codes =>
    have htotal := (decodes_items (id :: codes)).total_le (Nat.succ_pos _)
    show _ ≤ codes.length + 1 - 1
    rw [List.length_cons] at htotal
    unfold steps
    omega

end Row

/-! ## The price of a script -/

namespace Setup
variable {A : Type} [Behaviour A]

/-- Steps are over within the time of their slots, each with a pause behind it. -/
theorem performSteps_ends_le {s : Setup A} (h : s.timing.Sound) (session : Nat → Handle)
    (app : AppId) (row : Row) (calls lastSlot now : Nat) (skip : Bool)
    (steps : List (Nat × Step)) :
    (s.performSteps session app row calls lastSlot now skip steps).ends ≤
      now + Step.total (steps.map (·.2)) * (s.timing.perSlot + s.timing.gap.toNat) := by
  induction steps generalizing calls lastSlot now skip with
  | nil => exact Nat.le_add_right _ _
  | cons entry rest ih =>
    obtain ⟨slot, step⟩ := entry
    have htotal : Step.total (((slot, step) :: rest).map (·.2)) =
        step.width + Step.total (rest.map (·.2)) := rfl
    rw [performSteps, htotal, Nat.add_mul]
    by_cases hfinish : step = .finish
    · rw [if_pos hfinish]
      exact Nat.le_add_right _ _
    rw [if_neg hfinish]
    cases skip with
    | true =>
      rw [if_pos rfl]
      have hrest := ih calls (slot + step.width - 1) now false
      simp only [Performance.ends_leavingOut]
      omega
    | false =>
      rw [if_neg Bool.false_ne_true, Performance.ends_behind]
      -- every step has a slot to pay for the pause behind it
      have hgap := Nat.mul_le_mul_right s.timing.gap.toNat step.width_pos
      have hfeat : ((s.stage app row (session now)).feat calls slot now step).ends ≤
          now + step.width * s.timing.perSlot :=
        (s.stage app row (session now)).feat_ends_le h calls slot now step
      rw [Nat.mul_add]
      refine Outcome.proceed_of (motive := fun p => p.ends ≤ _) (fun skip => ?_) (fun _ => ?_) _
      · refine Nat.le_trans (ih _ _ _ skip) ?_
        omega
      · show _ + s.timing.gap.toNat ≤ _
        omega

theorem performance_ends_le {s : Setup A} (h : s.timing.Sound) (session : Nat → Handle)
    (app : AppId) (row : Row) (calls now : Nat) :
    (s.performance session app row calls now).ends ≤
      now + row.budget * (s.timing.perSlot + s.timing.gap.toNat) := by
  have hends : (s.performance session app row calls now).ends ≤ _ :=
    performSteps_ends_le h session app row calls 0 now false row.steps
  have hslots := Nat.mul_le_mul_right (s.timing.perSlot + s.timing.gap.toNat) row.total_steps_le
  omega

end Setup

/-! ## Whole commands -/

theorem Player.lookup_eq_ok {A : Type} {s : Setup A} {app : AppId} {a : Application}
    (ha : s.appFor? app = some a) {cmd : UInt8} {row : Row} (hrow : a.script? cmd = some row) :
    lookup s app cmd = .ok row := by
  simp [lookup, ha, hrow]

/-- A run of a command that has the time for it shows the performance and settles. -/
theorem Rig.command_performs {σ A : Type} [Behaviour A] {s : Setup A} (hs : s.Playable)
    {app : AppId} {cmd : UInt8} {row : Row} (hlook : Player.lookup s app cmd = .ok row)
    (transport : Transport σ) (source : Source) (w : World σ) {perf : Performance}
    (hperf : s.performance w.sessionAt app row w.calls w.now = perf) {limit : Nat}
    (hlimit : perf.ends + s.timing.settle.toNat ≤ w.now + limit) :
    ∃ w', Rig.command ⟨.milliseconds, transport, source⟩ s app cmd limit w =
        (some (.ok (perf.summary app cmd)), w') ∧
      w'.now = perf.ends + s.timing.settle.toNat ∧
      w'.reportsFrom w.journal.size = Sight.reports perf.sights := by
  have hfaces : w.begun.Faces (·.link.handle) w.sessionAt :=
    { w with bound := .none }.sessionAt_faces w.now
  have hshows : (Player.command s app cmd).Shows transport source w.begun _ _ _ _ :=
    Player.command_shows hlook (hs.rows hlook) hfaces hperf
  obtain ⟨w', hrun, hpassed⟩ := Flow.Shows.lasting (w := w.startRun .milliseconds limit)
    hshows hlimit
  refine ⟨w', hrun, hpassed.now, ?_⟩
  have hreports := hpassed.reportsFrom
  rw [Sight.reports_append] at hreports
  exact hreports.trans (List.append_nil _)

/-- **No script blocks the pad.** A command of an accepted setup comes to an end in time, whatever
its special actions do, whatever the transport takes and however sessions come and go: behind it the
clock is at most as far as the slots of the application's rows allow, each with a pause, and the
pause to settle. -/
theorem command_ends_in_time {σ A : Type} [Behaviour A] {capacity : Nat}
    {qs : List Catalog.Registration} {r : Repertoire A} {buttons : List (AppId × ButtonMap)}
    {t : Timing} {s : Setup A} (h : Setup.assemble (.after capacity qs) r buttons t = .ok s)
    {app : AppId} {a : Application} (ha : s.appFor? app = some a) {cmd : UInt8} {row : Row}
    (hrow : a.script? cmd = some row) (transport : Transport σ) (source : Source) (w : World σ)
    {limit : Nat}
    (hlimit : a.budget * (max t.clickHold.toNat t.actionLimit.toNat + t.gap.toNat) +
      t.settle.toNat ≤ limit) :
    ∃ m w', Rig.command ⟨.milliseconds, transport, source⟩ s app cmd limit w =
        (some (.ok m), w') ∧
      m.app = app ∧ m.command = cmd ∧
      w'.now ≤ w.now + (a.budget * (max t.clickHold.toNat t.actionLimit.toNat + t.gap.toNat) +
        t.settle.toNat) := by
  have hplay := Setup.playable_of_assemble h
  obtain ⟨rfl, hacc⟩ := Setup.assemble_eq_ok_iff.mp h
  obtain ⟨-, hlength⟩ := hacc.playable rfl ha (List.mem_of_getElem? hrow)
  have hlook := Player.lookup_eq_ok ha hrow
  have hbudget : row.budget = a.budget := by rw [Row.budget, hlength, Nat.add_sub_cancel]
  have hends := Setup.performance_ends_le (Timing.sound_of_check hacc.timing) w.sessionAt app row
    w.calls w.now
  rw [hbudget] at hends
  have hwithin := Nat.add_le_add_right hends t.settle.toNat
  rw [Nat.add_assoc] at hwithin
  obtain ⟨w', hrun, hnow, -⟩ := Rig.command_performs hplay hlook transport source w rfl
    (Nat.le_trans hwithin (Nat.add_le_add_left hlimit _))
  exact ⟨_, w', hrun, rfl, rfl, hnow ▸ hwithin⟩

/-- A script of keys alone, and one whose action holds a key and never ends. -/
def Specimen.slow : Setup Action where
  catalog := .after 1 [⟨0, "slow", 3, [[0, 4, 5], [0, 232, 0]], by decide⟩]
  repertoire := ⟨[(0, [⟨.rehearsed [.report (.key 1 0 4 true), .pause 50] none, [], []⟩])]⟩
  buttons := []
  timing := { actionLimit := 200 }

/-- Two keys take all the time there is; an action that never ends takes less. -/
theorem command_ends_in_time_specimen :
    2 * (max 50 200 + 500) + 500 = 1900 ∧
      (∃ m w', Specimen.rig.command Specimen.slow 0 0 1900 Specimen.world = (some (.ok m), w') ∧
        m.app = 0 ∧ m.command = 0 ∧ w'.now ≤ 1900) ∧
      (Specimen.rig.command Specimen.slow 0 0 1900 Specimen.world).2.now = 1900 ∧
      ∃ m w', Specimen.rig.command Specimen.slow 0 1 1900 Specimen.world = (some (.ok m), w') ∧
        m.app = 0 ∧ m.command = 1 ∧ w'.now ≤ 1900 := by
  have hslow : Setup.assemble Specimen.slow.catalog Specimen.slow.repertoire []
      { actionLimit := 200 } = .ok Specimen.slow := rfl
  have happ : Specimen.slow.appFor? 0 = some ⟨0, "slow", 2, [[0, 4, 5], [0, 232, 0]]⟩ := rfl
  have hkeys : (⟨0, "slow", 2, [[0, 4, 5], [0, 232, 0]]⟩ : Application).script? 0 =
    some [0, 4, 5] := rfl
  have hhangs : (⟨0, "slow", 2, [[0, 4, 5], [0, 232, 0]]⟩ : Application).script? 1 =
    some [0, 232, 0] := rfl
  obtain ⟨m, w', hfirst⟩ := command_ends_in_time hslow happ hkeys .recording .bank Specimen.world
    (Nat.le_refl 1900)
  obtain ⟨m', w'', hsecond⟩ := command_ends_in_time hslow happ hhangs .recording .bank
    Specimen.world (Nat.le_refl 1900)
  exact ⟨rfl, ⟨m, w', hfirst⟩, by decide +kernel, m', w'', hsecond⟩

end ButtonPad
