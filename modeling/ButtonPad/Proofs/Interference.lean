import ButtonPad.Proofs.Schedule

/-! # What a pad does not look at

A pad looks at the selected application and the lines when it polls, and at the session when a step
begins; in between it looks at nothing. Two runs whose surroundings agree at these moments show the
same. -/
namespace ButtonPad

/-- The surroundings agree on what a pad looks at when it shows this. -/
def Sight.Agrees (outlook outlook' : Nat → Surroundings) (time : Nat) : Sight → Prop
  | .poll _ => (outlook time).selected = (outlook' time).selected ∧
      (outlook time).bank = (outlook' time).bank
  | .step => (outlook time).link.handle = (outlook' time).link.handle
  | _ => True

instance (outlook outlook' : Nat → Surroundings) (time : Nat) :
    (sight : Sight) → Decidable (sight.Agrees outlook outlook' time)
  | .poll _ => inferInstanceAs (Decidable (_ ∧ _))
  | .step => inferInstanceAs (Decidable (_ = _))
  | .report _ | .summary _ => inferInstanceAs (Decidable True)

/-- The surroundings agree whenever a pad that shows these sights looks at them. -/
def Sight.Agree (outlook outlook' : Nat → Surroundings) (sights : List (Nat × Sight)) : Prop :=
  ∀ x ∈ sights, x.2.Agrees outlook outlook' x.1

instance (outlook outlook' : Nat → Surroundings) (sights : List (Nat × Sight)) :
    Decidable (Sight.Agree outlook outlook' sights) :=
  inferInstanceAs (Decidable (∀ x ∈ sights, x.2.Agrees outlook outlook' x.1))

namespace Performance

def Same (last : Nat) (p p' : Performance) : Prop :=
  p' = p ∨ last < p.ends ∧ last < p'.ends ∧
    p'.sights.filter (·.1 ≤ last) = p.sights.filter (·.1 ≤ last)

theorem Same.behind {last : Nat} {p p' : Performance} (h : Same last p p') (x : Passage) :
    Same last (p.behind x) (p'.behind x) := by
  rcases h with rfl | ⟨hends, hends', hsights⟩
  · exact .inl rfl
  · refine .inr ⟨hends, hends', ?_⟩
    rw [sights_behind, sights_behind, List.filter_append, List.filter_append, hsights]

theorem Same.leavingOut {last : Nat} {p p' : Performance} (h : Same last p p') :
    Same last p.leavingOut p'.leavingOut := by
  rcases h with rfl | ⟨hends, hends', hsights⟩
  · exact .inl rfl
  · exact .inr ⟨hends, hends', hsights⟩

/-- Performances that only begin behind `last` are the same up to it. -/
theorem From.same {p p' : Performance} {now last : Nat} (h : p.From now) (h' : p'.From now)
    (hlast : last < now) : Same last p p' := by
  refine .inr ⟨Nat.lt_of_lt_of_le hlast h.ends, Nat.lt_of_lt_of_le hlast h'.ends, ?_⟩
  rw [filter_late h.sights hlast, filter_late h'.sights hlast]

end Performance

namespace Setup
variable {A : Type} (s : Setup A)

theorem started?_congr {around around' : Surroundings} (happ : around.selected = around'.selected)
    (hbank : around.bank = around'.bank) : s.started? around = s.started? around' := by
  simp only [started?, happ, hbank]

variable [Behaviour A]

/-- A script looks at the session when a step begins, and never else. -/
theorem performSteps_same {session session' : Nat → Handle} {last : Nat} (app : AppId) (row : Row)
    (calls lastSlot now : Nat) (skip : Bool) (steps : List (Nat × Step))
    (h : ∀ time ≤ last,
      (time, .step) ∈ (s.performSteps session app row calls lastSlot now skip steps).sights →
      session time = session' time) :
    Performance.Same last (s.performSteps session app row calls lastSlot now skip steps)
      (s.performSteps session' app row calls lastSlot now skip steps) := by
  induction steps generalizing calls lastSlot now skip with
  | nil => exact .inl rfl
  | cons entry rest ih =>
    obtain ⟨slot, step⟩ := entry
    rcases Nat.lt_or_ge last now with hlate | hle
    · exact (s.performSteps_from session ..).same (s.performSteps_from session' ..) hlate
    rw [performSteps] at h ⊢
    rw [performSteps]
    by_cases hfinish : step = .finish
    · rw [if_pos hfinish, if_pos hfinish]
      exact .inl rfl
    rw [if_neg hfinish] at h
    rw [if_neg hfinish, if_neg hfinish]
    cases skip with
    | true => exact (ih _ _ _ false h).leavingOut
    | false =>
      rw [if_neg Bool.false_ne_true] at h
      have hsession : session now = session' now := h now hle List.mem_cons_self
      rw [if_neg Bool.false_ne_true, if_neg Bool.false_ne_true, ← hsession]
      refine Performance.Same.behind ?_ _
      dsimp only at h
      generalize ((s.stage app row (session now)).feat calls slot now step).outcome = outcome at h ⊢
      cases outcome with
      | ok => exact ih _ _ _ false fun time ht hx => h time ht (List.mem_append_right _ hx)
      | skipNext => exact ih _ _ _ true fun time ht hx => h time ht (List.mem_append_right _ hx)
      | fail => exact .inl rfl
      | endScript => exact .inl rfl

theorem timetable_same {outlook outlook' : Nat → Surroundings} {last : Nat} (polls calls time : Nat)
    (h : Sight.Agree outlook outlook'
      ((s.timetable outlook polls calls time).filter (·.1 ≤ last))) :
    (s.timetable outlook' polls calls time).filter (·.1 ≤ last) =
      (s.timetable outlook polls calls time).filter (·.1 ≤ last) := by
  induction polls generalizing calls time with
  | zero => rfl
  | succ polls ih =>
    rcases Nat.lt_or_ge last time with hlate | hle
    · rw [s.timetable_late _ _ _ hlate, s.timetable_late _ _ _ hlate]
    rw [timetable, List.filter_cons_of_pos (by simpa using hle)] at h
    rw [timetable, timetable, List.filter_cons_of_pos (by simpa using hle),
      List.filter_cons_of_pos (by simpa using hle)]
    obtain ⟨hselected, hbank⟩ := h (time, .poll (outlook time).selected) List.mem_cons_self
    rw [← s.started?_congr hselected hbank, ← hselected]
    refine congrArg ((time, Sight.poll (outlook time).selected) :: ·) ?_
    have hrest := fun x hx => h x (List.mem_cons_of_mem _ hx)
    cases hstarted : s.started? (outlook time) with
    | none =>
      rw [hstarted] at hrest
      exact ih _ _ hrest
    | some found =>
      obtain ⟨cmd, row⟩ := found
      rw [hstarted] at hrest
      dsimp only at hrest ⊢
      have hsame : Performance.Same last
          (s.performance (fun time => (outlook time).link.handle) (outlook time).selected row calls
            time)
          (s.performance (fun time => (outlook' time).link.handle) (outlook time).selected row calls
            time) := by
        refine s.performSteps_same _ row calls 0 time false row.steps fun start hdue hx => ?_
        exact hrest (start, .step)
          (List.mem_filter.mpr ⟨List.mem_append_left _ hx, decide_eq_true hdue⟩)
      generalize s.performance (fun time => (outlook time).link.handle) (outlook time).selected row
        calls time = p at hsame hrest ⊢
      generalize s.performance (fun time => (outlook' time).link.handle) (outlook time).selected row
        calls time = p' at hsame ⊢
      -- both play the same script to its end, or neither comes to the end by then
      rcases hsame with rfl | ⟨hends, hends', hsights⟩
      · have htail : Sight.Agree outlook outlook' (List.filter (·.1 ≤ last)
            (s.timetable outlook polls (calls + p'.calls)
              (p'.ends + s.timing.settle.toNat + s.timing.pollEvery.toNat))) := by
          intro x hx
          obtain ⟨hmem, hdue⟩ := List.mem_filter.mp hx
          exact hrest x (List.mem_filter.mpr
            ⟨List.mem_append_right _ (List.mem_cons_of_mem _ hmem), hdue⟩)
        rw [List.filter_append, List.filter_append, List.filter_cons, List.filter_cons,
          ih _ _ htail]
      · have hlater : ∀ ends : Nat, last < ends → last < ends + s.timing.settle.toNat :=
          fun ends h => Nat.lt_of_lt_of_le h (Nat.le_add_right _ _)
        rw [s.timetable_overdue _ _ _ _ _ (hlater _ hends) (Nat.le_add_right _ _),
          s.timetable_overdue _ _ _ _ _ (hlater _ hends') (Nat.le_add_right _ _), hsights]

end Setup

/-- **A pad does not look at what happens in between.** If the surroundings of two runs of an
accepted pad agree on the selected application and the lines whenever the first run polls, and on
the session whenever a step begins in it, then both runs show the same reports, polls, steps and
summaries, each at the same time. -/
theorem agreeing_runs_show_the_same {σ σ' A : Type} [Behaviour A] {capacity : Nat}
    {qs : List Catalog.Registration} {r : Repertoire A} {buttons : List (AppId × ButtonMap)}
    {t : Timing} {s : Setup A} (h : Setup.assemble (.after capacity qs) r buttons t = .ok s)
    (transport : Transport σ) (transport' : Transport σ') (w : World σ) (w' : World σ')
    (hnow : w'.now = w.now) (hcalls : w'.calls = w.calls) (limit : Nat) :
    let rig : Rig σ := ⟨.milliseconds, transport, .bank⟩
    let rig' : Rig σ' := ⟨.milliseconds, transport', .bank⟩
    (Sight.Agree w.outlook w'.outlook ((rig.forever s limit w).sightsFrom w.journal.size) →
        (rig'.forever s limit w').sightsFrom w'.journal.size =
          (rig.forever s limit w).sightsFrom w.journal.size) ∧
      (Sight.Agree w.outlook w'.outlook ((rig.boot s limit w).sightsFrom w.journal.size) →
        (rig'.boot s limit w').sightsFrom w'.journal.size =
          (rig.boot s limit w).sightsFrom w.journal.size) := by
  intro rig rig'
  have hs := Setup.playable_of_assemble h
  have hturns : limit < limit + 1 := Nat.lt_succ_self limit
  refine ⟨fun hagree => ?_, fun hagree => ?_⟩
  · rw [Rig.forever_keeps hs transport w hturns] at hagree ⊢
    rw [Rig.forever_keeps hs transport' w' hturns, hnow, hcalls]
    exact s.timetable_same _ _ _ hagree
  · rw [Rig.boot_keeps hs transport w hturns] at hagree ⊢
    rw [Rig.boot_keeps hs transport' w' hturns, hnow, hcalls]
    exact s.timetable_same _ _ _ hagree

/-- A pad with much going on around it while its script is played and settles. All of it is undone
before the pad looks again. -/
def Specimen.busyWorld : World Unit :=
  { world with
    upcoming := [(700, .connect 2), (1100, .connect 9), (1200, .level 0 false), (1300, .select 3),
      (1400, .connect 2), (1600, .connect 7), (1650, .level 3 true), (1700, .disconnect),
      (2000, .connect 2), (2700, .select 0), (2710, .level 3 false), (2715, .level 0 true)] }

theorem agreeing_runs_show_the_same_specimen :
    Specimen.busyWorld.now = Specimen.world.now ∧
      Specimen.busyWorld.calls = Specimen.world.calls ∧
      Sight.Agree Specimen.world.outlook Specimen.busyWorld.outlook
        ((Specimen.rig.boot Specimen.setup 2720 Specimen.world).sightsFrom 0) ∧
      (Specimen.rig.boot Specimen.setup 2720 Specimen.busyWorld).sightsFrom 0 =
        (Specimen.rig.boot Specimen.setup 2720 Specimen.world).sightsFrom 0 := by
  have hagree : Sight.Agree Specimen.world.outlook Specimen.busyWorld.outlook
      ((Specimen.rig.boot Specimen.setup 2720 Specimen.world).sightsFrom 0) := by
    decide +kernel
  exact ⟨rfl, rfl, hagree, (agreeing_runs_show_the_same Specimen.assemble_setup .recording
    .recording Specimen.world Specimen.busyWorld rfl rfl 2720).2 hagree⟩

end ButtonPad
