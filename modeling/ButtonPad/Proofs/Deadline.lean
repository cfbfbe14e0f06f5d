import ButtonPad.Proofs.TimedRun

/-! # Special actions and their deadline

A shipped action that is over within the limit is left alone, also when it ends at the deadline
itself. One that takes longer is cut off there, the reports due at the deadline included; then
everything is released, and the script has failed. -/
namespace ButtonPad

/-- How a script goes on behind a special action with this outcome. -/
def Player.follow {A : Type} [Behaviour A] (s : Setup A) (app : AppId) (row : Row)
    (rest : List Decoder.Item) (p : Progress) : Outcome → Flow (Progress × Ending)
  | .ok => playItems s app row rest false p
  | .skipNext => playItems s app row rest true p
  | .fail => return (p, .actionFailed)
  | .endScript => return (p, .actionEnded)

theorem Player.heed_ofOutcome {A : Type} [Behaviour A] (s : Setup A) (app : AppId) (row : Row)
    (rest : List Decoder.Item) (p : Progress) (outcome : Outcome) :
    heed s app row rest p (.ofOutcome outcome) = follow s app row rest p outcome := by
  cases outcome <;> rfl

/-- If a run goes on until the pause behind its next step is over, it sends the reports of the step
until then, and follows the outcome. -/
theorem Player.playItems_lasting {σ A : Type} [Behaviour A] {s : Setup A}
    (transport : Transport σ) (source : Source) {w : World σ} {app : AppId} {row : Row}
    {cursor : Nat} {step : Step} (hfinish : step ≠ .finish)
    (hslot : ∀ index, step = .special index → s.repertoire.slot? app index ≠ none)
    (rest : List Decoder.Item) (p : Progress) {feat : Feat}
    (hfeat : (s.stage app row w.surroundings.link.handle).feat w.calls cursor w.now step = feat)
    (hl : w.LastsTo (feat.ends + s.timing.gap.toNat)) :
    ∃ w' : World σ, w'.now = feat.ends + s.timing.gap.toNat ∧
      w'.reportsFrom w.journal.size = feat.reports ∧
      (playItems s app row (.ok (cursor, step) :: rest) false p).run
          ⟨.milliseconds, transport, source⟩ w =
        (follow s app row rest { p with steps := p.steps + 1, lastSlot := cursor + step.width - 1 }
          feat.outcome).run ⟨.milliseconds, transport, source⟩ w' := by
  have hshows : (execute s app row cursor step).Shows transport source
      { w with bound := .none } (.ofOutcome feat.outcome) _ _ _ :=
    execute_shows hfinish hslot _ hfeat
  obtain ⟨w', hexec, hp⟩ := hshows.lasting hl
  refine ⟨w', hp.now, ?_, ?_⟩
  · rw [hp.reportsFrom]
    show Sight.reports (Sight.sent feat.reports) = _
    rw [Sight.reports_sent]
  · rw [playItems_execute hfinish, Flow.run_bind_some hexec, heed_ofOutcome]

/-- Events that nothing times take the sum of their pauses, and their reports are stamped so. -/
theorem Rig.perform_alone {σ : Type} (transport : Transport σ) (source : Source)
    (events : List Event) (w : World σ) :
    let alone := Rig.perform ⟨.milliseconds, transport, source⟩ events { w with bound := .none }
    alone.now = w.now + Event.total events ∧
      alone.reportsFrom w.journal.size = Event.stampFrom w.now events := by
  have hshows : (Flow.perform events).Shows transport source { w with bound := .none } _ _ _ _ :=
    Flow.shows_perform _ events
  obtain ⟨w', hrun, h⟩ := hshows rfl
  have halone : Rig.perform ⟨.milliseconds, transport, source⟩ events { w with bound := .none } =
      w' := by
    rw [Rig.perform, hrun]
  have hreports := h.reportsFrom
  rw [Sight.reports_sent] at hreports
  rw [halone]
  exact ⟨h.now, hreports⟩

/-- A shipped action comes to an end, whatever its arguments are. -/
theorem Builtin.ending_act (b : Builtin) (t : Timing) (handle : Handle) (arg1 arg2 : List UInt8) :
    ∃ outcome, (b.act t handle arg1 arg2).ending = some outcome := by
  have htyping : ∀ text, ∃ outcome, (Typing.act t handle text).ending = some outcome := by
    intro text
    unfold Typing.act
    split
    · exact ⟨.fail, rfl⟩
    · exact ⟨.ok, rfl⟩
  cases b with
  | credentials =>
    obtain ⟨first, hfirst⟩ := htyping arg1
    obtain ⟨second, hsecond⟩ := htyping arg2
    cases first with
    | fail => exact ⟨.fail, by simp only [act, Act.andThen, hfirst]⟩
    | _ => exact ⟨second, by simp only [act, Act.andThen, hfirst, hsecond]⟩
  | shortcut =>
    by_cases hvalid : validShortcut arg2
    · exact ⟨.ok, by rw [act, if_pos hvalid]⟩
    · exact ⟨.fail, by rw [act, if_neg hvalid]⟩

/-- A shortcut of one key takes as long as the key is pressed and released. -/
theorem Builtin.total_shortcut_single {key : UInt8} (h : validShortcut [key]) (t : Timing)
    (handle : Handle) (arg1 : List UInt8) :
    Event.total (act t handle arg1 [key] .shortcut).events = 2 * t.keyHold.toNat := by
  rw [act, if_pos h]
  show 0 + (t.keyHold.toNat + (0 + (t.keyHold.toNat + 0))) = _
  omega

/-- **The deadline of a shipped action.** If an action that acts as a shipped one is over within the
limit when it is alone, it sends what it sends alone, nothing is released, and its own outcome
decides how the script goes on. If not, what it alone would send up to the deadline is sent, then
all keys and buttons of the same session are released, and the script ends as failed. A shortcut of
one key is always over within the limit. -/
theorem special_keeps_deadline {σ A : Type} [Behaviour A] {capacity : Nat}
    {qs : List Catalog.Registration} {r : Repertoire A} {buttons : List (AppId × ButtonMap)}
    {t : Timing} {s : Setup A} (h : Setup.assemble (.after capacity qs) r buttons t = .ok s)
    {app : AppId} {index : UInt8} {slot : Slot A} (hslot : s.repertoire.slot? app index = some slot)
    {b : Builtin} (hb : ∀ call calls, Behaviour.act slot.action call t calls =
      Behaviour.act b call t calls)
    (transport : Transport σ) (source : Source) (w : World σ) (row : Row) (cursor : Nat)
    (rest : List Decoder.Item) (p : Player.Progress) :
    let rig : Rig σ := ⟨.milliseconds, transport, source⟩
    let handle := w.surroundings.link.handle
    let a := b.act t handle slot.arg1 slot.arg2
    let takes := Event.total a.events
    let limit := t.actionLimit.toNat
    let alone := (rig.perform a.events { w with bound := .none }).reportsFrom w.journal.size
    let run := (Player.playItems s app row (.ok (cursor, .special index) :: rest) false p).run rig w
    let done : Player.Progress := { p with steps := p.steps + 1, lastSlot := cursor + 1 }
    (rig.perform a.events { w with bound := .none }).now = w.now + takes ∧
      (∀ x ∈ alone, x.2.handle = handle) ∧
      (takes ≤ limit → w.LastsTo (w.now + takes + t.gap.toNat) →
        ∃ outcome w', a.ending = some outcome ∧ w'.now = w.now + takes + t.gap.toNat ∧
          w'.reportsFrom w.journal.size = alone ∧
          run = (Player.follow s app row rest done outcome).run rig w') ∧
      (limit < takes → w.LastsTo (w.now + limit + t.gap.toNat) →
        ∃ w', w'.now = w.now + limit + t.gap.toNat ∧
          w'.reportsFrom w.journal.size = alone.filter (·.1 ≤ w.now + limit) ++
            [(w.now + limit, .key handle 0 0 false), (w.now + limit, .mouse handle 0 0 0)] ∧
          run = (some (done, .actionFailed), w')) ∧
      ∀ key, b = .shortcut → slot.arg2 = [key] → Builtin.validShortcut [key] → takes ≤ limit := by
  intro rig handle a takes limit alone run done
  obtain ⟨hparts, hacc⟩ := Setup.assemble_eq_ok_iff.mp h
  obtain rfl : s.timing = t := by rw [hparts]
  obtain ⟨hnow, halone⟩ := Rig.perform_alone transport source a.events w
  obtain ⟨outcome, hend⟩ := b.ending_act s.timing handle slot.arg1 slot.arg2
  have hfeat : (s.stage app row handle).feat w.calls cursor w.now (.special index) =
      a.feat s.timing.actionLimit handle w.now := by
    simp only [Stage.feat, Setup.stage, hslot, hb]
    rfl
  have hrun : ∀ {feat : Feat}, a.feat s.timing.actionLimit handle w.now = feat →
      w.LastsTo (feat.ends + s.timing.gap.toNat) →
      ∃ w', w'.now = feat.ends + s.timing.gap.toNat ∧ w'.reportsFrom w.journal.size = feat.reports ∧
        run = (Player.follow s app row rest done feat.outcome).run rig w' := fun hf hl =>
    Player.playItems_lasting transport source (by simp) (by rintro _ ⟨⟩; simp [hslot]) rest p
      (hfeat.trans hf) hl
  refine ⟨hnow, ?_, ?_, ?_, ?_⟩
  · intro x hx
    have hx' : x ∈ Event.stampFrom w.now a.events := halone ▸ hx
    exact (b.tidy_act s.timing handle slot.arg1 slot.arg2).own _ (Event.mem_of_stampFrom hx')
  · intro hle hl
    have hfeat := Act.feat_inTime hend hle handle w.now
    obtain ⟨w', hw', hreports, hresult⟩ := hrun hfeat hl
    exact ⟨outcome, w', hend, hw', hreports.trans halone.symm, hresult⟩
  · intro hlt hl
    have hfeat := Act.feat_late (.inr hlt) handle w.now
    obtain ⟨w', hw', hreports, hresult⟩ := hrun hfeat hl
    refine ⟨w', hw', ?_, hresult⟩
    show _ = List.filter _ (World.reportsFrom _ _) ++ _
    rw [hreports, halone]
    rfl
  · rintro key rfl harg hvalid
    show Event.total (Builtin.act s.timing handle slot.arg1 slot.arg2 .shortcut).events ≤ _
    rw [harg, Builtin.total_shortcut_single hvalid]
    exact (Timing.sound_of_check hacc.timing).actionLimit

/-- The specimen with as much time as its shortcut takes. -/
def Specimen.patient : Setup Action := { setup with timing := { actionLimit := 400 } }

/-- The shortcut takes 400 ms. If that is the limit, it is left alone. If the limit is 200 ms, the
release that is due then is still sent. -/
theorem special_keeps_deadline_specimen :
    (Specimen.world.LastsTo 900 ∧
      ∃ w', w'.now = 900 ∧
        w'.reportsFrom 0 = [(0, .key 1 0 4 true), (100, .key 1 0 5 true), (200, .key 1 0 4 false),
          (300, .key 1 0 5 false)] ∧
        (Player.playItems Specimen.patient 0 Specimen.row
          (.ok (4, .special 1) :: Specimen.row.items.drop 3) false {}).run Specimen.rig
          Specimen.world =
        (Player.playItems Specimen.patient 0 Specimen.row (Specimen.row.items.drop 3) false
          ⟨1, 0, 5⟩).run Specimen.rig w') ∧
    Specimen.world.LastsTo 700 ∧
      ∃ w', w'.now = 700 ∧
        w'.reportsFrom 0 = [(0, .key 1 0 4 true), (100, .key 1 0 5 true), (200, .key 1 0 4 false),
          (200, .key 1 0 0 false), (200, .mouse 1 0 0 0)] ∧
        (Player.playItems Specimen.setup 0 Specimen.row
          (.ok (4, .special 1) :: Specimen.row.items.drop 3) false {}).run Specimen.rig
          Specimen.world = (some (⟨1, 0, 5⟩, .actionFailed), w') := by
  have hslot : Specimen.setup.repertoire.slot? 0 1 = some ⟨.builtin .shortcut, [], [4, 5]⟩ := rfl
  constructor
  · have hpatient : Setup.assemble (.after 1 [Specimen.registration]) Specimen.repertoire
        Specimen.buttons { actionLimit := 400 } = .ok Specimen.patient := rfl
    obtain ⟨-, -, hin, -⟩ := special_keeps_deadline hpatient hslot (b := .shortcut)
      (fun _ _ => rfl) .recording .bank Specimen.world Specimen.row 4 (Specimen.row.items.drop 3) {}
    obtain ⟨outcome, w', hend, hnow, hreports, hrun⟩ := hin (by decide) trivial
    cases hend
    exact ⟨trivial, w', hnow, hreports.trans (by decide +kernel), hrun⟩
  · obtain ⟨-, -, -, hlate, -⟩ := special_keeps_deadline Specimen.assemble_setup hslot
      (b := .shortcut) (fun _ _ => rfl) .recording .bank Specimen.world Specimen.row 4
      (Specimen.row.items.drop 3) {}
    obtain ⟨w', hnow, hreports, hrun⟩ := hlate (by decide) trivial
    exact ⟨trivial, w', hnow, hreports.trans (by decide +kernel), hrun⟩

end ButtonPad
