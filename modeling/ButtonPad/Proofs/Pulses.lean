import ButtonPad.Proofs.Duration
import ButtonPad.Proofs.Typing
import ButtonPad.Report.Pulse

/-! # What a script means to the host

Reports are grouped from the left, and the grouping knows nothing of steps. But what a gesture sends
is grouped in one way whatever follows it (`Pulse.Groups`), since its presses are followed by as
many releases of its own. So the pulses of a script are those of its steps, one behind the other,
and no pulse reaches from one step into the next. -/
namespace ButtonPad

/-! ## Grouping -/

namespace Pulse

/-- The reports are grouped so, whatever follows them. -/
def Groups (reports : List Report) (pulses : List Pulse) : Prop :=
  ∀ rest, groupFrom 0 (reports ++ rest) = pulses ++ groupFrom 0 rest

theorem Groups.nil : Groups [] [] := fun _ => rfl

theorem Groups.append {xs ys : List Report} {ps qs : List Pulse} (hx : Groups xs ps)
    (hy : Groups ys qs) : Groups (xs ++ ys) (ps ++ qs) := by
  intro rest
  rw [List.append_assoc, hx, hy, List.append_assoc]

theorem Groups.flatMap {α : Type} {reports : α → List Report} {pulses : α → List Pulse}
    {as : List α} (h : ∀ a ∈ as, Groups (reports a) (pulses a)) :
    Groups (as.flatMap reports) (as.flatMap pulses) := by
  induction as with
  | nil => exact .nil
  | cons a rest ih =>
    exact (h a List.mem_cons_self).append (ih fun b hb => h b (List.mem_cons_of_mem _ hb))

theorem groupFrom_drop (skip : Nat) (reports : List Report) :
    groupFrom skip reports = groupFrom 0 (reports.drop skip) := by
  induction skip generalizing reports with
  | zero => rfl
  | succ n ih =>
    cases reports with
    | nil => rfl
    | cons r rest => exact ih rest

def strokes (handle : Handle) (modifiers : Modifiers) (pressed : Bool) (keys : List Usage) :
    List Report := keys.map (.key handle modifiers · pressed)

/-- A run of strokes that is not gone on with. -/
theorem leading_strokes (handle : Handle) (modifiers : Modifiers) (pressed : Bool)
    (keys : List Usage) {rest : List Report} (h : ∀ r ∈ rest.head?, key? pressed r = none) :
    leading (key? pressed) (strokes handle modifiers pressed keys ++ rest) =
      keys.map (modifiers, ·) := by
  induction keys with
  | nil =>
    cases rest with
    | nil => rfl
    | cons r rest => simp [strokes, leading, h r rfl]
  | cons usage more ih =>
    have hfirst : key? pressed (.key handle modifiers usage pressed) = some (modifiers, usage) :=
      if_pos rfl
    show leading (key? pressed) (.key handle modifiers usage pressed ::
      (strokes handle modifiers pressed more ++ rest)) = _
    rw [leading, hfirst]
    exact congrArg (_ :: ·) ih

/-- Presses and then releases of the same keys are found, whatever follows. -/
theorem keys?_eq (handle : Handle) (modifiers : Modifiers) (usage : Usage) (more : List Usage)
    (rest : List Report) :
    keys? (strokes handle modifiers true (usage :: more) ++
        (strokes handle modifiers false (usage :: more) ++ rest)) =
      some (if more.isEmpty then .tap modifiers usage else .chord modifiers (usage :: more),
        (more.length + 1) * 2) := by
  have hpresses : leading (key? true) (strokes handle modifiers true (usage :: more) ++
      (strokes handle modifiers false (usage :: more) ++ rest)) =
      (modifiers, usage) :: more.map (modifiers, ·) := by
    refine leading_strokes handle modifiers true (usage :: more) fun r hr => ?_
    obtain rfl := Option.some.inj hr
    rfl
  have hreleases : leading (key? false) (strokes handle modifiers false (usage :: more)) =
      (modifiers, usage) :: more.map (modifiers, ·) := by
    rw [← List.append_nil (strokes handle modifiers false (usage :: more))]
    exact leading_strokes handle modifiers false (usage :: more) fun r hr => by cases hr
  have hbehind : ((strokes handle modifiers true (usage :: more) ++
      (strokes handle modifiers false (usage :: more) ++ rest)).drop (more.length + 1)).take
        (more.length + 1) = strokes handle modifiers false (usage :: more) := by
    rw [List.drop_left' (by simp [strokes]), List.take_left' (by simp [strokes])]
  rw [keys?, hpresses]
  simp only [List.length_cons, List.length_map, hbehind, hreleases]
  cases more <;> simp [Function.comp_def]

theorem groupFrom_keys {reports : List Report} {pulse : Pulse} {used : Nat}
    (hclick : click? reports = none) (hkeys : keys? reports = some (pulse, used))
    (hpos : 0 < used) :
    groupFrom 0 reports = pulse :: groupFrom 0 (reports.drop used) := by
  obtain ⟨used, rfl⟩ := Nat.exists_eq_add_one_of_ne_zero (Nat.ne_of_gt hpos)
  cases reports with
  | nil => cases hkeys
  | cons r rest =>
    rw [groupFrom, hclick, hkeys, Option.none_or]
    exact congrArg (pulse :: ·) (groupFrom_drop used rest)

def ofKeys (modifiers : Modifiers) : List Usage → List Pulse
  | [] => []
  | [usage] => [.tap modifiers usage]
  | keys => [.chord modifiers keys]

theorem groups_keys (handle : Handle) (modifiers : Modifiers) (keys : List Usage) :
    Groups (strokes handle modifiers true keys ++ strokes handle modifiers false keys)
      (ofKeys modifiers keys) := by
  cases keys with
  | nil => exact .nil
  | cons usage more =>
    intro rest
    have hkeys := keys?_eq handle modifiers usage more rest
    have hused : (strokes handle modifiers true (usage :: more) ++
        strokes handle modifiers false (usage :: more)).length = (more.length + 1) * 2 := by
      simp [strokes]
      omega
    rw [List.append_assoc, groupFrom_keys rfl hkeys (by omega), ← List.append_assoc,
      List.drop_left' hused]
    cases more <;> rfl

theorem groups_click (handle : Handle) (button : Button) :
    Groups [.mouse handle button.mask 0 0, .allButtonsUp handle] [.click button.mask] := by
  intro rest
  cases button <;> rfl

theorem groups_release (handle : Handle) (modifiers : Modifiers) (usage : Usage) :
    Groups [.key handle modifiers usage false] [.raw (.key handle modifiers usage false)] :=
  fun _ => rfl

/-- The events' reports are grouped so, whatever follows them. -/
def Stands (events : List Event) (pulses : List Pulse) : Prop :=
  Groups (events.filterMap Event.report?) pulses

end Pulse

/-! ## Gestures and typing -/

namespace Pulse

theorem stands_chord (t : Timing) (handle : Handle) (modifiers : Modifiers) (keys : List Usage) :
    Stands (Gesture.chord t handle modifiers keys) (ofKeys modifiers keys) := by
  have hreports := Gesture.reports_chord t handle modifiers keys none
  unfold Act.reports at hreports
  rw [Stands, hreports]
  exact groups_keys handle modifiers keys

/-- The pulse that types an ASCII letter or digit; capitals are typed under shift. -/
def ofAscii? (c : UInt8) : Option Pulse :=
  let c := Char.ofNat c.toNat
  if c.isAlphanum then some (.tap (if c.isUpper then .leftShift else 0) (usage c)) else none
where
  /-- The key that the letter or digit stands on. -/
  usage (c : Char) : Usage :=
    if c.isAlpha then Usage.a + UInt8.ofNat (c.toLower.toNat - 'a'.toNat)
    else if c = '0' then Usage.zero
    else Usage.one + UInt8.ofNat (c.toNat - '1'.toNat)

/-- Letters and digits are what there are strokes for, and shift is held for the capitals. -/
theorem ofAscii?_eq (c : UInt8) :
    (Stroke.ofAscii? c).map (fun s => tap s.modifiers s.usage) = ofAscii? c := by
  have hall : ∀ n : Fin 256, (Stroke.ofAscii? (UInt8.ofNat n)).map
      (fun s => tap s.modifiers s.usage) = ofAscii? (UInt8.ofNat n) := by decide +kernel
  have hc := hall ⟨c.toNat, c.toNat_lt⟩
  rwa [UInt8.ofNat_toNat] at hc

def ofText (handle : Handle) (text : List UInt8) : List Pulse :=
  .raw (.key handle 0 .capsLock false) :: text.filterMap ofAscii?

theorem stands_typed (t : Timing) (handle : Handle) (text : List UInt8) :
    Stands (Typing.typed t handle text) (ofText handle text) := by
  have hstrokes : ∀ strokes : List Stroke,
      Stands (strokes.flatMap (Typing.stroke t handle))
        (strokes.map fun s => tap s.modifiers s.usage) := by
    intro strokes
    induction strokes with
    | nil => exact .nil
    | cons s rest ih =>
      rw [Stands, List.flatMap_cons, List.filterMap_append]
      exact (groups_keys handle s.modifiers [s.usage]).append ih
  have hpulses : (text.filterMap Stroke.ofAscii?).map (fun s => tap s.modifiers s.usage) =
      text.filterMap ofAscii? := by
    rw [List.map_filterMap]
    exact congrArg text.filterMap (funext ofAscii?_eq)
  have htyped := hstrokes (text.filterMap Stroke.ofAscii?)
  rw [hpulses] at htyped
  exact (groups_release handle 0 .capsLock).append htyped

end Pulse

def Builtin.pulses (handle : Handle) (arg1 arg2 : List UInt8) : Builtin → List Pulse
  | .credentials =>
    ([arg1, arg2].takeWhile fun text => text.length ≤ Typing.textLimit).flatMap
      (Pulse.ofText handle)
  | .shortcut => if validShortcut arg2 then Pulse.ofKeys (arg1.headD 0) arg2 else []

theorem Builtin.stands_act (t : Timing) (handle : Handle) (arg1 arg2 : List UInt8) (b : Builtin) :
    Pulse.Stands (b.act t handle arg1 arg2).events (b.pulses handle arg1 arg2) := by
  cases b with
  | credentials =>
    rw [events_credentials, Pulse.Stands, List.filterMap_flatMap]
    exact .flatMap fun text _ => Pulse.stands_typed t handle text
  | shortcut =>
    simp only [act, pulses]
    split
    · exact Pulse.stands_chord t handle _ arg2
    · exact .nil

/-! ## Steps -/

/-- The action acts as this shipped one; as none, it sends nothing. -/
def Behaviour.ActsAs {A : Type} [Behaviour A] (action : A) : Option Builtin → Prop
  | some b => ∀ call t calls, act action call t calls = act b call t calls
  | none => ∀ call t calls, (act action call t calls).reports = []

/-- A shipped action acts as itself, and a rehearsed one as none. -/
def Action.role : Action → Option Builtin
  | .builtin b => some b
  | .rehearsed .. => none

theorem Action.actsAs_role {action : Action}
    (h : ∀ moves ending, action = .rehearsed moves ending →
      ∀ t, ∀ m ∈ moves, (m.act t).reports = []) : Behaviour.ActsAs action action.role := by
  cases action with
  | builtin b => exact fun _ _ _ => rfl
  | rehearsed moves ending => exact Action.reports_rehearsed ending (h moves ending rfl)

/-- A special action that the step calls comes to an end. -/
def Stage.Ends (stage : Stage) : Step → Prop
  | .special index => ∀ slot calls, (stage.act slot index calls).ending ≠ none
  | _ => True

namespace Setup
variable {A : Type} (s : Setup A) (role : A → Option Builtin) (app : AppId)

/-- The pulses of a step, by the roles of the actions. -/
def pulses (handle : Handle) : Step → List Pulse
  | .finish => []
  | .key usage => [.tap 0 usage]
  | .combo keys => [.chord 0 keys]
  | .click button => [.click button.mask]
  | .special index =>
    match s.repertoire.slot? app index with
    | none => []
    | some slot =>
      match role slot.action with
      | none => []
      | some b => b.pulses handle slot.arg1 slot.arg2

variable [Behaviour A]

/-- All actions that the setup's scripts can call act as their roles say. -/
def Cast : Prop :=
  ∀ entry ∈ s.repertoire.entries, ∀ slot ∈ entry.2,
    Behaviour.ActsAs slot.action (role slot.action)

variable {s role app}

theorem Cast.stands_deed (hcast : s.Cast role) {row : Row} {handle : Handle} (calls slot : Nat)
    {step : Step} (hstep : step.Writable) (hends : (s.stage app row handle).Ends step) :
    Pulse.Stands ((s.stage app row handle).deed calls slot step).events
      (s.pulses role app handle step) := by
  cases step with
  | finish => exact hstep.elim
  | key usage => exact Pulse.stands_chord s.timing handle 0 [usage]
  | combo keys =>
    obtain ⟨hshort, -, -⟩ := hstep
    have hchord : Pulse.ofKeys 0 keys = [.chord 0 keys] := by
      match keys, hshort with
      | _ :: _ :: _, _ => rfl
    rw [pulses, ← hchord]
    exact Pulse.stands_chord s.timing handle 0 keys
  | click button => exact Pulse.groups_click handle button
  | special index =>
    cases hslot : s.repertoire.slot? app index with
    | none =>
      simp only [Stage.deed, stage, pulses, hslot]
      exact .nil
    | some found =>
      obtain ⟨entry, hentry, hfound⟩ := Repertoire.mem_of_slot? hslot
      have hact := hcast entry hentry found hfound
      let call : Invocation := ⟨app, index, row, slot, handle, found.arg1, found.arg2⟩
      obtain ⟨outcome, hend⟩ := Option.ne_none_iff_exists'.mp (hends slot calls)
      simp only [Stage.deed, Act.deed, hend, pulses, hslot]
      simp only [stage, hslot]
      cases hrole : role found.action with
      | none =>
        rw [hrole] at hact
        have hsilent : (Behaviour.act found.action call s.timing calls).reports = [] :=
          hact call s.timing calls
        exact (congrArg (Pulse.Groups · []) hsilent).mpr .nil
      | some b =>
        rw [hrole] at hact
        have hshipped : Behaviour.act found.action call s.timing calls =
            b.act s.timing handle found.arg1 found.arg2 := hact call s.timing calls
        show Pulse.Stands (Behaviour.act found.action call s.timing calls).events _
        rw [hshipped]
        exact b.stands_act s.timing handle found.arg1 found.arg2

end Setup

/-! ## Scores -/

def Part.step? : Part → Option Step
  | .played step _ => some step
  | .leftOut => none

def Score.played (score : Score) : List Step := score.parts.filterMap Part.step?

/-- Every part of a score is a step of the script that is left out, or played as the stage says. -/
theorem Stage.mem_parts {stage : Stage} {calls lastSlot : Nat} {skip : Bool}
    {steps : List (Nat × Step)} {step : Step} {deed : Deed}
    (h : .played step deed ∈ (stage.score calls lastSlot skip steps).parts) :
    ∃ slot calls, (slot, step) ∈ steps ∧ step ≠ .finish ∧ deed = stage.deed calls slot step := by
  induction steps generalizing calls lastSlot skip with
  | nil => cases h
  | cons entry rest ih =>
    obtain ⟨slot, first⟩ := entry
    -- what is found among the other steps is found among all
    have hrest : ∀ {calls lastSlot skip},
        .played step deed ∈ (stage.score calls lastSlot skip rest).parts →
        ∃ slot' calls, (slot', step) ∈ (slot, first) :: rest ∧ step ≠ .finish ∧
          deed = stage.deed calls slot' step := by
      intro calls lastSlot skip h
      obtain ⟨slot', calls', hm, hne, hdeed⟩ := ih h
      exact ⟨slot', calls', List.mem_cons_of_mem _ hm, hne, hdeed⟩
    rw [Stage.score] at h
    split at h
    · cases h
    next hne =>
    split at h
    · rcases List.mem_cons.mp h with h | h
      · cases h
      · exact hrest h
    · rcases List.mem_cons.mp h with h | h
      · cases h
        exact ⟨slot, calls, List.mem_cons_self, hne, rfl⟩
      · cases hout : (stage.deed calls slot first).outcome with
        | ok | skipNext =>
          rw [hout] at h
          exact hrest h
        | fail | endScript =>
          rw [hout] at h
          cases h

theorem Score.stands {score : Score} {pulses : Step → List Pulse} (gap : UInt32)
    (h : ∀ step deed, .played step deed ∈ score.parts → Pulse.Stands deed.events (pulses step)) :
    Pulse.Stands (score.events gap) (score.played.flatMap pulses) := by
  unfold events played
  generalize score.parts = parts at h
  induction parts with
  | nil => exact .nil
  | cons part rest ih =>
    have hrest := ih fun step deed hm => h step deed (List.mem_cons_of_mem _ hm)
    cases part with
    | leftOut => exact hrest
    | played step deed =>
      have hfirst : Pulse.Stands (deed.events ++ [.pause gap]) (pulses step) := by
        have hgap : [Event.pause gap].filterMap Event.report? = [] := rfl
        rw [Pulse.Stands, List.filterMap_append, hgap, List.append_nil]
        exact h step deed List.mem_cons_self
      rw [Pulse.Stands, List.flatMap_cons, List.filterMap_append]
      exact hfirst.append hrest

/-! ## Commands -/

theorem Step.Spelt.writable {step : Step} {codes : List Code} (h : step.Spelt codes) :
    step.Writable := by
  cases h with
  | key hplain => exact hplain
  | click | special => trivial
  | combo _ hshort hlong hplain => exact ⟨hshort, hlong, hplain⟩

theorem Row.Decodes.writable {row : Row} {start : Nat} {items : List Decoder.Item}
    (h : Decodes row start items) {slot : Nat} {step : Step} (hm : .ok (slot, step) ∈ items)
    (hne : step ≠ .finish) : step.Writable := by
  obtain ⟨codes, hspelt, -⟩ := h.spelt hm hne
  exact hspelt.writable

theorem Setup.Cast.stands_score {A : Type} [Behaviour A] {s : Setup A} {role : A → Option Builtin}
    (hcast : s.Cast role) {app : AppId} {row : Row} (hplay : row.Playable s.repertoire app)
    {handle : Handle} {calls : Nat}
    (hends : ∀ step ∈ (s.score app row handle calls).played, (s.stage app row handle).Ends step)
    (gap : UInt32) :
    Pulse.Stands ((s.score app row handle calls).events gap)
      ((s.score app row handle calls).played.flatMap (s.pulses role app handle)) := by
  refine Score.stands gap fun step deed hm => ?_
  have hstep := hends step (List.mem_filterMap.mpr ⟨_, hm, rfl⟩)
  obtain ⟨slot, calls, hentry, hne, rfl⟩ := Stage.mem_parts hm
  have hitem : .ok (slot, step) ∈ row.items := by
    rw [hplay.items_eq]
    exact List.mem_map_of_mem hentry
  exact hcast.stands_deed calls slot (row.decodes_items.writable hitem hne) hstep

/-- **A command's pulses are those of its steps.** What the host makes of the reports of a command
whose actions act as shipped ones or send nothing are the pulses of the steps played, in order: a
tap, a chord or a click for each gesture, and for each shipped action what it types or presses. No
pulse reaches from one step into the next. -/
theorem pulses_follow_steps {σ A : Type} [Behaviour A] {capacity : Nat}
    {qs : List Catalog.Registration} {r : Repertoire A} {buttons : List (AppId × ButtonMap)}
    {t : Timing} {s : Setup A} (h : Setup.assemble (.after capacity qs) r buttons t = .ok s)
    {role : A → Option Builtin} (hcast : s.Cast role) {app : AppId} {a : Application}
    (ha : s.appFor? app = some a) {cmd : UInt8} {row : Row} (hrow : a.script? cmd = some row)
    (transport : Transport σ) (source : Source) {w : World σ} {score : Score}
    (hscore : s.score app row w.surroundings.link.handle w.calls = score)
    (hends : ∀ step ∈ score.played, (s.stage app row w.surroundings.link.handle).Ends step)
    (hw : w.Ready (Event.pauses (score.events t.gap) + 1)) :
    ∃ w', (Player.command s app cmd).run ⟨.instant, transport, source⟩ w =
        (some (.ok (score.summary app cmd t.gap)), w') ∧
      Pulse.group (w'.eventsFrom w.journal.size) =
        score.played.flatMap (s.pulses role app w.surroundings.link.handle) := by
  obtain ⟨rfl, hacc⟩ := Setup.assemble_eq_ok_iff.mp h
  obtain ⟨hplay, -⟩ := hacc.playable rfl ha (List.mem_of_getElem? hrow)
  have hlook := Player.lookup_eq_ok ha hrow
  have hplays : (Player.command _ app cmd).Plays transport source w _ _ _ :=
    Player.command_plays hlook hplay w hscore
  obtain ⟨w', hrun, hd⟩ := hplays (by rw [Event.pauses_append]; exact hw)
  refine ⟨w', hrun, ?_⟩
  subst hscore
  rw [hd.eventsFrom, Pulse.group, List.filterMap_append]
  exact (hcast.stands_score hplay hends t.gap []).trans (List.append_nil _)

namespace Specimen

/-- The second special action types "aB-7" instead of pressing a shortcut, and the first one leaves
the key behind it to be played. -/
def clerk : Setup Action :=
  { setup with repertoire := ⟨[(0, [⟨.returns .ok, [], []⟩,
    ⟨.builtin .credentials, [97, 66, 45, 55], []⟩])]⟩ }

theorem assemble_clerk :
    Setup.assemble (.after 1 [registration]) clerk.repertoire buttons timing = .ok clerk := rfl

theorem cast_clerk : clerk.Cast Action.role := by
  intro entry he slot hslot
  obtain rfl := List.mem_singleton.mp he
  refine Action.actsAs_role fun moves ending haction => ?_
  rcases List.mem_cons.mp hslot with rfl | hslot
  · cases haction
    simp
  · obtain rfl := List.mem_singleton.mp hslot
    cases haction

end Specimen

/-- Between a key, a text that begins with the same key, and a combo, nothing is grouped. -/
theorem pulses_follow_steps_specimen :
    let score := Specimen.clerk.score 0 Specimen.row 1 0
    Specimen.clerk.Cast Action.role ∧
      (∀ step ∈ score.played, (Specimen.clerk.stage 0 Specimen.row 1).Ends step) ∧
      Specimen.world.Ready (Event.pauses (score.events 500) + 1) ∧
      ∃ w', (Player.command Specimen.clerk 0 0).run ⟨.instant, .recording, .bank⟩ Specimen.world =
          (some (.ok ⟨0, 0, 5, 0, 16, 9, .ranOut⟩), w') ∧
        Pulse.group (w'.eventsFrom 0) =
          [.tap 0 4, .raw (.key 1 0 .capsLock false), .tap 0 4, .tap .leftShift 5, .tap 0 36,
            .raw (.key 1 0 .capsLock false), .chord 0 [224, 6], .click 1] := by
  intro score
  have hplayed : score.played =
      [.special 0, .key 4, .special 1, .combo [224, 6], .click .left] := by decide +kernel
  have hends : ∀ step ∈ score.played, (Specimen.clerk.stage 0 Specimen.row 1).Ends step := by
    rw [hplayed]
    simp only [List.forall_mem_cons, Stage.Ends, true_and]
    exact ⟨fun _ _ => Option.some_ne_none Outcome.ok, fun _ _ => Option.some_ne_none Outcome.ok,
      by simp⟩
  have hready := Specimen.ready (Event.pauses (score.events 500) + 1)
  exact ⟨Specimen.cast_clerk, hends, hready, pulses_follow_steps Specimen.assemble_clerk
    Specimen.cast_clerk rfl rfl .recording .bank rfl hends hready⟩

end ButtonPad
