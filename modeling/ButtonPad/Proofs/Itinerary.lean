import ButtonPad.Player.Turn
import ButtonPad.Proofs.Phases
import ButtonPad.Proofs.Spelling

/-! # Where a script comes by

A script makes visits: each step that it executes is visited in its slot, towards the session that
is looked up when the visit begins (`Setup.Tours`). The journal marks the session of every visit,
its phase and the special action that is called (`Setup.marks`). What a run marks is the itinerary
of its commands, one after the other (`Rig.take_records`). -/
namespace ButtonPad

/-! ## Marks -/

inductive Mark where
  | addressed (handle : Handle)
  | entered (phase : Phase)
  | invoked (call : Invocation)
  deriving DecidableEq

def Mark.call? : Mark → Option Invocation
  | .invoked call => some call
  | _ => none

def Item.mark? : Item → Option Mark
  | .addressed handle => some (.addressed handle)
  | .note (.entered phase) => some (.entered phase)
  | .note (.invoked call) => some (.invoked call)
  | _ => none

namespace History

def marks (h : History) : List Mark := h.filterMap Item.mark?

@[simp] theorem marks_append (g h : History) : marks (g ++ h) = marks g ++ marks h :=
  List.filterMap_append

theorem marks_unmarked (past : History) {item : Item} (h : item.mark? = none) :
    History.marks (past ++ [item]) = past.marks := by
  have hnone : History.marks [item] = [] := List.filterMap_cons_none h
  rw [marks_append, hnone, List.append_nil]

theorem Outward.marks_behind {items : History} (h : items.Outward) (past : History) :
    History.marks (past ++ items) = past.marks := by
  have hnone : History.marks items = [] := by
    refine List.filterMap_eq_nil_iff.mpr fun item hitem => ?_
    cases item with
    | note n => cases h _ hitem
    | addressed handle => cases h _ hitem
    | _ => rfl
  rw [marks_append, hnone, List.append_nil]

end History

/-! ## Visits -/

/-- A step that is executed: the slot that it starts in, and the session that it addresses. -/
structure Visit where
  slot : Nat
  step : Step
  handle : Handle
  deriving DecidableEq

def Visit.special? (v : Visit) : Option (Nat × UInt8) := v.step.call?.map (v.slot, ·)

namespace Setup
variable {A : Type} (s : Setup A) (app : AppId) (row : Row)

/-- The call that a visit makes: that of a special step, if its action is there. -/
def call? (v : Visit) : Option Invocation :=
  v.step.call?.bind fun index =>
    (s.repertoire.slot? app index).map fun slot =>
      { app, index, row, cursor := v.slot, handle := v.handle, arg1 := slot.arg1,
        arg2 := slot.arg2 }

/-- What a visit leaves: it addresses its session, enters its phase, calls its action, and goes back
to reading. -/
def marks (v : Visit) : List Mark :=
  .addressed v.handle :: .entered v.step.phase ::
    (((s.call? app row v).map Mark.invoked).toList ++ [.entered .reading])

/-- What a script leaves that makes these visits and, if it comes to an end, settles. -/
def itinerary (visits : List Visit) (ending : Option Ending) : List Mark :=
  .entered .reading :: visits.flatMap (s.marks app row) ++
    if ending.isSome then [.entered .settling, .entered .polling] else []

variable [Behaviour A]

/-- The visits that the items of a row can see, the first step being left out if the flag is set,
and how that ends; without an ending so far. -/
inductive Tours : Bool → List Decoder.Item → List Visit → Option Ending → Prop
  | soFar (skip : Bool) (items : List Decoder.Item) : Tours skip items [] none
  | ranOut (skip : Bool) : Tours skip [] [] (some .ranOut)
  | malformed (skip : Bool) (fault : Script.Fault) (rest : List Decoder.Item) :
    Tours skip (.error fault :: rest) [] (some (.malformed fault))
  | finish (skip : Bool) (slot : Nat) (rest : List Decoder.Item) :
    Tours skip (.ok (slot, .finish) :: rest) [] (some .finished)
  | leftOut {slot : Nat} {step : Step} {rest : List Decoder.Item} {visits : List Visit}
    {ending : Option Ending} (h : step ≠ .finish) (next : Tours false rest visits ending) :
    Tours true (.ok (slot, step) :: rest) visits ending
  | within {slot : Nat} {step : Step} (handle : Handle) (rest : List Decoder.Item)
    (h : step ≠ .finish) : Tours false (.ok (slot, step) :: rest) [⟨slot, step, handle⟩] none
  | goOn {handle : Handle} {slot : Nat} {step : Step} {rest : List Decoder.Item}
    {events : List Event} {visits : List Visit} {ending : Option Ending}
    (does : (s.stage app row handle).Does slot step events .goOn)
    (next : Tours false rest visits ending) :
    Tours false (.ok (slot, step) :: rest) (⟨slot, step, handle⟩ :: visits) ending
  | skipNext {handle : Handle} {slot : Nat} {step : Step} {rest : List Decoder.Item}
    {events : List Event} {visits : List Visit} {ending : Option Ending}
    (does : (s.stage app row handle).Does slot step events .skipNext)
    (next : Tours true rest visits ending) :
    Tours false (.ok (slot, step) :: rest) (⟨slot, step, handle⟩ :: visits) ending
  | stop {handle : Handle} {slot : Nat} {step : Step} {rest : List Decoder.Item}
    {events : List Event} {ending : Ending}
    (does : (s.stage app row handle).Does slot step events (.stop ending)) :
    Tours false (.ok (slot, step) :: rest) [⟨slot, step, handle⟩] (some ending)

/-- What a command leaves, and what comes of it. Without a result it was cut off somewhere. -/
inductive Leaves (app : AppId) (cmd : UInt8) :
    List Mark → Option (Except Refusal Summary) → Prop
  | refused {refusal : Refusal} (look : Player.lookup s app cmd = .error refusal) :
    Leaves app cmd [] (some (.error refusal))
  | cutOff {row : Row} {visits : List Visit} {ending : Option Ending} {marks : List Mark}
    (look : Player.lookup s app cmd = .ok row)
    (tours : s.Tours app row false row.items visits ending)
    (part : marks <+: s.itinerary app row visits ending) : Leaves app cmd marks none
  | played {row : Row} {visits : List Visit} {m : Summary}
    (look : Player.lookup s app cmd = .ok row)
    (tours : s.Tours app row false row.items visits (some m.ending))
    (steps : m.steps = visits.length) :
    Leaves app cmd (s.itinerary app row visits (some m.ending)) (some (.ok m))

/-- What a cycle leaves: that it polls, and what the command leaves that is pressed. -/
inductive Rounds : List Mark → Option (Except Refusal Summary) → Prop
  | nothing : Rounds [] none
  | polling : Rounds [.entered .polling] none
  | command {app : AppId} {cmd : UInt8} {marks : List Mark}
    {result : Option (Except Refusal Summary)} (press : s.Presses app cmd)
    (leaves : s.Leaves app cmd marks result) : Rounds (.entered .polling :: marks) result

/-- What cycles leave that are over, one after the other. -/
inductive Chronicle : List Mark → Prop
  | nothing : Chronicle []
  | cycle {past marks : List Mark} {result : Except Refusal Summary} (before : Chronicle past)
    (round : s.Rounds marks (some result)) : Chronicle (past ++ marks)

/-- What a task leaves, and what comes of it. -/
def Records : Task → List Mark → Option (Except Refusal Summary) → Prop
  | .command app cmd, marks, result => s.Leaves app cmd marks result
  | .cycle, marks, result => s.Rounds marks result
  | .forever, marks, _ | .boot, marks, _ =>
    ∃ past last, marks = past ++ last ∧ s.Chronicle past ∧ s.Rounds last none

end Setup

/-! ## Flows -/

namespace Player
variable {A : Type} [Behaviour A] {s : Setup A} {app : AppId} {row : Row} {P : List Mark → Prop}
open ButtonPad.Flow

theorem perform_unmarked {events : List Event} {past : History} (hpast : P past.marks) :
    (perform events).Assures (P ·.marks) past fun _ now => now.marks = past.marks := by
  refine assures_events fun items ho _ => ?_
  have hmarks := ho.marks_behind past
  exact ⟨hmarks.symm ▸ hpast, fun _ => hmarks⟩

theorem callSpecial_marks {call : Invocation} {slot : Slot A} {past : History}
    (hcalled : P (past.marks ++ [.invoked call])) :
    (callSpecial s call slot).Assures (P ·.marks) past fun _ now =>
      now.marks = past.marks ++ [.invoked call] := by
  have hmarks : History.marks (past ++ [.note (.invoked call)]) = past.marks ++ [.invoked call] :=
    History.marks_append ..
  rw [← hmarks] at hcalled ⊢
  simp only [callSpecial, assures_bind, assures_tell, assures_raceAct]
  generalize past ++ [Item.note (.invoked call)] = called at hcalled ⊢
  refine ⟨hcalled, fun n items hl => ?_⟩
  have hitems := History.Outward.marks_behind hl.events called
  rw [← hitems] at hcalled ⊢
  exact ⟨hcalled, perform_unmarked hcalled, fun _ _ _ => rfl⟩

theorem playStep_marks {slot : Nat} {handle : Handle} {step : Step} (hne : step ≠ .finish)
    {past : History}
    (hsafe : ∀ marks, marks <+: .entered step.phase ::
      ((s.call? app row ⟨slot, step, handle⟩).map Mark.invoked).toList → P (past.marks ++ marks)) :
    (playStep s app row slot handle step).Assures (P ·.marks) past fun _ now =>
      now.marks = past.marks ++ .entered step.phase ::
        ((s.call? app row ⟨slot, step, handle⟩).map Mark.invoked).toList := by
  have hmarks : History.marks (past ++ [.note (.entered step.phase)]) =
      past.marks ++ [.entered step.phase] := History.marks_append ..
  have hentered : P (History.marks (past ++ [.note (.entered step.phase)])) :=
    hmarks ▸ hsafe [_] ⟨_, rfl⟩
  cases step with
  | finish => exact absurd rfl hne
  | key usage | combo keys | click button =>
    simp only [playStep, assures_bind, assures_enter, assures_pure]
    exact ⟨hentered, (perform_unmarked hentered).mono fun _ now hnow => hnow.trans hmarks⟩
  | special index =>
    have hspecial : History.marks (past ++ [.note (.entered .special)]) =
        past.marks ++ [.entered .special] := hmarks
    have hwhole := hsafe _ (List.prefix_refl _)
    simp only [playStep, assures_bind, assures_enter]
    refine ⟨hentered, ?_⟩
    simp only [Setup.call?, Step.call?, Option.bind_some] at hwhole ⊢
    cases hslot : s.repertoire.slot? app index with
    | none =>
      rw [hslot] at hwhole
      have habsent : History.marks (past ++ [.note (.entered .special)] ++
          [.note (.absent app index)]) = past.marks ++ [.entered .special] :=
        (History.marks_unmarked _ rfl).trans hspecial
      exact ⟨(congrArg P habsent).mpr hwhole, habsent⟩
    | some found =>
      rw [hslot] at hwhole
      rw [assures_bind]
      refine (callSpecial_marks ?_).mono fun _ now hnow => ?_
      · rw [hspecial, List.append_assoc]
        exact hwhole
      · rw [hspecial, List.append_assoc] at hnow
        exact hnow

theorem execute_visits {slot : Nat} {step : Step} (hne : step ≠ .finish) {past : History}
    (hsafe : ∀ handle marks, marks <+: s.marks app row ⟨slot, step, handle⟩ →
      P (past.marks ++ marks)) :
    (execute s app row slot step).Assures (P ·.marks) past fun verdict now =>
      ∃ handle events, (s.stage app row handle).Does slot step events verdict ∧
        now.marks = past.marks ++ s.marks app row ⟨slot, step, handle⟩ := by
  simp only [execute, assures_bind, assures_readHandle, assures_enter, assures_pause, assures_pure]
  intro handle
  have hread : History.marks (past ++ [.addressed handle]) = past.marks ++ [.addressed handle] :=
    History.marks_append ..
  have hdoes : (playStep s app row slot handle step).Assures (fun _ => True)
      (past ++ [.addressed handle]) fun verdict _ =>
        ∃ events, (s.stage app row handle).Does slot step events verdict :=
    (playStep_does hne fun _ _ _ => trivial).mono fun _ _ hplayed =>
      hplayed.imp fun _ hdoes => hdoes.1
  refine ⟨hread ▸ hsafe handle _ ⟨_, rfl⟩, ((playStep_marks hne ?_).and hdoes).mono ?_⟩
  · intro marks hmarks
    rw [hread, ← List.append_cons]
    refine hsafe handle _ (List.cons_prefix_cons.mpr ⟨rfl, hmarks.trans ?_⟩)
    exact ⟨[.entered .reading], rfl⟩
  · intro verdict now hplayed
    obtain ⟨hnow, events, hdoes⟩ := hplayed
    have hreading : History.marks (now ++ [.note (.entered .reading)]) =
        past.marks ++ s.marks app row ⟨slot, step, handle⟩ := by
      rw [History.marks_append, hnow, hread, List.append_assoc, List.append_assoc]
      rfl
    have hgap : History.marks (now ++ [.note (.entered .reading)] ++ [.paused s.timing.gap]) =
        past.marks ++ s.marks app row ⟨slot, step, handle⟩ :=
      (History.marks_unmarked _ rfl).trans hreading
    have hvisited := hsafe handle _ (List.prefix_refl _)
    exact ⟨hreading ▸ hvisited, hgap ▸ hvisited, handle, events, hdoes, hgap⟩

theorem playItems_tours (items : List Decoder.Item) (skip : Bool) (p : Progress) {past : History}
    (hsafe : ∀ visits marks, s.Tours app row skip items visits none →
      marks <+: visits.flatMap (s.marks app row) → P (past.marks ++ marks)) :
    (playItems s app row items skip p).Assures (P ·.marks) past fun result now =>
      ∃ visits, s.Tours app row skip items visits (some result.2) ∧
        now.marks = past.marks ++ visits.flatMap (s.marks app row) ∧
        result.1.steps = p.steps + visits.length := by
  induction items generalizing skip p past with
  | nil => exact ⟨[], .ranOut skip, (List.append_nil _).symm, rfl⟩
  | cons item rest ih =>
    cases item with
    | error fault => exact ⟨[], .malformed skip fault rest, (List.append_nil _).symm, rfl⟩
    | ok entry =>
      obtain ⟨slot, step⟩ := entry
      by_cases hfinish : step = .finish
      · subst hfinish
        exact ⟨[], .finish skip slot rest, (List.append_nil _).symm, rfl⟩
      cases skip with
      | true =>
        simp only [playItems, hfinish, if_false, if_true]
        refine (ih false _ fun visits marks htours =>
          hsafe visits marks (.leftOut hfinish htours)).mono fun result now hplayed => ?_
        obtain ⟨visits, htours, hrest⟩ := hplayed
        exact ⟨visits, .leftOut hfinish htours, hrest⟩
      | false =>
        rw [playItems_execute hfinish, assures_bind]
        refine (execute_visits hfinish fun handle marks hmarks => ?_).mono ?_
        · refine hsafe [⟨slot, step, handle⟩] marks (.within handle rest hfinish) ?_
          rwa [List.flatMap_singleton]
        intro verdict now hvisited
        obtain ⟨handle, events, hdoes, hnow⟩ := hvisited
        -- what the rest of the script marks comes behind this visit
        have hrest : ∀ skip, (∀ visits ending, s.Tours app row skip rest visits ending →
            s.Tours app row false (.ok (slot, step) :: rest) (⟨slot, step, handle⟩ :: visits)
              ending) →
            (playItems s app row rest skip { p with
              steps := p.steps + 1, lastSlot := slot + step.width - 1 }).Assures (P ·.marks) now
              fun result now => ∃ visits,
                s.Tours app row false (.ok (slot, step) :: rest) visits (some result.2) ∧
                now.marks = past.marks ++ visits.flatMap (s.marks app row) ∧
                result.1.steps = p.steps + visits.length := by
          intro skip hbehind
          refine (ih skip _ fun visits marks htours hmarks => ?_).mono fun result now hplayed => ?_
          · rw [hnow, List.append_assoc]
            refine hsafe _ _ (hbehind visits none htours) ?_
            exact (List.prefix_append_right_inj _).mpr hmarks
          · obtain ⟨visits, htours, hmarks, hsteps⟩ := hplayed
            refine ⟨_, hbehind visits _ htours, ?_, ?_⟩
            · rw [hmarks, hnow, List.append_assoc]
              rfl
            · rw [hsteps, List.length_cons, Nat.add_assoc, Nat.add_comm 1]
        cases verdict with
        | goOn => exact hrest false fun _ _ => .goOn hdoes
        | skipNext => exact hrest true fun _ _ => .skipNext hdoes
        | stop ending =>
          refine ⟨_, .stop hdoes, ?_, rfl⟩
          rw [hnow, List.flatMap_singleton]

theorem command_leaves {cmd : UInt8} {past : History} (hpast : P past.marks)
    (hsafe : ∀ marks, s.Leaves app cmd marks none → P (past.marks ++ marks)) :
    (command s app cmd).Assures (P ·.marks) past fun result now =>
      ∃ marks, s.Leaves app cmd marks (some result) ∧ now.marks = past.marks ++ marks := by
  cases hlook : lookup s app cmd with
  | error refusal =>
    have hrefused : History.marks (past ++ [.note (.refused refusal)]) = past.marks :=
      History.marks_unmarked _ rfl
    simp only [command, hlook, assures_bind, assures_tell, assures_pure]
    exact ⟨hrefused.symm ▸ hpast, [], .refused hlook, hrefused.trans (List.append_nil _).symm⟩
  | ok row =>
    have hbegun : History.marks (past ++ [.note (.entered .reading)]) =
        past.marks ++ [.entered .reading] := History.marks_append ..
    -- wherever the script is, it leaves a beginning of an itinerary
    have hpart : ∀ {visits ending marks}, s.Tours app row false row.items visits ending →
        marks <+: s.itinerary app row visits ending → P (past.marks ++ marks) :=
      fun htours hmarks => hsafe _ (.cutOff hlook htours hmarks)
    simp only [command, hlook, playRow, assures_bind, assures_readSent, assures_enter]
    refine fun before => ⟨hbegun ▸ hpart (.soFar false _) ⟨[], rfl⟩,
      (playItems_tours row.items false {} fun visits marks htours hmarks => ?_).mono ?_⟩
    · rw [hbegun, ← List.append_cons]
      refine hpart htours (List.cons_prefix_cons.mpr ⟨rfl, hmarks.trans ?_⟩)
      exact List.prefix_append _ _
    · intro result now hplayed after
      obtain ⟨p, ending⟩ := result
      obtain ⟨visits, htours, hnow, hsteps⟩ := hplayed
      have hmarks : ∀ items : History, History.marks (now ++ items) =
          past.marks ++ (.entered .reading :: visits.flatMap (s.marks app row) ++
            items.marks) := by
        intro items
        rw [History.marks_append, hnow, hbegun]
        simp only [List.append_assoc, List.cons_append, List.nil_append]
      have hsettling : ∀ items : History, items.marks <+: [.entered .settling, .entered .polling] →
          P (History.marks (now ++ items)) := by
        intro items hitems
        rw [hmarks]
        exact hpart htours ((List.prefix_append_right_inj _).mpr hitems)
      simp only [assures_pause, assures_tell, assures_pure, List.append_assoc]
      exact ⟨hsettling _ ⟨_, rfl⟩, hsettling _ ⟨_, rfl⟩, hsettling _ ⟨_, rfl⟩, hsettling _ ⟨_, rfl⟩,
        _, .played hlook htours (hsteps.trans (Nat.zero_add _)), hmarks _⟩

theorem unmarked_patient {marks : List Mark} (h : P marks) (pollEvery : UInt32) :
    History.Patient pollEvery (P ·.marks) (·.marks = marks) where
  safe hp := hp.symm ▸ h
  paused hp := (History.marks_unmarked _ rfl).trans hp
  polled hp := (History.marks_unmarked _ rfl).trans hp
  read hp := (History.marks_unmarked _ rfl).trans hp

theorem cycle_rounds (polls : Nat) {past : History}
    (hsafe : ∀ marks, s.Rounds marks none → P (past.marks ++ marks)) :
    (cycle s polls).Assures (P ·.marks) past fun result now =>
      ∃ marks, s.Rounds marks (some result) ∧ now.marks = past.marks ++ marks := by
  have hpolling := hsafe _ .polling
  have hmarks : History.marks (past ++ [.note (.entered .polling)]) =
      past.marks ++ [.entered .polling] := History.marks_append ..
  simp only [cycle, assures_bind, assures_enter]
  refine ⟨hmarks.symm ▸ hpolling,
    (awaitPress_patient (unmarked_patient hpolling _) polls hmarks).mono ?_⟩
  intro found now hfound
  obtain ⟨hnow, hpress⟩ := hfound
  refine (command_leaves (hnow.symm ▸ hpolling) fun marks hleaves => ?_).mono ?_
  · rw [hnow, ← List.append_cons]
    exact hsafe _ (.command hpress hleaves)
  · intro result later hlater
    obtain ⟨marks, hleaves, hlater⟩ := hlater
    exact ⟨_, .command hpress hleaves, by rw [hlater, hnow, ← List.append_cons]⟩

theorem cycles_chronicle (polls n : Nat) {past : History} (hpast : s.Chronicle past.marks) :
    (cycles s polls n).Assures (fun now => s.Records .forever now.marks none) past
      fun _ now => s.Chronicle now.marks := by
  refine cycles_steady (fun {past} hpast => ?_) n hpast
  refine (cycle_rounds (P := fun marks => s.Records .forever marks none) polls
    fun marks hround => ⟨_, marks, rfl, hpast, hround⟩).mono ?_
  intro result now hcycled
  obtain ⟨marks, hround, hnow⟩ := hcycled
  exact hnow ▸ .cycle hpast hround

end Player

/-! ## Runs -/

namespace Player
variable {σ A : Type} [Behaviour A] (rig : Rig σ) (s : Setup A)
open ButtonPad.Flow

theorem command_records (app : AppId) (cmd : UInt8) (w : World σ) :
    ∃ now : History, ((command s app cmd).run rig w).2.history = w.history ++ now ∧
      s.Leaves app cmd now.marks ((command s app cmd).run rig w).1 := by
  cases hlook : lookup s app cmd with
  | error refusal =>
    refine ⟨[.note (.refused refusal)], ?_, ?_⟩ <;> simp only [command, hlook]
    · exact World.history_tell w _
    · exact .refused hlook
  | ok row =>
    have hnothing : s.Leaves app cmd [] none := .cutOff hlook (.soFar false _) List.nil_prefix
    obtain ⟨now, hist, hkept, hpost⟩ := run_assures rig w
      (command_leaves (P := (s.Leaves app cmd · none)) hnothing fun _ => id) hnothing
    refine ⟨now, hist, ?_⟩
    cases hresult : ((command s app cmd).run rig w).1 with
    | none => exact hkept now (List.prefix_refl _)
    | some result =>
      obtain ⟨marks, hleaves, hnow⟩ := hpost result hresult
      exact hnow ▸ hleaves

theorem cycle_records (polls : Nat) (w : World σ) :
    ∃ now : History, ((cycle s polls).run rig w).2.history = w.history ++ now ∧
      s.Rounds now.marks ((cycle s polls).run rig w).1 := by
  obtain ⟨now, hist, hkept, hpost⟩ := run_assures rig w
    (cycle_rounds (P := (s.Rounds · none)) polls fun _ => id) .nothing
  refine ⟨now, hist, ?_⟩
  cases hresult : ((cycle s polls).run rig w).1 with
  | none => exact hkept now (List.prefix_refl _)
  | some result =>
    obtain ⟨marks, hround, hnow⟩ := hpost result hresult
    exact hnow ▸ hround

theorem cycles_records (polls n : Nat) (w : World σ) :
    ∃ now : History, ((cycles s polls n).run rig w).2.history = w.history ++ now ∧
      s.Records .forever now.marks none := by
  obtain ⟨now, hist, hkept, -⟩ := run_assures rig w
    (cycles_chronicle (s := s) polls n .nothing) ⟨[], [], rfl, .nothing, .nothing⟩
  exact ⟨now, hist, hkept now (List.prefix_refl _)⟩

theorem boot_records (polls : Nat) (w : World σ) :
    ∃ now : History, ((boot s polls).run rig w).2.history = w.history ++ now ∧
      s.Records .boot now.marks none := by
  have hnothing : s.Records .forever [] none := ⟨[], [], rfl, .nothing, .nothing⟩
  have hboot : (boot s polls).Assures (fun now => s.Records .forever now.marks none) []
      fun _ now => s.Chronicle now.marks := by
    simp only [boot, assures_bind, assures_pause]
    exact ⟨hnothing, cycles_chronicle polls polls .nothing⟩
  obtain ⟨now, hist, hkept, -⟩ := run_assures rig w hboot hnothing
  exact ⟨now, hist, hkept now (List.prefix_refl _)⟩

end Player

/-- **A run marks the itineraries of its commands.** What a task writes into the journal marks, for
each of its commands, the visits of a tour of the command's row, and nothing else. -/
theorem Rig.take_records {σ A : Type} [Behaviour A] (rig : Rig σ) (s : Setup A) (task : Task)
    (limit : Nat) (w : World σ) :
    ∃ now : History, (rig.take s ⟨[], task, limit⟩ w).2.history = w.history ++ now ∧
      s.Records task now.marks (rig.take s ⟨[], task, limit⟩ w).1 := by
  cases task with
  | command app cmd => exact Player.command_records rig s app cmd (w.startRun rig.clock limit)
  | cycle => exact Player.cycle_records rig s _ (w.startRun rig.clock limit)
  | forever => exact Player.cycles_records rig s _ _ (w.startRun rig.clock limit)
  | boot => exact Player.boot_records rig s _ (w.startRun rig.clock limit)

end ButtonPad
